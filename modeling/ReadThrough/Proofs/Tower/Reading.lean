import ReadThrough.Proofs.Fronted.Direct
import ReadThrough.Proofs.Tower.Shape

/-!
# Reading at any level of a tower

A tower is upright if its caches hold nothing but what is on the shelf.  Every level of
it then is a source that is truthful and reliable over the shelf at the bottom: the
shelf is, and a cache over such a source is again.

* `Network.Upright o h w`: `w` is an upright tower of `h` caches over the shelf `o`.
* `Network.source_faithful`: the induction over the levels.
* `Upright.operate`: a read at any level answers like the shelf, and leaves the tower
  upright.
-/

namespace ReadThrough

variable {ι α : Type}

namespace Query

/-- A read as it is asked of a node. -/
def operation : Query ι → Operation ι α
  | size => .size
  | get position => .get position
  | range start length => .range start length
  | byId id => .byId id

/-- What a read with this result gives. -/
def outcome : (q : Query ι) → Except Fault (q.Result α) → Outcome ι α
  | size => .ofExcept .number
  | get _ => .ofExcept .object
  | range _ _ => .ofExcept .objects
  | byId _ => .ofExcept .object?

/-- How a shelf is called for a read. -/
def call : Query ι → Call ι α
  | size => .size
  | get position => .get position
  | range start length => .range start length
  | byId id => .byId id

end Query

/-- Nothing goes wrong with the shelf, and it tells its objects apart. -/
structure Origin.Sound (o : Origin ι α) : Prop where
  lawful : o.shelf.Lawful
  calm : o.trouble = .none

theorem Trouble.distort_none (values : List α) : none.distort values = values := by
  rw [distort, none, Nat.sub_zero, List.take_length, List.append_nil]

namespace Network

variable {w : Network ι α} {n k h d : Nat} {o : Origin ι α} {l : Layer ι α} {c : Cache ι α}

theorem askOrigin_of_calm {β : Type} (calm : o.trouble = .none) (call : Call ι α)
    (answer : Except Fault β) : w.askOrigin o call answer = (answer, w.record o.name call) := by
  rw [askOrigin, calm]
  rfl

variable [DecidableEq ι]

/-! ## Nodes as sources -/

theorem source_of_origin (here : w.origin? n = some o) (calm : o.trouble = .none) :
    (source (d + 1) n).size w = (.ok o.shelf.size, w.record o.name .size) ∧
    (∀ start length, (source (d + 1) n).range start length w =
      (o.shelf.range start length, w.record o.name (.range start length))) ∧
    (∀ id, (source (d + 1) n).byId id w =
      (.ok (o.shelf.byId? id), w.record o.name (.byId id))) ∧
    (source (d + 1) n).identify w = o.shelf.identify := by
  have node := node?_of_origin? here
  simp only [source, node]
  refine ⟨?_, fun start length => ?_, fun id => ?_, trivial⟩
  · rw [originSize, askOrigin_of_calm calm, calm]
    rfl
  · rw [originRange, askOrigin_of_calm calm, calm]
    cases o.shelf.range start length with
    | ok vs => exact congrArg (fun vs => (Except.ok vs, _)) (Trouble.distort_none vs)
    | error e => rfl
  · rw [originById, askOrigin_of_calm calm, calm]
    rfl

theorem source_of_layer (here : w.layer? n = some l) :
    (source (d + 1) n).size w = store n ((source d l.below).through.size (l.cache, w)) ∧
    (∀ start length, (source (d + 1) n).range start length w =
      store n ((source d l.below).through.range start length (l.cache, w))) ∧
    (∀ id, (source (d + 1) n).byId id w =
      store n ((source d l.below).through.byId id (l.cache, w))) ∧
    (source (d + 1) n).identify w = (source d l.below).identify w := by
  have node := node?_of_layer? here
  simp only [source, node]
  exact ⟨rfl, fun _ _ => rfl, fun _ => rfl, trivial⟩

/-! ## Upright towers -/

/-- A tower of `h` caches that hold nothing but what is on the shelf. -/
def Upright (o : Origin ι α) (h : Nat) (w : Network ι α) : Prop :=
  ∃ subs cs, Tower o subs cs w ∧ cs.length = h ∧
    ∀ c ∈ cs, c.Stocked (o.shelf.answers fun _ => False)

namespace Upright

theorem origin? (upright : w.Upright o h) : w.origin? 0 = some o := by
  obtain ⟨subs, cs, tower, -⟩ := upright
  exact tower.origin

theorem layer? (upright : w.Upright o h) (lt : k < h) : ∃ c busy,
    w.layer? (k + 1) = some ⟨c, k, false, busy⟩ ∧ c.Stocked (o.shelf.answers fun _ => False) := by
  obtain ⟨subs, cs, tower, length, stocked⟩ := upright
  have at_k : cs[k]? = some cs[k] := List.getElem?_eq_getElem (length ▸ lt)
  obtain ⟨busy, here⟩ := tower.layer k _ at_k
  exact ⟨_, busy, here, stocked _ (List.mem_of_getElem? at_k)⟩

theorem record (upright : w.Upright o h) (name : String) (call : Call ι α) :
    (w.record name call).Upright o h := by
  obtain ⟨subs, cs, tower, rest⟩ := upright
  exact ⟨subs, cs, tower.congr rfl rfl tower.silent, rest⟩

/-- Put a cache back after a read. -/
theorem setCache (upright : w.Upright o h) (stocked : c.Stocked (o.shelf.answers fun _ => False)) :
    (w.setCache (k + 1) c).Upright o h := by
  obtain ⟨subs, cs, tower, length, all⟩ := upright
  refine ⟨subs, cs.set k c, tower.setCache, by rwa [List.length_set], fun c' mem => ?_⟩
  rcases List.mem_or_eq_of_mem_set mem with old | new
  · exact all c' old
  · exact new ▸ stocked

end Upright

/-! ## Levels -/

/-- The node is truthful and reliable over the shelf at the bottom. -/
structure Faithful (o : Origin ι α) (h d n : Nat) : Prop where
  truthful : (source d n).Truthful (o.shelf.answers fun _ => False) (Upright o h)
  reliable : (source d n).Reliable (o.shelf.answers fun _ => False) (Upright o h) fun _ => False

theorem faithful_ground (sound : o.Sound) : Faithful o h (d + 1) 0 := by
  have shelf := Shelf.truthful (fun _ => False) sound.lawful.distinct
  have answered := Shelf.reliable sound.lawful
  refine ⟨⟨fun w upright => ?_, fun start length w upright => ?_, fun id w upright => ?_,
    fun w upright => ?_⟩, ⟨fun w upright => ?_, fun start length n w upright size within => ?_,
    fun id w upright => ?_, answered.size_lt, fun w upright => ?_⟩⟩
  all_goals
    obtain ⟨size', range, byId, identify⟩ :=
      source_of_origin (d := d) upright.origin? sound.calm
  · rw [size']
    exact ⟨upright.record _ _, (shelf.size o.shelf rfl).2⟩
  · rw [range]
    exact ⟨upright.record _ _, (shelf.range start length o.shelf rfl).2⟩
  · rw [byId]
    exact ⟨upright.record _ _, (shelf.byId id o.shelf rfl).2⟩
  · rw [identify]
    exact shelf.identify o.shelf rfl
  · rw [size']
    exact answered.size o.shelf rfl
  · rw [range]
    exact answered.range start length n o.shelf rfl size within
  · rw [byId]
    exact answered.byId id o.shelf rfl
  · rw [identify]
    exact answered.unique o.shelf rfl

/-- A cache over a node that is faithful is faithful. -/
theorem Faithful.over (below : Faithful o h d k) (lt : k < h) : Faithful o h (d + 1) (k + 1) := by
  have one : ∀ m n, (o.shelf.answers fun _ => False).size m →
      (o.shelf.answers fun _ => False).size n → m = n := fun m n hm hn =>
    (Shelf.answers_nothing_size.1 hm).trans (Shelf.answers_nothing_size.1 hn).symm
  have truthful := below.truthful.through
  have reliable := below.reliable.through below.truthful one
  refine ⟨⟨fun w upright => ?_, fun start length w upright => ?_, fun id w upright => ?_,
    fun w upright => ?_⟩, ⟨fun w upright => ?_, fun start length n w upright size within => ?_,
    fun id w upright => ?_, reliable.size_lt, fun w upright => ?_⟩⟩
  all_goals
    obtain ⟨c, busy, here, stocked⟩ := upright.layer? lt
    obtain ⟨size', range, byId, identify⟩ := source_of_layer (d := d) here
  · obtain ⟨⟨stocked', upright'⟩, told⟩ := truthful.size (c, w) ⟨stocked, upright⟩
    rw [size']
    exact ⟨upright'.setCache stocked', told⟩
  · obtain ⟨⟨stocked', upright'⟩, told⟩ := truthful.range start length (c, w) ⟨stocked, upright⟩
    rw [range]
    exact ⟨upright'.setCache stocked', told⟩
  · obtain ⟨⟨stocked', upright'⟩, told⟩ := truthful.byId id (c, w) ⟨stocked, upright⟩
    rw [byId]
    exact ⟨upright'.setCache stocked', told⟩
  · rw [identify]
    exact truthful.identify (c, w) ⟨stocked, upright⟩
  · rw [size']
    exact reliable.size (c, w) ⟨stocked, upright⟩
  · rw [range]
    exact reliable.range start length n (c, w) ⟨stocked, upright⟩ size within
  · rw [byId]
    exact reliable.byId id (c, w) ⟨stocked, upright⟩
  · rw [identify]
    exact reliable.unique (c, w) ⟨stocked, upright⟩

theorem source_faithful (sound : o.Sound) (le : k ≤ h) (deep : k < d) : Faithful o h d k := by
  induction k generalizing d with
  | zero =>
    obtain ⟨d, rfl⟩ : ∃ d', d = d' + 1 := ⟨d - 1, by omega⟩
    exact faithful_ground sound
  | succ k ih =>
    obtain ⟨d, rfl⟩ : ∃ d', d = d' + 1 := ⟨d - 1, by omega⟩
    exact (ih (by omega) (by omega)).over (by omega)

/-! ## Reads as operations -/

variable [ToString ι]

theorem operate_of_origin (here : w.origin? n = some o) (calm : o.trouble = .none)
    (name : String) (q : Query ι) :
    w.operate name n ⟨.origin o, w.registry n⟩ q.operation =
      (q.outcome (o.shelf.query q), w.record o.name q.call, []) := by
  obtain ⟨size, range, byId, -⟩ := source_of_origin (d := w.nodes.size) here calm
  cases q with
  | size => exact congrArg (answer .number) size
  | get position =>
    have read : w.readAt n position = (o.shelf.get position, w.record o.name (.get position)) := by
      rw [readAt, node?_of_origin? here]
      exact askOrigin_of_calm calm _ _
    exact congrArg (answer .object) read
  | range start length => exact congrArg (answer .objects) (range start length)
  | byId id => exact congrArg (answer .object?) (byId id)

/-- A read at a cache goes through it to the node below. -/
theorem operate_of_layer (here : w.layer? n = some l) (name : String) (q : Query ι) :
    ∃ d, w.nodes.size ≤ d ∧ w.operate name n ⟨.layer l, w.registry n⟩ q.operation =
      (q.outcome (store n (Cache.query (source d l.below) q l.cache w)).1,
        (store n (Cache.query (source d l.below) q l.cache w)).2, []) := by
  obtain ⟨size, range, byId, -⟩ := source_of_layer (d := w.nodes.size) here
  cases q with
  | size => exact ⟨_, Nat.le_refl _, congrArg (answer .number) size⟩
  | get position =>
    refine ⟨w.depth, Nat.le_succ _, congrArg (answer .object) ?_⟩
    rw [readAt, node?_of_layer? here]
    rfl
  | range start length => exact ⟨_, Nat.le_refl _, congrArg (answer .objects) (range start length)⟩
  | byId id => exact ⟨_, Nat.le_refl _, congrArg (answer .object?) (byId id)⟩

/-- A read at any level answers like the shelf, and leaves the tower upright. -/
theorem Upright.operate (upright : w.Upright o h) (sound : o.Sound) (le : n ≤ h) {node : Node ι α}
    (at_n : w.node? n = some node) (name : String) (q : Query ι) :
    ∃ w', w.operate name n node q.operation = (q.outcome (o.shelf.query q), w', []) ∧
      w'.Upright o h := by
  cases n with
  | zero =>
    cases (node?_of_origin? upright.origin?).symm.trans at_n
    exact ⟨_, operate_of_origin upright.origin? sound.calm name q, upright.record _ _⟩
  | succ k =>
    obtain ⟨c, busy, here, stocked⟩ := upright.layer? le
    cases (node?_of_layer? here).symm.trans at_n
    obtain ⟨d, deep, performed⟩ := operate_of_layer here name q
    have size : k < w.nodes.size := Nat.lt_of_succ_lt (lt_size_of_layer? here)
    obtain ⟨truthful, reliable⟩ :=
      source_faithful sound (Nat.le_of_succ_le le) (Nat.lt_of_lt_of_le size deep)
    have served := Cache.query_served truthful stocked upright q
    refine ⟨_, performed.trans ?_, served.inv.setCache (k := k) served.stocked⟩
    rw [store, Cache.query_eq reliable truthful stocked upright]

end Network

end ReadThrough
