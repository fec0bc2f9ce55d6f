import ReadThrough.Proofs.Cache.Reading
import ReadThrough.Proofs.Network.Wiring

/-!
# Reading within a network in step

A read may fill the caches of a whole stack.  It leaves the network in step: what a
shelf tells is right for every cache above it, since whatever may still excuse the
cache below is on its way to the one above as well.

* `Network.Lawful`: every shelf tells its objects apart and answers honestly.
* `Network.source_truthful`: a node as a source gives right answers.
-/

namespace ReadThrough

variable {ι α β : Type}

/-- The trouble keeps back an answer or spoils its length, but tells nothing false. -/
structure Trouble.Honest (t : Trouble α) : Prop where
  size : t.size? = Option.none
  byId : t.byId? = Option.none
  range : ∀ values, (t.distort values).length = values.length → t.distort values = values

/-- The trouble only keeps back answers, by a test that can be run. -/
def Trouble.isPlain (t : Trouble α) : Bool :=
  t.size?.isNone && t.byId?.isNone && t.short == 0 && t.extra.isEmpty

theorem Trouble.honest_of_isPlain {t : Trouble α} (plain : t.isPlain = true) : t.Honest := by
  rw [isPlain] at plain
  simp only [Bool.and_eq_true, Option.isNone_iff_eq_none, beq_iff_eq, List.isEmpty_iff] at plain
  obtain ⟨⟨⟨size, byId⟩, short⟩, extra⟩ := plain
  refine ⟨size, byId, fun values _ => ?_⟩
  rw [distort, short, extra, Nat.sub_zero, List.take_length, List.append_nil]

structure Origin.Lawful (o : Origin ι α) : Prop where
  distinct : o.shelf.Distinct
  honest : o.trouble.Honest

namespace Network

def Lawful (w : Network ι α) : Prop := ∀ n o, w.origin? n = some o → o.Lawful

/-- The networks differ in what caches hold, in registries and in records only. -/
structure SameStack (w w' : Network ι α) : Prop where
  layer : ∀ n, (w'.layer? n).map (fun l => (l.below, l.retired)) =
    (w.layer? n).map fun l => (l.below, l.retired)
  origin : ∀ n, w'.origin? n = w.origin? n

variable {w₀ w w' : Network ι α} {n m b k : NodeId} {l : Layer ι α} {o : Origin ι α}
variable {agenda : List (Errand ι α)}

namespace SameStack

theorem refl : w.SameStack w := ⟨fun _ => rfl, fun _ => rfl⟩

theorem symm (same : w.SameStack w') : w'.SameStack w :=
  ⟨fun n => (same.layer n).symm, fun n => (same.origin n).symm⟩

theorem trans (same : w₀.SameStack w) (same' : w.SameStack w') : w₀.SameStack w' :=
  ⟨fun n => (same'.layer n).trans (same.layer n), fun n => (same'.origin n).trans (same.origin n)⟩

theorem setCache {c : Cache ι α} : w.SameStack (w.setCache n c) where
  layer k := by
    rw [Network.setCache, layer?_modifyLayer]
    split
    · rw [Option.map_map]
      rfl
    · rfl
  origin k := origin?_modifyLayer

theorem record {name : String} {call : Call ι α} : w.SameStack (w.record name call) :=
  ⟨fun _ => rfl, fun _ => rfl⟩

theorem below? (same : w.SameStack w') : w'.below? n = w.below? n := by
  have eq := congrArg (Option.map Prod.fst) (same.layer n)
  rwa [Option.map_map, Option.map_map] at eq

theorem exists_layer (same : w.SameStack w') (here : w'.layer? n = some l) :
    ∃ l₀, w.layer? n = some l₀ ∧ l₀.below = l.below ∧ l₀.retired = l.retired := by
  have eq := same.layer n
  rw [here] at eq
  obtain ⟨l₀, here₀, eq⟩ := Option.map_eq_some_iff.1 eq.symm
  exact ⟨l₀, here₀, (Prod.mk.inj eq).1, (Prod.mk.inj eq).2⟩

theorem rests (same : w.SameStack w') (rests : w.Rests n m o) : w'.Rests n m o :=
  rests.congr (fun _ => same.below?) same.origin

theorem answers [DecidableEq ι] (same : w.SameStack w') :
    (w.answers agenda n).Within (w'.answers agenda n) :=
  answers_congr (fun _ => same.below?) same.origin

end SameStack

variable [DecidableEq ι]

/-- What a read keeps of the network that it began in. -/
def Steady (w₀ : Network ι α) (agenda : List (Errand ι α)) (w : Network ι α) : Prop :=
  w₀.SameStack w ∧ w.InStep agenda

theorem steady_record {name : String} {call : Call ι α} (steady : w₀.Steady agenda w) :
    w₀.Steady agenda (w.record name call) :=
  ⟨steady.1.trans .record, steady.2.congr rfl rfl⟩

/-- Putting back a cache that only holds right answers keeps the network in step. -/
theorem steady_store {c : Cache ι α} {ok : β → Prop} {r : Except Fault β × Cache ι α × Network ι α}
    (served : Cache.Served (w₀.answers agenda n) (w₀.Steady agenda) c ok r) :
    w₀.Steady agenda (store n r).2 := by
  obtain ⟨same, inStep⟩ := served.inv
  refine ⟨same.trans .setCache, ?_⟩
  refine inStep.wired.modifyLayer (fun _ => rfl) (fun _ => rfl) (fun _ _ stays => stays) ?_
  intro k l here stays
  split
  · rename_i eq
    subst eq
    exact served.stocked.mono same.answers
  · exact inStep.stocked k l here stays

theorem identify_source {depth : Nat} {v : α} {id : ι} (rests : w.Rests n m o)
    (named : (source depth n).identify w v = some id) : o.shelf.identify v = some id := by
  induction depth generalizing n with
  | zero => cases named
  | succ depth ih =>
    rw [source] at named
    dsimp only at named
    rcases at_n : w.node? n with _ | ⟨o' | l | _, r⟩
    all_goals rw [at_n] at named
    · cases named
    · have here : w.origin? n = some o' := by
        rw [origin?_eq, at_n]
        rfl
      cases rests with
      | here at_n' =>
        cases here.symm.trans at_n'
        exact named
      | above under =>
        obtain ⟨l, layer, -⟩ := Option.map_eq_some_iff.1 under
        rw [origin?_eq_none layer] at here
        cases here
    · refine ih (rests.inv ?_) named
      rw [layer?_eq, at_n]
      rfl
    · cases named

/-- What is right at a node is right at the cache above it. -/
theorem answers_over (under : w.below? n = some b) :
    (w.answers agenda b).Looser (w.answers agenda n) := by
  have shelf : ∀ m o, w.Rests n m o → w.Rests b m o ∧
      (o.shelf.answers fun ch => w.Pending agenda ch b).Looser
        (o.shelf.answers fun ch => w.Pending agenda ch n) := by
    intro m o rests
    refine ⟨?_, Shelf.answers_looser fun ch pending => .pass under pending⟩
    obtain ⟨l, here, rfl⟩ := Option.map_eq_some_iff.1 under
    exact rests.inv here
  refine ⟨fun k size m o rests => ?_, fun p v item m o rests => ?_, fun id v? named m o rests => ?_⟩
  · exact (shelf m o rests).2.size k (size m o (shelf m o rests).1)
  · exact (shelf m o rests).2.item p v (item m o (shelf m o rests).1)
  · exact (shelf m o rests).2.named id v? (named m o (shelf m o rests).1)

/-- What the node below a cache tells is right for the cache. -/
theorem truthful_over (lawful : w₀.Lawful) {depth : Nat} (under : w₀.below? n = some b)
    (truthful : (source depth b).Truthful (w₀.answers agenda b) (w₀.Steady agenda)) :
    (source depth b).Truthful (w₀.answers agenda n) (w₀.Steady agenda) where
  size w steady := by
    obtain ⟨steady', told⟩ := truthful.size w steady
    exact ⟨steady', fun k eq => (answers_over under).size k (told k eq)⟩
  range start length w steady := by
    obtain ⟨steady', told⟩ := truthful.range start length w steady
    exact ⟨steady', fun vs eq whole i v at_i =>
      (answers_over under).item _ v (told vs eq whole i v at_i)⟩
  byId id w steady := by
    obtain ⟨steady', told⟩ := truthful.byId id w steady
    exact ⟨steady', fun v? eq => (answers_over under).named id v? (told v? eq)⟩
  identify w steady p v id item named m o rests := by
    obtain ⟨l, here, rfl⟩ := Option.map_eq_some_iff.1 under
    have named' := identify_source (steady.1.rests (rests.inv here)) named
    exact (lawful m o rests.origin?).distinct.identify_answers (item m o rests) named'

/-! ## Shelves -/

omit [DecidableEq ι] in
theorem askOrigin_spec {call : Call ι α} {answer : Except Fault β} {b : β}
    (told : (w.askOrigin o call answer).1 = .ok b) : answer = .ok b := by
  unfold askOrigin at told
  dsimp only at told
  split at told
  · cases told
  · exact told

/-- A shelf answers right. -/
theorem right_of_origin (here : w₀.origin? n = some o) :
    (o.shelf.answers fun ch => w₀.Pending agenda ch n).Looser (w₀.answers agenda n) := by
  have only : ∀ m o', w₀.Rests n m o' → o' = o := by
    intro m o' rests
    cases rests with
    | here at_n => exact Option.some.inj (at_n.symm.trans here)
    | above under _ =>
      obtain ⟨l, layer, -⟩ := Option.map_eq_some_iff.1 under
      rw [origin?_eq_none layer] at here
      cases here
  refine ⟨fun k size m o' rests => ?_, fun p v item m o' rests => ?_,
    fun id v? named m o' rests => ?_⟩
  · exact only m o' rests ▸ size
  · exact only m o' rests ▸ item
  · exact only m o' rests ▸ named

theorem originSize_right (honest : o.trouble.Honest) {pending : Change ι → Prop} {k : Nat}
    (told : (w.originSize o).1 = .ok k) : (o.shelf.answers pending).size k := by
  have eq := askOrigin_spec told
  rw [honest.size] at eq
  exact Or.inr (Except.ok.inj eq).symm

theorem originRange_right (honest : o.trouble.Honest) {pending : Change ι → Prop}
    {start length : Nat} {vs : List α} (told : (w.originRange o start length).1 = .ok vs)
    (whole : vs.length = length) : (o.shelf.answers pending).run start vs := by
  have eq := askOrigin_spec told
  cases brought : o.shelf.range start length with
  | error e =>
    rw [brought] at eq
    cases eq
  | ok ws =>
    rw [brought] at eq
    cases eq
    rw [honest.range ws (whole.trans (Shelf.length_range brought).symm)]
    exact Shelf.range_answers brought

theorem originById_right (honest : o.trouble.Honest) {pending : Change ι → Prop} {id : ι}
    {v? : Option α} (told : (w.originById o id).1 = .ok v?) :
    (o.shelf.answers pending).named id v? := by
  have eq := askOrigin_spec told
  rw [honest.byId] at eq
  exact Or.inr (Or.inl (Except.ok.inj eq).symm)

/-! ## Nodes -/

/-- If the nodes that stay are truthful, so is what a cache reads from, and what the
cache holds is right. -/
theorem truthful_below (lawful : w₀.Lawful) {depth : Nat} {r : Registry Subscriber}
    (truthful : ∀ b, w₀.Stays b →
      (source depth b).Truthful (w₀.answers agenda b) (w₀.Steady agenda))
    (stays : w₀.Stays n) (steady : w₀.Steady agenda w) (at_n : w.node? n = some ⟨.layer l, r⟩) :
    (source depth l.below).Truthful (w₀.answers agenda n) (w₀.Steady agenda) ∧
      l.cache.Stocked (w₀.answers agenda n) := by
  have here : w.layer? n = some l := by
    rw [layer?_eq, at_n]
    rfl
  obtain ⟨same, inStep⟩ := steady
  obtain ⟨l₀, here₀, below, retired⟩ := same.exists_layer here
  have stays' : l.retired = false := retired ▸ stays l₀ here₀
  refine ⟨truthful_over lawful (below ▸ below?_eq here₀) (truthful l.below ?_), ?_⟩
  · intro lb₀ here_b₀
    obtain ⟨lb, here_b, -, retired_b⟩ := same.symm.exists_layer here_b₀
    exact retired_b ▸ inStep.wired.below_stays here stays' lb here_b
  · exact (inStep.stocked n l here stays').mono same.symm.answers

omit [DecidableEq ι] in
theorem SameStack.origin_of_node (same : w₀.SameStack w) {r : Registry Subscriber}
    (at_n : w.node? n = some ⟨.origin o, r⟩) : w₀.origin? n = some o := by
  rw [← same.origin n, origin?_eq, at_n]
  rfl

section

variable (lawful : w₀.Lawful) {depth : Nat}
  (truthful : ∀ b, w₀.Stays b →
    (source depth b).Truthful (w₀.answers agenda b) (w₀.Steady agenda))
  (stays : w₀.Stays n) (steady : w₀.Steady agenda w)

include lawful truthful stays steady

theorem size_told : w₀.Steady agenda ((source (depth + 1) n).size w).2 ∧
    ∀ k, ((source (depth + 1) n).size w).1 = .ok k → (w₀.answers agenda n).size k := by
  rw [source]
  dsimp only
  rcases at_n : w.node? n with _ | ⟨o | l | _, r⟩
  · exact ⟨steady, fun k eq => by cases eq⟩
  · have here := steady.1.origin_of_node at_n
    exact ⟨steady_record steady, fun k told => (right_of_origin here).size k
      (originSize_right (lawful n o here).honest told)⟩
  · obtain ⟨below, stocked⟩ := truthful_below lawful truthful stays steady at_n
    have served := Cache.getSize_served below stocked steady
    exact ⟨steady_store served, served.answer⟩
  · exact ⟨steady, fun k eq => by cases eq⟩

theorem range_told (start length : Nat) :
    w₀.Steady agenda ((source (depth + 1) n).range start length w).2 ∧
      ∀ vs, ((source (depth + 1) n).range start length w).1 = .ok vs → vs.length = length →
        (w₀.answers agenda n).run start vs := by
  rw [source]
  dsimp only
  rcases at_n : w.node? n with _ | ⟨o | l | _, r⟩
  · exact ⟨steady, fun vs eq => by cases eq⟩
  · have here := steady.1.origin_of_node at_n
    exact ⟨steady_record steady, fun vs told whole i v at_i =>
      (right_of_origin here).item _ v
        (originRange_right (lawful n o here).honest told whole i v at_i)⟩
  · obtain ⟨below, stocked⟩ := truthful_below lawful truthful stays steady at_n
    have served := Cache.getRange_served below stocked steady start length
    exact ⟨steady_store served, fun vs eq _ => (served.answer vs eq).2.1⟩
  · exact ⟨steady, fun vs eq => by cases eq⟩

theorem byId_told (id : ι) : w₀.Steady agenda ((source (depth + 1) n).byId id w).2 ∧
    ∀ v?, ((source (depth + 1) n).byId id w).1 = .ok v? →
      (w₀.answers agenda n).named id v? := by
  rw [source]
  dsimp only
  rcases at_n : w.node? n with _ | ⟨o | l | _, r⟩
  · exact ⟨steady, fun v? eq => by cases eq⟩
  · have here := steady.1.origin_of_node at_n
    exact ⟨steady_record steady, fun v? told => (right_of_origin here).named id v?
      (originById_right (lawful n o here).honest told)⟩
  · obtain ⟨below, stocked⟩ := truthful_below lawful truthful stays steady at_n
    have served := Cache.getById_served below stocked steady id
    exact ⟨steady_store served, served.answer⟩
  · exact ⟨steady, fun v? eq => by cases eq⟩

end

/-- A node gives right answers, and reading from it keeps the network in step. -/
theorem source_truthful (lawful : w₀.Lawful) (depth : Nat) (stays : w₀.Stays n) :
    (source depth n).Truthful (w₀.answers agenda n) (w₀.Steady agenda) := by
  induction depth generalizing n with
  | zero =>
    exact ⟨fun w steady => ⟨steady, fun k eq => by cases eq⟩,
      fun start length w steady => ⟨steady, fun vs eq => by cases eq⟩,
      fun id w steady => ⟨steady, fun v? eq => by cases eq⟩,
      fun w steady p v id item named => by cases named⟩
  | succ depth ih =>
    refine ⟨fun w steady => size_told lawful (fun b => ih) stays steady,
      fun start length w steady => range_told lawful (fun b => ih) stays steady start length,
      fun id w steady => byId_told lawful (fun b => ih) stays steady id,
      fun w steady p v id item named m o rests => ?_⟩
    have named' := identify_source (steady.1.rests rests) named
    exact (lawful m o rests.origin?).distinct.identify_answers (item m o rests) named'

/-! ## Reads of a whole network -/

theorem InStep.steady (inStep : w.InStep agenda) : w.Steady agenda w := ⟨.refl, inStep⟩

theorem InStep.size (inStep : w.InStep agenda) (lawful : w.Lawful) (stays : w.Stays n) :
    ((w.sourceAt n).size w).2.InStep agenda :=
  ((source_truthful lawful _ stays).size w inStep.steady).1.2

theorem InStep.range (inStep : w.InStep agenda) (lawful : w.Lawful) (stays : w.Stays n)
    (start length : Nat) : ((w.sourceAt n).range start length w).2.InStep agenda :=
  ((source_truthful lawful _ stays).range start length w inStep.steady).1.2

theorem InStep.byId (inStep : w.InStep agenda) (lawful : w.Lawful) (stays : w.Stays n) (id : ι) :
    ((w.sourceAt n).byId id w).2.InStep agenda :=
  ((source_truthful lawful _ stays).byId id w inStep.steady).1.2

theorem InStep.readAt (inStep : w.InStep agenda) (lawful : w.Lawful) (stays : w.Stays n)
    (position : Nat) : (w.readAt n position).2.InStep agenda := by
  unfold Network.readAt
  split
  · exact (steady_record inStep.steady).2
  · rename_i l r at_n
    obtain ⟨truthful, stocked⟩ :=
      truthful_below lawful (fun b => source_truthful lawful w.depth) stays inStep.steady at_n
    exact (steady_store (Cache.get_served truthful stocked inStep.steady position)).2
  · exact inStep

end Network

end ReadThrough
