import ReadThrough.Cache.Write
import ReadThrough.Network.Command
import ReadThrough.Proofs.Cache.Asking
import ReadThrough.Proofs.Cache.Reading

/-!
# One fetch for a read

Each cache of a pile decides for itself whether it knows the size and what it has to fetch,
and asks the one below for both.  What reaches the bottom is nevertheless no more than a
single cache would ask for: the size once, and after it the objects once.

* `Source.Frugal src tag calls inv settled`: a source that passes on no more than it is asked,
  where `settled` are the states in which no size is asked for any more.
* `Source.Frugal.through`: a cache over such a source is one again; this is where knowing the
  size above must mean that it is not asked for a second time below.
* `Cache.query_frugal`: the calls that a read through a cache makes at the bottom.
* `Source.pile`, `Source.traced`: caches over each other, over a source that keeps a record
  of the calls to it.
* `Writer.pile`, `Writer.traced`: the same for updates, which all caches hand on.
-/

namespace ReadThrough

variable {σ ρ κ ι α : Type}

/-! ## Sources that pass on no more than they are asked -/

/-- The source passes on no more than it is asked, from states with `inv`.  `calls` is the
record of a state, the latest call first, where `tag` is how calls are written down.  The size
is asked for at most once, and for a range then only once; and if the size was asked for and
answered, it will not be asked for again on the occasion of a range. -/
structure Source.Frugal (src : Source σ ι α) (tag : Call ι α → κ) (calls : σ → List κ)
    (inv settled : σ → Prop) : Prop where
  size : ∀ s, inv s → inv (src.size s).2 ∧ (calls (src.size s).2 = calls s ∨
    calls (src.size s).2 = tag .size :: calls s ∧
      ∀ size, (src.size s).1 = .ok size → settled (src.size s).2)
  range : ∀ start length s, inv s → inv (src.range start length s).2 ∧
    ∃ more : List (Call ι α), calls (src.range start length s).2 = more.map tag ++ calls s ∧
      ∃ first count, more.Sublist [.range first count, .size]
  range_settled : ∀ start length s, inv s → settled s →
    ∃ more : List (Call ι α), calls (src.range start length s).2 = more.map tag ++ calls s ∧
      ∃ first count, more.Sublist [.range first count]
  byId : ∀ id s, inv s → inv (src.byId id s).2 ∧
    ∃ more : List (Call ι α), calls (src.byId id s).2 = more.map tag ++ calls s ∧
      more.Sublist [.byId id]

namespace Source.Frugal

variable {src : Source σ ι α} {tag : Call ι α → κ} {calls : σ → List κ} {inv settled : σ → Prop}
variable {c : Cache ι α} {s s' : σ}

theorem getSize (frugal : src.Frugal tag calls inv settled) (hs : inv s) (c : Cache ι α) :
    inv (c.getSize src s).2.2 ∧ (calls (c.getSize src s).2.2 = calls s ∨
      calls (c.getSize src s).2.2 = tag .size :: calls s ∧
        ∀ size, (c.getSize src s).1 = .ok size → settled (c.getSize src s).2.2) := by
  cases known : c.size? with
  | some size =>
    rw [Cache.getSize_of_known known]
    exact ⟨hs, Or.inl rfl⟩
  | none =>
    rw [(Cache.getSize_of_unknown known).1, (Cache.getSize_of_unknown known).2]
    exact frugal.size s hs

theorem asksRange (frugal : src.Frugal tag calls inv settled) (hs : inv s)
    (asks : Cache.AsksRange src c s s') :
    inv s' ∧ ∃ more : List (Call ι α), calls s' = more.map tag ++ calls s ∧
      ∃ first count, more.Sublist [.range first count, .size] := by
  obtain ⟨hs₁, sized⟩ := frugal.getSize hs c
  rcases asks with rfl | ⟨size, start, length, told, rfl⟩
  · refine ⟨hs₁, ?_⟩
    rcases sized with same | ⟨asked, -⟩
    · exact ⟨[], same, 0, 0, List.nil_sublist _⟩
    · exact ⟨[.size], asked, 0, 0, List.sublist_cons_self _ _⟩
  · obtain ⟨hs₂, more, ranged, sub⟩ := frugal.range start length _ hs₁
    refine ⟨hs₂, ?_⟩
    rcases sized with same | ⟨asked, settles⟩
    · exact ⟨more, same ▸ ranged, sub⟩
    · obtain ⟨more, ranged, first, count, sub⟩ :=
        frugal.range_settled start length _ hs₁ (settles size told)
      refine ⟨more ++ [.size], ?_, first, count, sub.append_right [.size]⟩
      rw [ranged, asked, List.map_append, List.append_assoc]
      rfl

theorem byId_asks (frugal : src.Frugal tag calls inv settled) (hs : inv s) (id : ι)
    (asks : s' = s ∨ s' = (src.byId id s).2) :
    inv s' ∧ ∃ more : List (Call ι α), calls s' = more.map tag ++ calls s ∧
      more.Sublist [.byId id] := by
  rcases asks with rfl | rfl
  · exact ⟨hs, [], rfl, List.nil_sublist _⟩
  · exact frugal.byId id s hs

variable [DecidableEq ι]

/-- A cache over a frugal source is frugal; it is settled if it knows the size and the source
below it is settled. -/
theorem through (frugal : src.Frugal tag calls inv settled) :
    src.through.Frugal tag (fun p => calls p.2) (fun p => inv p.2)
      fun p => p.1.size?.isSome = true ∧ settled p.2 where
  size p hp := by
    obtain ⟨hp', sized⟩ := frugal.getSize hp p.1
    refine ⟨hp', sized.imp_right fun ⟨asked, settles⟩ => ⟨asked, fun size told => ?_⟩⟩
    exact ⟨Option.isSome_of_eq_some (Cache.size?_getSize told), settles size told⟩
  range start length p hp := frugal.asksRange hp (Cache.getRange_asks src start length p.1 p.2).1
  range_settled start length p hp settled := by
    obtain ⟨known, settled⟩ := settled
    obtain ⟨size, known⟩ := Option.isSome_iff_exists.1 known
    have asks := (Cache.getRange_asks src start length p.1 p.2).1
    rw [Cache.AsksRange, Cache.getSize_of_known known] at asks
    rcases asks with same | ⟨-, first, count, -, ranged⟩
    · exact ⟨[], congrArg calls same, 0, 0, List.nil_sublist _⟩
    · obtain ⟨more, asked, sub⟩ := frugal.range_settled first count p.2 hp settled
      exact ⟨more, (congrArg calls ranged).trans asked, sub⟩
  byId id p hp := frugal.byId_asks hp id (Cache.getById_asks src id p.1 p.2).1

end Source.Frugal

/-! ## Reads -/

namespace Query

/-- The calls that a read may make at the bottom, the latest first. -/
def Modest : Query ι → List (Call ι α) → Prop
  | .size, calls => calls.Sublist [.size]
  | .get _, calls | .range _ _, calls =>
    ∃ start length, calls.Sublist [.range start length, .size]
  | .byId id, calls => calls.Sublist [.byId id]

/-- The cache has all that is asked for. -/
def Cached [DecidableEq ι] (c : Cache ι α) : Query ι → Prop
  | .size => c.size?.isSome = true
  | .get position => c.coversPosition position = true
  | .range start length => ∀ k < length, c.coversPosition (start + k) = true
  | .byId id => c.coversId id = true

end Query

variable [DecidableEq ι]

/-- What a read through the cache `c` may ask the bottom: for the size at most once, and after
that for objects at most once; if the cache has all that is asked for, then for the size at
most. -/
structure Query.Warrants (q : Query ι) (c : Cache ι α) (calls : List (Call ι α)) : Prop where
  modest : q.Modest calls
  cached : q.Cached c → calls.Sublist [.size]

/-- A read through a cache over a frugal source asks the bottom no more than it may. -/
theorem Cache.query_frugal {src : Source σ ι α} {tag : Call ι α → κ} {calls : σ → List κ}
    {inv settled : σ → Prop} (frugal : src.Frugal tag calls inv settled) {s : σ} (hs : inv s)
    (q : Query ι) (c : Cache ι α) : ∃ more : List (Call ι α),
      calls (query src q c s).2.2 = more.map tag ++ calls s ∧ q.Warrants c more := by
  have size : ∃ more : List (Call ι α), calls (getSize src c s).2.2 = more.map tag ++ calls s ∧
      more.Sublist [.size] := by
    obtain ⟨-, same | ⟨asked, -⟩⟩ := frugal.getSize hs c
    · exact ⟨[], same, List.nil_sublist _⟩
    · exact ⟨[.size], asked, .refl _⟩
  -- a read that has no need to ask for a range asks what the question for the size does
  have bulk : ∀ {s' : σ} {cached : Prop}, AsksRange src c s s' →
      (cached → s' = (getSize src c s).2.2) →
      ∃ more : List (Call ι α), calls s' = more.map tag ++ calls s ∧
        (∃ start length, more.Sublist [.range start length, .size]) ∧
        (cached → more.Sublist [.size]) := by
    intro s' cached asks serves
    by_cases all : cached
    · obtain ⟨more, calls, sub⟩ := size
      rw [serves all]
      exact ⟨more, calls, ⟨0, 0, sub.trans (List.sublist_cons_self _ _)⟩, fun _ => sub⟩
    · obtain ⟨-, more, calls, sub⟩ := frugal.asksRange hs asks
      exact ⟨more, calls, sub, fun all' => absurd all' all⟩
  cases q with
  | size =>
    obtain ⟨more, calls, sub⟩ := size
    exact ⟨more, calls, sub, fun _ => sub⟩
  | get position =>
    obtain ⟨asks, serves⟩ := get_asks src position c s
    obtain ⟨more, calls, sub, served⟩ := bulk asks serves
    exact ⟨more, calls, sub, served⟩
  | range start length =>
    obtain ⟨asks, serves⟩ := getRange_asks src start length c s
    obtain ⟨more, calls, sub, served⟩ := bulk asks serves
    exact ⟨more, calls, sub, served⟩
  | byId id =>
    obtain ⟨asks, serves⟩ := getById_asks src id c s
    by_cases all : c.coversId id = true
    · exact ⟨[], congrArg calls (serves all), List.nil_sublist _, fun _ => List.nil_sublist _⟩
    · obtain ⟨-, more, calls, sub⟩ := frugal.byId_asks hs id asks
      exact ⟨more, calls, sub, fun all' => absurd all' all⟩

/-! ## Piles of caches -/

/-- The source with a record of the calls to it, the latest first. -/
def Source.traced (src : Source σ ι α) : Source (σ × List (Call ι α)) ι α where
  size s := ((src.size s.1).1, (src.size s.1).2, .size :: s.2)
  range start length s :=
    ((src.range start length s.1).1, (src.range start length s.1).2, .range start length :: s.2)
  byId id s := ((src.byId id s.1).1, (src.byId id s.1).2, .byId id :: s.2)
  identify s := src.identify s.1

/-- The states of so many caches over each other, and of what is at the bottom. -/
def Pile (σ ι α : Type) : Nat → Type
  | 0 => σ
  | height + 1 => Cache ι α × Pile σ ι α height

def Pile.bottom : {height : Nat} → Pile σ ι α height → σ
  | 0, s => s
  | _ + 1, p => bottom p.2

/-- So many caches over each other, over a source. -/
def Source.pile (src : Source σ ι α) : (height : Nat) → Source (Pile σ ι α height) ι α
  | 0 => src
  | height + 1 => (src.pile height).through

omit [DecidableEq ι] in
theorem Source.frugal_traced (src : Source σ ι α) :
    src.traced.Frugal id Prod.snd (fun _ => True) fun _ => True where
  size _ _ := ⟨trivial, Or.inr ⟨rfl, fun _ _ => trivial⟩⟩
  range start length _ _ := ⟨trivial, [.range start length], rfl, start, length,
    List.Sublist.cons_cons _ (List.nil_sublist _)⟩
  range_settled start length _ _ _ := ⟨[.range start length], rfl, start, length, .refl _⟩
  byId id _ _ := ⟨trivial, [.byId id], rfl, .refl _⟩

/-- However many caches stand over each other, they are frugal. -/
theorem Source.exists_frugal_pile (src : Source σ ι α) (height : Nat) : ∃ inv settled,
    (src.traced.pile height).Frugal id (fun p => p.bottom.2) inv settled ∧ ∀ p, inv p := by
  induction height with
  | zero => exact ⟨_, _, src.frugal_traced, fun _ => trivial⟩
  | succ height ih =>
    obtain ⟨inv, settled, frugal, all⟩ := ih
    exact ⟨_, _, frugal.through, fun p => all p.2⟩

/-- A read at the top of any pile asks the source at the bottom no more than it may. -/
theorem Cache.query_pile (src : Source σ ι α) (height : Nat) (q : Query ι) (c : Cache ι α)
    (p : Pile (σ × List (Call ι α)) ι α height) : ∃ more : List (Call ι α),
      (query (src.traced.pile height) q c p).2.2.bottom.2 = more ++ p.bottom.2 ∧
        q.Warrants c more := by
  obtain ⟨inv, settled, frugal, all⟩ := src.exists_frugal_pile height
  obtain ⟨more, calls, warrants⟩ := query_frugal frugal (all p) q c
  exact ⟨more, calls.trans (by rw [List.map_id]), warrants⟩

/-! ## Updates -/

/-- The caches of a pile, the upper ones first. -/
def Pile.caches : {height : Nat} → Pile σ ι α height → List (Cache ι α)
  | 0, _ => []
  | _ + 1, p => p.1 :: caches p.2

/-- The writer with a record of the calls to it, the latest first. -/
def Writer.traced (writer : Writer σ ρ α) : Writer (σ × List (Call ι α)) ρ α := fun u s =>
  ((writer u s.1).1, (writer u s.1).2, u.call :: s.2)

/-- So many caches over each other, over a writer. -/
def Writer.pile (writer : Writer σ ρ α) : (height : Nat) → Writer (Pile σ ι α height) ρ α
  | 0 => writer
  | height + 1 => (writer.pile height).through

omit [DecidableEq ι] in
/-- However many caches stand over each other, an update comes to the bottom as it is, and what
is told of it comes back as it is. -/
theorem Writer.pile_eq (writer : Writer σ ρ α) (height : Nat) (u : Update α)
    (p : Pile σ ι α height) :
    (writer.pile height u p).1 = (writer u p.bottom).1 ∧
      (writer.pile height u p).2.bottom = (writer u p.bottom).2 ∧
      (writer.pile height u p).2.caches = p.caches := by
  induction height with
  | zero => exact ⟨rfl, rfl, rfl⟩
  | succ height ih =>
    obtain ⟨told, bottom, caches⟩ := ih p.2
    exact ⟨told, bottom, congrArg (List.cons p.1) caches⟩

omit [DecidableEq ι] in
/-- An update at the top of any pile is one call at the bottom, and leaves all caches alone. -/
theorem Cache.update_pile (writer : Writer σ ρ α) (height : Nat) (u : Update α) (c : Cache ι α)
    (p : Pile (σ × List (Call ι α)) ι α height) :
    let updated := update (writer.traced.pile height) u c p
    updated.1 = (writer u p.bottom.1).1 ∧
      updated.2.2.bottom = ((writer u p.bottom.1).2, u.call :: p.bottom.2) ∧
      updated.2.1 = c ∧ updated.2.2.caches = p.caches := by
  obtain ⟨told, bottom, caches⟩ := writer.traced.pile_eq height u p
  exact ⟨told, bottom, rfl, caches⟩

end ReadThrough
