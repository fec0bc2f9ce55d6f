import ReadThrough.Proofs.Bounded.Keyed
import ReadThrough.Proofs.Bounded.Lineup

/-!
# Bounded caches are lineups

Whatever is done with a bounded cache, it gives what the plain list of its pairs
would give, and its arbiter is asked what the list's arbiter would be asked.

* `Bounded.Mirrors b l`: the cache `b` stands for the list `l`.
* `Mirrors.step` keeps it, one operation at a time, with equal replies;
  `Mirrors.after` is a run of operations.
* `Bounded.refines_lineup` is the refinement from the empty cache on.
-/

namespace ReadThrough.Bounded

variable {κ ν τ : Type} [DecidableEq κ]

/-- The cache stands for the list. -/
structure Mirrors (b : Bounded κ ν τ) (l : Lineup κ ν τ) : Prop where
  wellFormed : b.WellFormed
  pairs : b.toList = l.pairs
  capacity : b.capacity = l.capacity
  arbiter? : b.arbiter? = l.arbiter?
  evictions : b.evictions = l.evictions

namespace Mirrors

variable {b : Bounded κ ν τ} {l : Lineup κ ν τ} {k : κ} {v : ν} {h : Handle}

theorem new (capacity : Nat) (arbiter? : Option (Arbiter κ ν τ)) :
    Mirrors ⟨∅, ∅, capacity, arbiter?, 0⟩ (Lineup.ofCapacity capacity arbiter?) where
  wellFormed := Keyed.wellFormed (b := ⟨∅, ∅, capacity, arbiter?, 0⟩) keyed_empty
  pairs := Recency.lists_empty.toList_eq
  capacity := rfl
  arbiter? := rfl
  evictions := rfl

/-- List and index of the cache may change to any that the list stands for. -/
theorem edit (mirrors : Mirrors b l) {order : Recency (κ × ν)} {index : Index κ Handle}
    {es : List (Handle × κ × ν)} (keyed : Keyed order index es) {m : Lineup κ ν τ}
    (pairs : es.map Prod.snd = m.pairs) (capacity : m.capacity = l.capacity)
    (arbiter? : m.arbiter? = l.arbiter?) (evictions : m.evictions = l.evictions) :
    Mirrors { b with order := order, index := index } m where
  wellFormed := Keyed.wellFormed (b := { b with order := order, index := index }) keyed
  pairs := keyed.lists.toList_eq.trans pairs
  capacity := mirrors.capacity.trans capacity.symm
  arbiter? := mirrors.arbiter?.trans arbiter?.symm
  evictions := mirrors.evictions.trans evictions.symm

/-! ## Looking -/

theorem handle?_cases (mirrors : Mirrors b l) (k : κ) :
    (b.handle? k = none ∧ l.value? k = none) ∨
      ∃ h v, b.handle? k = some h ∧ (h, k, v) ∈ b.order.entries ∧ l.value? k = some v := by
  have cases := mirrors.wellFormed.handle?_cases k
  rwa [mirrors.pairs] at cases

theorem size_eq (mirrors : Mirrors b l) : b.size = l.size := by
  rw [mirrors.wellFormed.size_eq, mirrors.pairs]
  rfl

theorem peek?_eq (mirrors : Mirrors b l) (k : κ) : b.peek? k = l.value? k := by
  unfold peek?
  rcases mirrors.handle?_cases k with ⟨absent, none⟩ | ⟨h, v, found, mem, value⟩
  · rw [absent, none]
    rfl
  · rw [found, value]
    have here : b.order.get? h = some (k, v) := mirrors.wellFormed.lists.get? mem
    simp [here]

theorem contains_eq (mirrors : Mirrors b l) (k : κ) : b.contains k = (l.value? k).isSome := by
  change (b.handle? k).isSome = _
  rcases mirrors.handle?_cases k with ⟨absent, none⟩ | ⟨h, v, found, -, value⟩
  · rw [absent, none]
    rfl
  · rw [found, value]
    rfl

/-- The last pair is the one at the end of the links. -/
theorem last_cases (mirrors : Mirrors b l) :
    (b.order.oldest? = none ∧ l.pairs = []) ∨
      ∃ es h p, b.order.entries = es ++ [(h, p)] ∧ l.pairs = es.map Prod.snd ++ [p] := by
  have pairs : b.order.entries.map Prod.snd = l.pairs := mirrors.pairs
  rcases List.eq_nil_or_concat b.order.entries with empty | ⟨es, ⟨h, p⟩, split⟩
  · left
    rw [← pairs, mirrors.wellFormed.lists.oldest, empty]
    exact ⟨rfl, rfl⟩
  · right
    rw [List.concat_eq_append] at split
    refine ⟨es, h, p, split, ?_⟩
    rw [← pairs, split, List.map_append]
    rfl

theorem oldest?_eq (mirrors : Mirrors b l) : b.oldest? = l.pairs.getLast? := by
  unfold oldest?
  rcases mirrors.last_cases with ⟨none, empty⟩ | ⟨es, h, ⟨k, v⟩, split, pairs⟩
  · rw [none, empty]
    rfl
  · have keyed : Keyed b.order b.index (es ++ [(h, k, v)]) := split ▸ mirrors.wellFormed
    obtain ⟨oldest, here, -⟩ := keyed.erase_last
    rw [oldest, pairs, List.getLast?_concat]
    exact here

/-! ## Writing -/

theorem touch (mirrors : Mirrors b l) (k : κ) (f : ν → ν) :
    Mirrors (b.touch k f) (l.touch k f) := by
  unfold Bounded.touch Lineup.touch
  rcases mirrors.handle?_cases k with ⟨absent, none⟩ | ⟨h, v, found, mem, value⟩
  · rw [absent, none]
    exact mirrors
  · rw [found, value]
    refine mirrors.edit (Keyed.touch mirrors.wellFormed mem f) ?_ rfl rfl rfl
    rw [List.map_cons, Keyed.map_filter mirrors.wellFormed mem, Lineup.pairs_lead,
      ← mirrors.pairs]
    rfl

theorem erase (mirrors : Mirrors b l) (k : κ) :
    (b.erase k).1 = l.value? k ∧ Mirrors (b.erase k).2 (l.without k) := by
  unfold Bounded.erase
  rcases mirrors.handle?_cases k with ⟨absent, none⟩ | ⟨h, v, found, mem, value⟩
  · rw [absent, none]
    exact ⟨rfl, mirrors.wellFormed, mirrors.pairs.trans (Lineup.pairs_without_of_absent none).symm,
      mirrors.capacity, mirrors.arbiter?, mirrors.evictions⟩
  · obtain ⟨erased, keyed⟩ := Keyed.erase mirrors.wellFormed mem
    rw [found, value]
    dsimp only
    rw [erased]
    refine ⟨rfl, mirrors.edit keyed ?_ rfl rfl rfl⟩
    rw [Keyed.map_filter mirrors.wellFormed mem]
    exact congrArg (List.filter _) mirrors.pairs

/-- The pair at the end leaves, and its key with it. -/
theorem eraseLast (mirrors : Mirrors b l) {es : List (Handle × κ × ν)}
    (split : b.order.entries = es ++ [(h, k, v)]) : ∃ order,
      b.order.erase h = (some (k, v), order) ∧
        Mirrors { b with order := order, index := b.index.erase k } l.dropLast := by
  have keyed : Keyed b.order b.index (es ++ [(h, k, v)]) := split ▸ mirrors.wellFormed
  have pairs : es.map Prod.snd = l.dropLast.pairs := by
    rw [Lineup.pairs_dropLast, ← mirrors.pairs, toList, Recency.toList, split, List.map_append]
    exact List.dropLast_concat.symm
  obtain ⟨-, -, erased, rest⟩ := keyed.erase_last
  exact ⟨_, Prod.ext erased rfl, mirrors.edit rest pairs rfl rfl rfl⟩

theorem dropOldest (mirrors : Mirrors b l) :
    b.dropOldest.1 = l.pairs.getLast? ∧ Mirrors b.dropOldest.2 l.dropLast := by
  unfold Bounded.dropOldest Recency.dropOldest
  rcases mirrors.last_cases with ⟨none, empty⟩ | ⟨es, h, ⟨k, v⟩, split, pairs⟩
  · rw [none, empty]
    refine ⟨rfl, mirrors.wellFormed, mirrors.pairs.trans ?_, mirrors.capacity, mirrors.arbiter?,
      mirrors.evictions⟩
    rw [Lineup.pairs_dropLast, empty]
    rfl
  · have keyed : Keyed b.order b.index (es ++ [(h, k, v)]) := split ▸ mirrors.wellFormed
    obtain ⟨order, erased, rest⟩ := mirrors.eraseLast split
    rw [keyed.erase_last.1]
    dsimp only
    rw [erased, pairs, List.getLast?_concat]
    exact ⟨rfl, rest⟩

theorem clear (mirrors : Mirrors b l) : Mirrors b.clear l.clear :=
  mirrors.edit keyed_empty rfl rfl rfl rfl

theorem install (mirrors : Mirrors b l) (arbiter? : Option (Arbiter κ ν τ)) :
    Mirrors (b.setArbiter arbiter?) (l.install arbiter?) :=
  ⟨mirrors.wellFormed, mirrors.pairs, mirrors.capacity, rfl, mirrors.evictions⟩

/-- The pair at the end goes, and is counted. -/
theorem evictAt (mirrors : Mirrors b l) {es : List (Handle × κ × ν)}
    (split : b.order.entries = es ++ [(h, k, v)]) :
    (b.evictAt h).1 = true ∧ Mirrors (b.evictAt h).2 l.evict := by
  obtain ⟨order, erased, rest⟩ := mirrors.eraseLast split
  unfold Bounded.evictAt
  rw [erased]
  exact ⟨rfl, rest.wellFormed, rest.pairs, rest.capacity, rest.arbiter?,
    congrArg (· + 1) mirrors.evictions⟩

theorem nominate (mirrors : Mirrors b l) {es : List (Handle × κ × ν)} {p : κ × ν}
    (split : b.order.entries = es ++ [(h, p)]) :
    b.nominate.1 = (l.nominate p).1 ∧ Mirrors b.nominate.2 (l.nominate p).2 := by
  have keyed : Keyed b.order b.index (es ++ [(h, p.1, p.2)]) := split ▸ mirrors.wellFormed
  obtain ⟨oldest, here, -⟩ := keyed.erase_last
  unfold Bounded.nominate Lineup.nominate
  cases known : b.arbiter? with
  | none =>
    have known' := mirrors.arbiter?.symm.trans known
    obtain ⟨evicted, rest⟩ := mirrors.evictAt split
    simp only [oldest, known']
    exact ⟨by rw [evicted], rest⟩
  | some arbiter =>
    have known' := mirrors.arbiter?.symm.trans known
    rcases judged : arbiter.judge arbiter.state p.1 p.2 with ⟨_ | _, state⟩
    · obtain ⟨evicted, rest⟩ :=
        (mirrors.install (some { arbiter with state := state })).evictAt split
      simp only [oldest, here, known', judged]
      exact ⟨by rw [evicted], rest⟩
    · simp only [oldest, here, known', judged]
      exact ⟨trivial, mirrors.install _⟩

theorem insert (mirrors : Mirrors b l) (k : κ) (v : ν) :
    (b.insert k v).1 = (l.insert k v).1 ∧ Mirrors (b.insert k v).2 (l.insert k v).2 := by
  unfold Bounded.insert Lineup.insert
  rcases mirrors.handle?_cases k with ⟨absent, none⟩ | ⟨h, old, found, -, value⟩
  · rw [absent, none]
    dsimp only
    have keyed := Keyed.push mirrors.wellFormed absent v
    have joined := mirrors.edit keyed (m := l.lead k v)
      (by rw [Lineup.pairs_lead_of_absent none]; exact congrArg (_ :: ·) mirrors.pairs) rfl rfl rfl
    rw [← joined.size_eq, ← mirrors.capacity]
    split
    · rcases joined.last_cases with ⟨-, empty⟩ | ⟨es, h, p, split, pairs⟩
      · cases empty
      · have last : (l.lead k v).pairs.getLast (List.cons_ne_nil _ _) = p := by
          simp only [pairs, List.getLast_concat]
        rw [last]
        exact joined.nominate split
    · exact ⟨rfl, joined⟩
  · have touched := mirrors.touch k fun _ => v
    rw [Lineup.touch, value] at touched
    rw [found, mirrors.peek?_eq, value]
    exact ⟨rfl, touched⟩

/-! ## Runs -/

/-- An operation gives what it gives for the list, and does to the cache what it does to
the list. -/
theorem step (mirrors : Mirrors b l) (op : Op κ ν τ) :
    (b.step op).1 = (l.step op).1 ∧ Mirrors (b.step op).2 (l.step op).2 := by
  cases op with
  | insert k v =>
    obtain ⟨reply, rest⟩ := mirrors.insert k v
    exact ⟨congrArg Reply.stored reply, rest⟩
  | get k => exact ⟨congrArg Reply.value (mirrors.peek?_eq k), mirrors.touch k id⟩
  | update k f =>
    have touched := mirrors.touch k f
    exact ⟨congrArg Reply.value ((touched.peek?_eq k).trans (Lineup.value?_touch f)), touched⟩
  | peek k => exact ⟨congrArg Reply.value (mirrors.peek?_eq k), mirrors⟩
  | contains k => exact ⟨congrArg Reply.known (mirrors.contains_eq k), mirrors⟩
  | erase k =>
    obtain ⟨reply, rest⟩ := mirrors.erase k
    exact ⟨congrArg Reply.value reply, rest⟩
  | dropOldest =>
    obtain ⟨reply, rest⟩ := mirrors.dropOldest
    exact ⟨congrArg Reply.pair reply, rest⟩
  | oldest => exact ⟨congrArg Reply.pair mirrors.oldest?_eq, mirrors⟩
  | clear => exact ⟨rfl, mirrors.clear⟩
  | install arbiter? => exact ⟨rfl, mirrors.install arbiter?⟩

theorem after (mirrors : Mirrors b l) (ops : List (Op κ ν τ)) :
    Mirrors (b.after ops) (l.after ops) := by
  induction ops generalizing b l with
  | nil => exact mirrors
  | cons op ops ih => exact ih (mirrors.step op).2

end Mirrors

/-- A cache that was empty, and its list. -/
theorem exists_mirrors {capacity : Nat} (pos : 0 < capacity)
    (arbiter? : Option (Arbiter κ ν τ)) : ∃ new, ofCapacity? capacity arbiter? = some new ∧
      ∀ ops, Mirrors (new.after ops) ((Lineup.ofCapacity capacity arbiter?).after ops) :=
  ⟨_, if_pos pos, fun ops => (Mirrors.new capacity arbiter?).after ops⟩

/-- **A bounded cache is the plain list of its pairs.**  After any operations on a new cache,
with any arbiters, its pairs are those of the list, in the same order; as many were evicted,
and the arbiter is in the same state.  Whatever is done next gives the same reply.  An inserted
pair stands in front, so it is not the one that went; an arbiter is asked only on account of a
new key, and is shown the pair that was last.  Where no arbiter was ever installed, the capacity
is kept. -/
theorem refines_lineup {capacity : Nat} (pos : 0 < capacity) (arbiter? : Option (Arbiter κ ν τ))
    (ops : List (Op κ ν τ)) : ∃ new, ofCapacity? capacity arbiter? = some new ∧
      let b := new.after ops
      let l := (Lineup.ofCapacity capacity arbiter?).after ops
      b.toList = l.pairs ∧ b.size = l.size ∧ b.evictions = l.evictions ∧
      b.arbiter? = l.arbiter? ∧
      (∀ op, (b.step op).1 = (l.step op).1) ∧
      (∀ k v, (b.insert k v).2.toList.head? = some (k, v)) ∧
      (∀ k v p verdict, (b.insert k v).1.consulted? = some (p, verdict) →
        b.contains k = false ∧ b.toList.getLast? = some p) ∧
      (arbiter? = none → (∀ op ∈ ops, op.installs = false) → b.size ≤ capacity) := by
  obtain ⟨new, made, all⟩ := exists_mirrors pos arbiter?
  refine ⟨new, made, ?_⟩
  intro b l
  have mirrors : Mirrors b l := all ops
  have pos' : 0 < l.capacity := by
    rw [Lineup.capacity_after]
    exact pos
  refine ⟨mirrors.pairs, mirrors.size_eq, mirrors.evictions, mirrors.arbiter?,
    fun op => (mirrors.step op).1, fun k v => ?_, fun k v p verdict asked => ?_,
    fun automatic silent => ?_⟩
  · rw [(mirrors.insert k v).2.pairs]
    exact (l.inserts k v).head? pos'
  · rw [(mirrors.insert k v).1] at asked
    obtain ⟨absent, last⟩ := (l.inserts k v).consulted? pos' asked
    rw [mirrors.contains_eq, mirrors.pairs, absent]
    exact ⟨rfl, last⟩
  · subst automatic
    have fits := ((Lineup.unattended_ofCapacity capacity).after silent).fits
    rw [Lineup.capacity_after] at fits
    rw [mirrors.size_eq]
    exact fits

/-- An arbiter that retains every other pair holds a cache above its capacity, and the automatic
evictions after it do not make up for that. -/
theorem refines_lineup_alternating :
    let arbiter : Arbiter Nat Nat Nat :=
      ⟨0, fun asked _ _ => (if asked % 2 = 0 then .retain else .evict, asked + 1)⟩
    let ops : List (Op Nat Nat Nat) :=
      [.insert 1 10, .insert 2 20, .get 1, .insert 3 30, .install none, .insert 4 40]
    0 < 1 ∧ ∃ new, ofCapacity? 1 (some arbiter) = some new ∧
      (new.after ops).toList = [(4, 40), (3, 30)] ∧ (new.after ops).size = 2 ∧
      (new.after ops).evictions = 2 ∧
      ((new.after ops).insert 3 31).2.toList.head? = some (3, 31) := by
  intro arbiter ops
  obtain ⟨new, made, pairs, size, evictions, -, -, front, -⟩ :=
    refines_lineup Nat.one_pos (some arbiter) ops
  exact ⟨by decide, new, made, pairs.trans (by decide), size.trans (by decide),
    evictions.trans (by decide), front 3 31⟩

end ReadThrough.Bounded
