import ReadThrough.Proofs.Bounded.Refinement

/-!
# Where the pairs went

An arbiter may hold a cache above its capacity for as long as it likes, and taking the arbiter
away does not make the cache smaller.  So how many pairs there are cannot be told from the
capacity alone; but none gets lost, and none is held without an arbiter's word.

* `Bounded.total` adds up what operations do, each in the state that it finds; what can be
  counted are the functions from `Bounded.creates` to `Bounded.takes`.
* `Bounded.Balanced` are the accounts of a run.  Those of one operation are
  `Mirrors.balanced_step`, and `Balanced.cons` puts them together.
-/

namespace ReadThrough

variable {κ ν τ : Type}

/-! ## What is counted -/

namespace Insertion

/-- How many times an arbiter was asked. -/
def consults : Insertion κ ν → Nat
  | ⟨_, some _, _⟩ => 1
  | _ => 0

/-- How many times an arbiter said to retain a pair. -/
def retains : Insertion κ ν → Nat
  | ⟨_, some (_, .retain), _⟩ => 1
  | _ => 0

/-- How many pairs went with nobody asked. -/
def ousts : Insertion κ ν → Nat
  | ⟨_, none, true⟩ => 1
  | _ => 0

end Insertion

namespace Bounded

open Insertion (consults retains ousts)

variable [DecidableEq κ]

/-- How many keys are stored that were not there. -/
def creates (b : Bounded κ ν τ) : Op κ ν τ → Nat
  | .insert k _ => if b.contains k then 0 else 1
  | _ => 0

/-- How many keys are stored that were not there and had no room. -/
def crowds (b : Bounded κ ν τ) (op : Op κ ν τ) : Nat :=
  if b.capacity ≤ b.size then b.creates op else 0

/-- What an operation counts for, if only insertions count. -/
def inserting (count : Insertion κ ν → Nat) (b : Bounded κ ν τ) (op : Op κ ν τ) : Nat :=
  match (b.step op).1 with
  | .stored insertion => count insertion
  | _ => 0

/-- How many pairs the caller takes out. -/
def takes (b : Bounded κ ν τ) : Op κ ν τ → Nat
  | .erase k => (b.erase k).1.toList.length
  | .dropOldest => b.dropOldest.1.toList.length
  | .clear => b.size
  | _ => 0

/-- What operations come to, each counted in the state that it finds. -/
def total (count : Bounded κ ν τ → Op κ ν τ → Nat) : Bounded κ ν τ → List (Op κ ν τ) → Nat
  | _, [] => 0
  | b, op :: ops => count b op + total count (b.step op).2 ops

/-- The accounts of operations on `b`. -/
structure Balanced (b : Bounded κ ν τ) (ops : List (Op κ ν τ)) : Prop where
  /-- A pair that was created is there, was evicted or was taken out. -/
  entries : (b.after ops).size + (b.after ops).evictions + total takes b ops =
    b.size + b.evictions + total creates b ops
  /-- Each new key that finds no room costs one nomination. -/
  nominations :
    total (inserting consults) b ops + total (inserting ousts) b ops = total crowds b ops
  /-- Above its capacity the cache holds what an arbiter retained. -/
  surplus : (b.after ops).size ≤ max b.capacity b.size + total (inserting retains) b ops

end Bounded

/-! ## One insertion -/

variable [DecidableEq κ]

/-- What inserting a pair does to the accounts, where `created` counts the pair if its key is
new. -/
theorem Lineup.Inserts.balance {l : Lineup κ ν τ} {k : κ} {v : ν}
    {r : Insertion κ ν × Lineup κ ν τ} (inserts : l.Inserts k v r) {created : Nat}
    (new : created = if (l.value? k).isSome then 0 else 1) :
    r.2.size + r.2.evictions = l.size + l.evictions + created ∧
      r.1.consults + r.1.ousts = (if l.capacity ≤ l.size then created else 0) ∧
      r.2.size ≤ max l.capacity l.size + r.1.retains := by
  have one (absent : l.value? k = none) : created = 1 := by rwa [absent] at new
  have longer (absent : l.value? k = none) : (l.lead k v).size = l.size + 1 :=
    size_lead_of_absent absent
  -- the last pair goes, with or without an arbiter's word
  have exchanged (absent : l.value? k = none) (full : l.capacity ≤ l.size) :
      (l.lead k v).evict.size + (l.evictions + 1) = l.size + l.evictions + created ∧
        1 = (if l.capacity ≤ l.size then created else 0) ∧
        (l.lead k v).evict.size ≤ max l.capacity l.size := by
    rw [one absent, if_pos full, size_evict_lead absent]
    exact ⟨rfl, rfl, Nat.le_max_right _ _⟩
  cases inserts with
  | refresh here =>
    have none : created = 0 := by rwa [here] at new
    rw [none, size_lead here]
    exact ⟨rfl, (ite_self 0).symm, Nat.le_max_right _ _⟩
  | join absent room =>
    rw [one absent, longer absent, if_neg (Nat.not_le.2 room)]
    exact ⟨Nat.add_right_comm _ _ _, rfl, Nat.le_trans room (Nat.le_max_left _ _)⟩
  | oust absent full => exact exchanged absent full
  | release absent full => exact exchanged absent full
  | retain absent full =>
    rw [one absent, if_pos full]
    refine ⟨?_, rfl, ?_⟩
    · change (l.lead k v).size + l.evictions = _
      rw [longer absent]
      exact Nat.add_right_comm _ _ _
    · change (l.lead k v).size ≤ _
      rw [longer absent]
      exact Nat.succ_le_succ (Nat.le_max_right _ _)

namespace Bounded

open Insertion (consults retains ousts)

variable {b : Bounded κ ν τ} {l : Lineup κ ν τ} {op : Op κ ν τ} {ops : List (Op κ ν τ)}

theorem balanced_nil (b : Bounded κ ν τ) : Balanced b [] where
  entries := rfl
  nominations := rfl
  surplus := Nat.le_max_right _ _

/-- The accounts of an operation and of those after it add up. -/
theorem Balanced.cons (first : Balanced b [op]) (rest : Balanced (b.step op).2 ops)
    (capacity : (b.step op).2.capacity = b.capacity) : Balanced b (op :: ops) where
  entries := by
    have one : (b.step op).2.size + (b.step op).2.evictions + b.takes op =
        b.size + b.evictions + b.creates op := first.entries
    have others := rest.entries
    simp only [total]
    change ((b.step op).2.after ops).size + ((b.step op).2.after ops).evictions + _ = _
    omega
  nominations := by
    have one : inserting consults b op + inserting ousts b op = b.crowds op :=
      first.nominations
    have others := rest.nominations
    simp only [total]
    omega
  surplus := by
    have one : (b.step op).2.size ≤ max b.capacity b.size + inserting retains b op :=
      first.surplus
    have others := rest.surplus
    rw [capacity] at others
    simp only [total]
    change ((b.step op).2.after ops).size ≤ _
    omega

namespace Mirrors

/-- The accounts of one operation can be read off the list. -/
theorem balanced_one (mirrors : Mirrors b l)
    (entries : (l.step op).2.size + (l.step op).2.evictions + b.takes op =
      l.size + l.evictions + b.creates op)
    (nominations : inserting consults b op + inserting ousts b op = b.crowds op)
    (surplus : (l.step op).2.size ≤ max l.capacity l.size + inserting retains b op) :
    Balanced b [op] := by
  have stepped : Mirrors (b.after [op]) (l.step op).2 := (mirrors.step op).2
  refine ⟨?_, nominations, ?_⟩
  · rw [stepped.size_eq, stepped.evictions, mirrors.size_eq, mirrors.evictions]
    exact entries
  · rw [stepped.size_eq, mirrors.size_eq, mirrors.capacity]
    exact surplus

theorem balanced_insert (mirrors : Mirrors b l) (k : κ) (v : ν) : Balanced b [.insert k v] := by
  have outcome (count : Insertion κ ν → Nat) :
      inserting count b (.insert k v) = count (l.insert k v).1 :=
    congrArg count (mirrors.insert k v).1
  have new : b.creates (.insert k v) = if (l.value? k).isSome then 0 else 1 := by
    rw [creates, mirrors.contains_eq]
  obtain ⟨entries, nominations, surplus⟩ := (l.inserts k v).balance new
  refine mirrors.balanced_one entries ?_ ?_
  · rw [outcome, outcome, nominations, crowds, mirrors.capacity, mirrors.size_eq]
  · rw [outcome]
    exact surplus

/-- An operation that stores nothing takes out what goes. -/
theorem balanced_of_takes (mirrors : Mirrors b l) (creates : b.creates op = 0)
    (quiet : ∀ count, inserting count b op = 0)
    (evictions : (l.step op).2.evictions = l.evictions)
    (size : (l.step op).2.size + b.takes op = l.size) : Balanced b [op] := by
  refine mirrors.balanced_one ?_ ?_ ?_
  · omega
  · rw [quiet, quiet, crowds, creates, ite_self]
  · exact Nat.le_trans (by omega) (Nat.le_add_right _ _)

theorem balanced_step (mirrors : Mirrors b l) (op : Op κ ν τ) : Balanced b [op] := by
  cases op with
  | insert k v => exact mirrors.balanced_insert k v
  | get k =>
    exact mirrors.balanced_of_takes rfl (fun _ => rfl) (Lineup.evictions_touch id)
      (Lineup.size_touch id)
  | update k f =>
    exact mirrors.balanced_of_takes rfl (fun _ => rfl) (Lineup.evictions_touch f)
      (Lineup.size_touch f)
  | erase k =>
    refine mirrors.balanced_of_takes rfl (fun _ => rfl) rfl ?_
    rw [takes, (mirrors.erase k).1]
    cases here : l.value? k with
    | none => exact congrArg List.length (Lineup.pairs_without_of_absent here)
    | some v => exact Lineup.size_without here
  | dropOldest =>
    refine mirrors.balanced_of_takes rfl (fun _ => rfl) rfl ?_
    rw [takes, mirrors.dropOldest.1]
    change l.pairs.dropLast.length + _ = l.pairs.length
    rcases List.eq_nil_or_concat l.pairs with empty | ⟨ps, p, split⟩
    · rw [empty]
      rfl
    · rw [split, List.concat_eq_append, List.dropLast_concat, List.getLast?_concat,
        List.length_append]
      rfl
  | clear =>
    exact mirrors.balanced_of_takes rfl (fun _ => rfl) rfl
      ((Nat.zero_add _).trans mirrors.size_eq)
  | install arbiter? => exact mirrors.balanced_of_takes rfl (fun _ => rfl) rfl rfl
  | _ => exact mirrors.balanced_of_takes rfl (fun _ => rfl) rfl rfl

theorem balanced (mirrors : Mirrors b l) (ops : List (Op κ ν τ)) : Balanced b ops := by
  induction ops generalizing b l with
  | nil => exact balanced_nil b
  | cons op ops ih =>
    have stepped := (mirrors.step op).2
    refine (mirrors.balanced_step op).cons (ih stepped) ?_
    rw [stepped.capacity, Lineup.capacity_step, mirrors.capacity]

end Mirrors

/-- **Nothing gets lost, and nothing is held without an arbiter's word.**  After any operations
on a new cache, with any arbiters installed, replaced and taken away in between, there are no
more pairs than the capacity and the times that an arbiter said to retain one.  As many keys
were stored that were not there as there are now, were evicted, or were taken out by the
caller.  And whenever such a key found no room, either an arbiter was asked, or a pair was
evicted with nobody asked. -/
theorem pairs_accounted {capacity : Nat} (pos : 0 < capacity) (arbiter? : Option (Arbiter κ ν τ))
    (ops : List (Op κ ν τ)) : ∃ new, ofCapacity? capacity arbiter? = some new ∧
      let b := new.after ops
      b.size ≤ capacity + new.total (inserting retains) ops ∧
      new.total creates ops = b.size + b.evictions + new.total takes ops ∧
      new.total (inserting consults) ops + new.total (inserting ousts) ops =
        new.total crowds ops := by
  refine ⟨_, if_pos pos, ?_⟩
  have balanced := (Mirrors.new capacity arbiter?).balanced ops
  refine ⟨?_, ?_, balanced.nominations⟩
  · have surplus := balanced.surplus
    rwa [show size ⟨∅, ∅, capacity, arbiter?, 0⟩ = 0 from rfl, Nat.max_zero] at surplus
  · exact (balanced.entries.trans (Nat.zero_add _)).symm

/-- An arbiter that retains the first two pairs it is shown.  It is asked three times; taking it
away leaves the cache above its capacity, and the next new key costs one pair. -/
theorem pairs_accounted_retaining :
    let arbiter : Arbiter Nat Nat Nat :=
      ⟨0, fun asked _ _ => (if asked < 2 then .retain else .evict, asked + 1)⟩
    let ops : List (Op Nat Nat Nat) :=
      [.insert 1 10, .insert 2 20, .insert 3 30, .dropOldest, .insert 3 31, .insert 1 11,
        .insert 4 40, .install none, .insert 5 50]
    0 < 2 ∧ ∃ new, ofCapacity? 2 (some arbiter) = some new ∧
      (new.after ops).toList = [(5, 50), (4, 40), (1, 11)] ∧
      3 ≤ 2 + new.total (inserting retains) ops ∧
      new.total creates ops = 3 + 2 + new.total takes ops ∧ new.total takes ops = 1 ∧
      3 + 1 = new.total crowds ops := by
  intro arbiter ops
  obtain ⟨new, made, surplus, entries, nominations⟩ :=
    pairs_accounted Nat.two_pos (some arbiter) ops
  obtain rfl : ⟨∅, ∅, 2, some arbiter, 0⟩ = new := Option.some.inj made
  have size : (after ⟨∅, ∅, 2, some arbiter, 0⟩ ops).size = 3 := by decide
  have evictions : (after ⟨∅, ∅, 2, some arbiter, 0⟩ ops).evictions = 2 := by decide
  have asked : total (inserting consults) ⟨∅, ∅, 2, some arbiter, 0⟩ ops = 3 := by decide
  have ousted : total (inserting ousts) ⟨∅, ∅, 2, some arbiter, 0⟩ ops = 1 := by decide
  rw [size] at surplus
  rw [size, evictions] at entries
  rw [asked, ousted] at nominations
  exact ⟨Nat.two_pos, _, made, by decide, surplus, entries, by decide, nominations⟩

end Bounded

end ReadThrough
