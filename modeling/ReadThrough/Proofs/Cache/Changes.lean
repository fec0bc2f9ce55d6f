import ReadThrough.Proofs.Cache.Storing
import ReadThrough.Proofs.Table.Ranges

/-!
# What a change does to a cache

Handling a change takes entries out of the list and leaves the others in their
order; it never adds any.

* `Change.drops` are the entries that leave, `Change.forgetsSize` whether the known
  size goes too.
* `Cache.entries_apply`: exactly those entries leave.
* `Stocked.apply`: what may be kept under looser standards before the change may be
  kept under the stricter ones after it, if the change drops the rest.
-/

namespace ReadThrough

variable {ι α : Type} [DecidableEq ι]

namespace Change

/-- The entry leaves a cache that handles the change. -/
def drops : Change ι → Entry ι α → Bool
  | objectAdded _, _ => false
  | objectChanged id, e => e.id = id
  | rangeChanged first last, e => e.standsWithin first last
  | objectDeleted _, _ | rangeAdded _ _, _ | rangeDeleted _ _, _ | contentsChanged, _ => true

/-- A cache that handles the change no longer knows the size. -/
def forgetsSize : Change ι → Bool
  | objectChanged _ | rangeChanged _ _ => false
  | objectAdded _ | objectDeleted _ | rangeAdded _ _ | rangeDeleted _ _ | contentsChanged => true

end Change

namespace Cache

variable {c : Cache ι α} {right right' : Answers ι α} {change : Change ι}

omit [DecidableEq ι] in
@[simp] theorem table_clear : c.clear.table = ∅ := rfl

omit [DecidableEq ι] in
@[simp] theorem size?_clear : c.clear.size? = none := rfl

theorem Stocked.clear : c.clear.Stocked right where
  table := Table.wellFormed_empty
  fits := by simp
  entries e mem := by simp at mem
  size n known := by simp at known

theorem Stocked.empty {sizing : Sizing} : (empty sizing : Cache ι α).Stocked right :=
  Stocked.clear (c := Cache.empty sizing)

@[simp] theorem apply_sizing : (c.apply change).sizing = c.sizing := by
  unfold apply
  split <;> try rfl
  split <;> rfl

theorem size?_apply :
    (c.apply change).size? = if change.forgetsSize then none else c.size? := by
  unfold apply
  split <;> try rfl
  split <;> rfl

theorem apply_wellFormed (wf : c.table.WellFormed) : (c.apply change).table.WellFormed := by
  unfold apply
  split
  · exact wf
  · rename_i id
    have removed := wf.removeId id
    split
    · rename_i e table eq
      rwa [eq] at removed
    · exact wf
  · rename_i first last
    exact (wf.removePositions first last).1
  all_goals exact Table.wellFormed_empty

/-- Exactly the entries that the change drops leave. -/
theorem entries_apply (wf : c.table.WellFormed) :
    (c.apply change).table.entries = c.table.entries.filter fun e => !change.drops e := by
  cases change with
  | objectAdded id => exact (List.filter_eq_self.2 fun e mem => rfl).symm
  | objectChanged id =>
    have rest := wf.entries_removeId id
    have keep : (c.table.entries.filter fun e => !(Change.objectChanged id).drops e) =
        c.table.entries.filter fun e => e.id ≠ id :=
      List.filter_congr fun e _ => (decide_not (p := e.id = id)).symm
    rw [keep, apply]
    split
    · rename_i e table eq
      rwa [eq] at rest
    · rename_i table eq
      rw [← rest, Table.removeId_absent (congrArg Prod.fst eq)]
  | rangeChanged first last => exact (wf.removePositions first last).2
  | objectDeleted id => simp [apply, Change.drops]
  | rangeAdded first last => simp [apply, Change.drops]
  | rangeDeleted first last => simp [apply, Change.drops]
  | contentsChanged => simp [apply, Change.drops]

theorem Stocked.apply (stocked : c.Stocked right)
    (entry : ∀ e, right.entry e → change.drops e = false → right'.entry e)
    (size : change.forgetsSize = false → ∀ n, right.size n → right'.size n) :
    (c.apply change).Stocked right' where
  table := apply_wellFormed stocked.table
  fits := by
    rw [entries_apply stocked.table, apply_sizing]
    exact Nat.le_trans (List.length_filter_le _ _) stocked.fits
  entries e mem := by
    rw [entries_apply stocked.table, List.mem_filter, Bool.not_eq_true'] at mem
    exact entry e (stocked.entries e mem.1) mem.2
  size n known := by
    rw [size?_apply] at known
    split at known
    · cases known
    · rename_i keeps
      exact size (Bool.eq_false_iff.2 keeps) n (stocked.size n known)

/-! ## Several changes -/

variable {changes : List (Change ι)} {e : Entry ι α} {n : Nat}

theorem Stocked.foldl_apply (stocked : c.Stocked right) :
    (changes.foldl Cache.apply c).Stocked right := by
  induction changes generalizing c with
  | nil => exact stocked
  | cons change changes ih =>
    exact ih (stocked.apply (fun _ entry _ => entry) fun _ _ size => size)

/-- What is kept through several changes was dropped by none. -/
theorem mem_foldl_apply (wf : c.table.WellFormed)
    (mem : e ∈ (changes.foldl Cache.apply c).table.entries) :
    e ∈ c.table.entries ∧ ∀ change ∈ changes, change.drops e = false := by
  induction changes generalizing c with
  | nil => exact ⟨mem, fun change mem => by cases mem⟩
  | cons change changes ih =>
    obtain ⟨mem', kept⟩ := ih (apply_wellFormed wf) mem
    rw [entries_apply wf, List.mem_filter, Bool.not_eq_true'] at mem'
    exact ⟨mem'.1, List.forall_mem_cons.2 ⟨mem'.2, kept⟩⟩

theorem size?_foldl_apply (known : (changes.foldl Cache.apply c).size? = some n) :
    c.size? = some n ∧ ∀ change ∈ changes, change.forgetsSize = false := by
  induction changes generalizing c with
  | nil => exact ⟨known, fun change mem => by cases mem⟩
  | cons change changes ih =>
    obtain ⟨known', keep⟩ := ih known
    rw [size?_apply] at known'
    split at known'
    · cases known'
    · rename_i keeps
      exact ⟨known', List.forall_mem_cons.2 ⟨Bool.eq_false_iff.2 keeps, keep⟩⟩

theorem Stocked.applyAll (stocked : c.Stocked right)
    (entry : ∀ e, right.entry e → (∀ change ∈ changes, change.drops e = false) → right'.entry e)
    (size : (∀ change ∈ changes, change.forgetsSize = false) →
      ∀ n, right.size n → right'.size n) : (changes.foldl Cache.apply c).Stocked right' where
  table := stocked.foldl_apply.table
  fits := stocked.foldl_apply.fits
  entries e mem := by
    obtain ⟨mem', kept⟩ := mem_foldl_apply stocked.table mem
    exact entry e (stocked.entries e mem') kept
  size n known := by
    obtain ⟨known', keep⟩ := size?_foldl_apply known
    exact size keep n (stocked.size n known')

end Cache

end ReadThrough
