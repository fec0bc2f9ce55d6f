import Mathlib.Order.Bounds.Defs
import ReadThrough.Proofs.Recency.Refinement

/-!
# Slots of a recency list

A slot that was made is kept until the list is cleared: it holds a value, or waits to be handed
out again.  A new one is made only where none is waiting, and so there are as many slots as there
were values at some moment, and never more.

* `Recency.population` is how many slots hold a value.
* `Recency.populations` are these numbers at all moments since the list was last cleared, and
  `Recency.isGreatest_populations` that the greatest of them is the number of slots.
* `Mirrors.size_slots_after_le`: operations need room for the values they bring, at most.
-/

namespace ReadThrough

variable {α : Type}

namespace Recency

/-- How many slots hold a value. -/
def population (l : Recency α) : Nat := (List.range l.slots.size).countP l.live

/-- How many values an empty list holds at the moments of a run, from the last time on that it is
cleared. -/
def populations (ops : List (Op α)) : Set Nat :=
  {n | ∃ before since, ops = before ++ since ∧ Op.clear ∉ since ∧
    ((∅ : Recency α).after before).population = n}

/-- The operation brings a value. -/
def Op.isPush : Op α → Bool
  | .push _ => true
  | _ => false

theorem after_append (l : Recency α) (ops ops' : List (Op α)) :
    l.after (ops ++ ops') = (l.after ops).after ops' :=
  List.foldl_append

theorem after_concat (l : Recency α) (ops : List (Op α)) (op : Op α) :
    l.after (ops ++ [op]) = ((l.after ops).step op).2 :=
  l.after_append ops [op]

end Recency

/-! ## Numbers that were made -/

namespace Roster

variable {r : Roster α} {op : Recency.Op α}

theorem slots_eq (r : Roster α) : r.slots = r.entries.length + r.freed.length := by
  simpa using r.issued.length_eq.symm

/-- Numbers are made only where none is left, and kept until all values leave. -/
theorem slots_step (r : Roster α) (op : Recency.Op α) :
    (r.step op).2.slots = r.slots ∨
      (r.step op).2.freed = [] ∧ (r.slots ≤ (r.step op).2.slots ∨ op = .clear) := by
  have erased (h : Handle) : (r.erase h).2.slots = r.slots := by
    unfold erase
    split <;> rfl
  cases op with
  | push a =>
    change max r.slots (r.next + 1) = r.slots ∨
      r.freed.tail = [] ∧ (r.slots ≤ max r.slots (r.next + 1) ∨ _)
    unfold next
    cases free : r.freed with
    | nil => exact Or.inr ⟨rfl, Or.inl (Nat.le_max_left _ _)⟩
    | cons h freed =>
      have made : h < r.slots := (mem_freed_iff.1 (free ▸ List.mem_cons_self)).1
      exact Or.inl (Nat.max_eq_left made)
  | erase h => exact Or.inl (erased h)
  | dropOldest =>
    change r.dropOldest.2.slots = r.slots ∨ _
    unfold dropOldest
    cases r.oldest? with
    | none => exact Or.inl rfl
    | some h => exact Or.inl (erased h)
  | clear => exact Or.inr ⟨rfl, Or.inr rfl⟩
  | _ => exact Or.inl rfl

theorem length_step_le (r : Roster α) (op : Recency.Op α) :
    (r.step op).2.entries.length ≤ r.entries.length + if op.isPush then 1 else 0 := by
  have erased (h : Handle) : (r.erase h).2.entries.length ≤ r.entries.length := by
    rw [entries_erase]
    exact List.length_filter_le _ _
  cases op with
  | push a => exact Nat.le_refl _
  | promote h =>
    have before := r.slots_eq
    have after : r.slots = (r.promote h).entries.length + r.freed.length := (r.promote h).slots_eq
    change (r.promote h).entries.length ≤ _
    omega
  | erase h => exact erased h
  | dropOldest =>
    change r.dropOldest.2.entries.length ≤ r.entries.length
    unfold dropOldest
    cases r.oldest? with
    | none => exact Nat.le_refl _
    | some h => exact erased h
  | set h a => exact Nat.le_of_eq (List.length_map _)
  | modify h f => exact Nat.le_of_eq (List.length_map _)
  | clear => exact Nat.zero_le _
  | _ => exact Nat.le_refl _

theorem length_after_le (r : Roster α) (ops : List (Recency.Op α)) :
    (r.after ops).entries.length ≤ r.entries.length + ops.countP Recency.Op.isPush := by
  induction ops generalizing r with
  | nil => exact Nat.le_refl _
  | cons op ops ih =>
    have first := r.length_step_le op
    have rest : ((r.step op).2.after ops).entries.length ≤ _ := ih (r.step op).2
    rw [List.countP_cons]
    change ((r.step op).2.after ops).entries.length ≤ _
    omega

/-- Without a new start no number is lost. -/
theorem le_slots_after {ops : List (Recency.Op α)} (kept : .clear ∉ ops) :
    r.slots ≤ (r.after ops).slots := by
  induction ops generalizing r with
  | nil => exact Nat.le_refl _
  | cons op ops ih =>
    have other : op ≠ .clear := fun eq => kept (eq ▸ List.mem_cons_self)
    have step : r.slots ≤ (r.step op).2.slots := by
      rcases r.slots_step op with same | ⟨-, grown | cleared⟩
      · exact Nat.le_of_eq same.symm
      · exact grown
      · exact absurd cleared other
    exact Nat.le_trans step (ih fun mem => kept (List.mem_cons_of_mem op mem))

/-- Where numbers have to be made, there are as many as there are values then. -/
theorem slots_after_le (r : Roster α) (ops : List (Recency.Op α)) :
    (r.after ops).slots ≤
      max r.slots (r.entries.length + ops.countP Recency.Op.isPush) := by
  induction ops generalizing r with
  | nil => exact Nat.le_max_left _ _
  | cons op ops ih =>
    have rest : ((r.step op).2.after ops).slots ≤ _ := ih (r.step op).2
    have brought := r.length_step_le op
    have step : (r.step op).2.slots = r.slots ∨
        (r.step op).2.slots = (r.step op).2.entries.length := by
      rcases r.slots_step op with same | ⟨none, -⟩
      · exact Or.inl same
      · have whole := (r.step op).2.slots_eq
        rw [none] at whole
        exact Or.inr whole
    rw [List.countP_cons]
    change ((r.step op).2.after ops).slots ≤ _
    omega

end Roster

namespace Recency

/-- A list with its free slots stands for a roster. -/
theorem Lists.exists_mirrors {l : Recency α} {es : List (Handle × α)} (lists : l.Lists es) :
    ∃ r : Roster α, l.Mirrors r := by
  have issued : (es.map Prod.fst ++ l.free).Perm (List.range l.slots.size) := by
    have apart : ∀ h ∈ es.map Prod.fst, ∀ k ∈ l.free, h ≠ k := fun h mem k free eq =>
      ((lists.mem_free k).1 free).2 (eq ▸ mem)
    have nodup := List.nodup_append.2 ⟨lists.nodup, lists.free_nodup, apart⟩
    refine (List.perm_ext_iff_of_nodup nodup List.nodup_range).2 fun h => ?_
    rw [List.mem_append, List.mem_range, lists.mem_free]
    constructor
    · rintro (mem | free)
      · exact lists.lt_size mem
      · exact free.1
    · intro made
      by_cases mem : h ∈ es.map Prod.fst
      · exact Or.inl mem
      · exact Or.inr ⟨made, mem⟩
  exact ⟨⟨es, l.free, l.slots.size, issued⟩, lists, rfl, rfl⟩

namespace Mirrors

variable {l : Recency α} {r : Roster α}

theorem population_eq (mirrors : l.Mirrors r) : l.population = r.entries.length := by
  have same : ((List.range l.slots.size).filter l.live).Perm (r.entries.map Prod.fst) := by
    refine (List.perm_ext_iff_of_nodup (List.nodup_range.filter _) r.nodup).2 fun h => ?_
    rw [List.mem_filter, List.mem_range, mirrors.live_eq_true_iff]
    exact and_iff_right_of_imp mirrors.lists.lt_size
  rw [population, List.countP_eq_length_filter, same.length_eq, List.length_map]

theorem size_eq (mirrors : l.Mirrors r) : l.size = l.population :=
  mirrors.lists.size.trans mirrors.population_eq.symm

/-- A slot holds a value or is free. -/
theorem size_slots_eq (mirrors : l.Mirrors r) :
    l.slots.size = l.population + l.free.length := by
  rw [mirrors.slots, mirrors.population_eq, mirrors.free]
  exact r.slots_eq

theorem size_after_le (mirrors : l.Mirrors r) (ops : List (Op α)) :
    (l.after ops).size ≤ l.size + ops.countP Op.isPush := by
  rw [(mirrors.after ops).lists.size, mirrors.lists.size]
  exact r.length_after_le ops

/-- Operations make no more slots than they need for what they bring. -/
theorem size_slots_after_le (mirrors : l.Mirrors r) (ops : List (Op α)) :
    (l.after ops).slots.size ≤ max l.slots.size (l.size + ops.countP Op.isPush) := by
  rw [(mirrors.after ops).slots, mirrors.slots, mirrors.size_eq, mirrors.population_eq]
  exact r.slots_after_le ops

end Mirrors

/-- There are as many slots as values at the moment with the most of them. -/
theorem isGreatest_populations (ops : List (Op α)) :
    IsGreatest (populations ops) ((∅ : Recency α).after ops).slots.size := by
  have stands (ops : List (Op α)) :
      ((∅ : Recency α).after ops).Mirrors ((∅ : Roster α).after ops) := mirrors_empty.after ops
  constructor
  · induction ops using List.reverseRecOn with
    | nil => exact ⟨[], [], rfl, List.not_mem_nil, rfl⟩
    | append_singleton ops op ih =>
      by_cases full : ((∅ : Recency α).after (ops ++ [op])).free = []
      · -- every slot holds a value now
        have whole := (stands (ops ++ [op])).size_slots_eq
        rw [full, List.length_nil, Nat.add_zero] at whole
        exact ⟨ops ++ [op], [], (List.append_nil _).symm, List.not_mem_nil, whole.symm⟩
      · obtain ⟨before, since, rfl, kept, most⟩ := ih
        rw [after_concat] at full ⊢
        have step := ((stands (before ++ since)).step op).2
        rw [step.free] at full
        have same := (((∅ : Roster α).after (before ++ since)).slots_step op).resolve_right
          fun emptied => full emptied.1
        refine ⟨before, since ++ [op], List.append_assoc _ _ _, fun mem => ?_, ?_⟩
        · rcases List.mem_append.1 mem with earlier | now
          · exact kept earlier
          · cases List.mem_singleton.1 now
            exact full rfl
        · rw [most, step.slots, same, (stands (before ++ since)).slots]
  · rintro n ⟨before, since, rfl, kept, rfl⟩
    have filled := (stands before).size_slots_eq
    have grown : ((∅ : Roster α).after before).slots ≤ _ := Roster.le_slots_after kept
    have whole : ((∅ : Roster α).after before).after since =
        (∅ : Roster α).after (before ++ since) := List.foldl_append.symm
    rw [whole, ← (stands before).slots, ← (stands (before ++ since)).slots] at grown
    omega

/-- The third value takes the slot of the first one. -/
example : ((∅ : Recency Nat).after [.push 7, .push 8, .erase 0, .push 9]).slots.size = 2 := by
  decide

end Recency

end ReadThrough
