import ReadThrough.Proofs.Recency.Strict

/-!
# Recency lists are rosters

Whatever is done with a recency list, it gives what the plain list of its values would give, and
hands out the numbers that the plain list would hand out.

* `Recency.Mirrors l r`: the recency list `l` stands for the roster `r`.
* `Mirrors.step` keeps it, one operation at a time, with equal replies; `Mirrors.after` is a run
  of operations.
* `Mirrors.get?_step` and `Mirrors.get?_after`: a value is found at its handle until it is taken
  out.
* `Recency.refines_roster` is the refinement from the empty list on.
-/

namespace ReadThrough.Recency

variable {α : Type}

/-! ## Where nothing is -/

section

variable {l : Recency α} {h : Handle}

theorem modify_of_dead (dead : l.get? h = none) (f : α → α) : l.modify h f = l := by
  have same : (l.slots.modify h fun s => { s with value? := s.value?.map f }) = l.slots := by
    refine Array.ext_getElem? fun k => ?_
    rw [Array.getElem?_modify]
    split
    · rename_i eq
      subst eq
      cases slot : l.slots[h]? with
      | none => rfl
      | some s =>
        obtain ⟨value?, newer?, older?⟩ := s
        have none : value? = none := by simpa [get?, slot] using dead
        rw [none]
        rfl
    · rfl
  simp only [modify, modifySlot, same]

theorem set_eq (l : Recency α) (h : Handle) (a : α) :
    l.set h a = (l.get? h, l.modify h fun _ => a) := by
  unfold Recency.set
  cases here : l.get? h with
  | none => rw [modify_of_dead here]
  | some b =>
    have same : (l.slots.modify h fun s => { s with value? := some a }) =
        l.slots.modify h fun s => { s with value? := s.value?.map fun _ => a } := by
      refine Array.ext_getElem? fun k => ?_
      simp only [Array.getElem?_modify]
      split
      · rename_i eq
        subst eq
        cases slot : l.slots[h]? with
        | none => rfl
        | some s =>
          have some : s.value? = some b := by simpa [get?, slot] using here
          simp [some]
      · rfl
    simp only [modify, modifySlot, same]

end

/-! ## Numbers -/

@[simp] theorem free_promote (l : Recency α) (h : Handle) : (l.promote h).free = l.free := by
  unfold promote
  split <;> simp

@[simp] theorem size_slots_promote (l : Recency α) (h : Handle) :
    (l.promote h).slots.size = l.slots.size := by
  unfold promote
  split <;> simp

@[simp] theorem size_slots_modify (l : Recency α) (h : Handle) (f : α → α) :
    (l.modify h f).slots.size = l.slots.size :=
  size_slots_modifySlot l h _

/-- The recency list stands for the roster. -/
structure Mirrors (l : Recency α) (r : Roster α) : Prop where
  lists : l.Lists r.entries
  free : l.free = r.freed
  slots : l.slots.size = r.slots

theorem mirrors_empty : (∅ : Recency α).Mirrors ∅ where
  lists := lists_empty
  free := rfl
  slots := rfl

namespace Mirrors

variable {l : Recency α} {r : Roster α} {h : Handle} {a : α}

/-! ## Looking -/

theorem get?_eq (mirrors : l.Mirrors r) (h : Handle) : l.get? h = r.value? h :=
  Option.ext fun a => by rw [mirrors.lists.get?_eq_some_iff, Roster.value?_eq_some_iff]

theorem live_eq_true_iff (mirrors : l.Mirrors r) :
    l.live h = true ↔ h ∈ r.entries.map Prod.fst := by
  rw [live, mirrors.get?_eq, Option.isSome_iff_ne_none, ne_eq, Roster.value?_eq_none_iff,
    not_not]

theorem live_eq_false_iff (mirrors : l.Mirrors r) :
    l.live h = false ↔ h ∉ r.entries.map Prod.fst := by
  rw [← Bool.not_eq_true, mirrors.live_eq_true_iff]

theorem isEmpty_eq (mirrors : l.Mirrors r) : l.isEmpty = r.entries.isEmpty := by
  rw [isEmpty, mirrors.lists.size]
  cases r.entries <;> rfl

/-! ## Writing -/

theorem push (mirrors : l.Mirrors r) (a : α) :
    (l.push a).1 = (r.push a).1 ∧ (l.push a).2.Mirrors (r.push a).2 := by
  have handle : (l.push a).1 = r.next := by
    unfold Recency.push Roster.next
    rw [← mirrors.free, ← mirrors.slots]
    cases l.free <;> rfl
  have lists := (mirrors.lists.push a).2
  rw [handle] at lists
  refine ⟨handle, lists, ?_, ?_⟩
  · change _ = r.freed.tail
    unfold Recency.push
    rw [← mirrors.free]
    cases l.free <;> simp
  · change _ = max r.slots (r.next + 1)
    unfold Recency.push Roster.next
    rw [← mirrors.free, ← mirrors.slots]
    cases free : l.free with
    | nil => simp
    | cons h rest =>
      have lt : h < l.slots.size := ((mirrors.lists.mem_free h).1 (by simp [free])).1
      have kept : max l.slots.size (h + 1) = l.slots.size := Nat.max_eq_left lt
      simp [kept]

theorem promote (mirrors : l.Mirrors r) (h : Handle) : (l.promote h).Mirrors (r.promote h) := by
  refine ⟨?_, (free_promote l h).trans mirrors.free, (size_slots_promote l h).trans mirrors.slots⟩
  cases here : l.get? h with
  | none =>
    rw [Lists.promote_of_dead here,
      Roster.entries_promote_of_notMem (mirrors.lists.get?_eq_none_iff.1 here)]
    exact mirrors.lists
  | some a =>
    have mem := mirrors.lists.get?_eq_some_iff.1 here
    rw [Roster.entries_promote mem]
    exact mirrors.lists.promote mem

theorem erase (mirrors : l.Mirrors r) (h : Handle) :
    (l.erase h).1 = (r.erase h).1 ∧ (l.erase h).2.Mirrors (r.erase h).2 := by
  cases here : l.get? h with
  | none =>
    rw [Roster.erase_of_notMem (mirrors.lists.get?_eq_none_iff.1 here), Lists.erase_of_dead here]
    exact ⟨rfl, mirrors⟩
  | some a =>
    have mem := mirrors.lists.get?_eq_some_iff.1 here
    obtain ⟨erased, rest⟩ := mirrors.lists.erase mem
    rw [Roster.erase, dif_pos (List.mem_map_of_mem mem), ← mirrors.get?_eq, here]
    refine ⟨erased, rest, ?_, ?_⟩
    · simp only [Recency.erase, here, mirrors.free]
    · simpa only [Recency.erase, here, size_slots_modifySlot, size_slots_unlink] using mirrors.slots

theorem dropOldest (mirrors : l.Mirrors r) :
    l.dropOldest.1 = r.dropOldest.1 ∧ l.dropOldest.2.Mirrors r.dropOldest.2 := by
  unfold Recency.dropOldest Roster.dropOldest
  rw [← show l.oldest? = r.oldest? from mirrors.lists.oldest]
  cases l.oldest? with
  | none => exact ⟨rfl, mirrors⟩
  | some h => exact mirrors.erase h

theorem modify (mirrors : l.Mirrors r) (h : Handle) (f : α → α) :
    (l.modify h f).Mirrors (r.modify h f) where
  lists := mirrors.lists.modify h f
  free := mirrors.free
  slots := by
    rw [size_slots_modify]
    exact mirrors.slots

/-! ## Runs -/

/-- An operation gives what it gives for the roster, and does to the list what it does to the
roster. -/
theorem step (mirrors : l.Mirrors r) (op : Op α) :
    (l.step op).1 = (r.step op).1 ∧ (l.step op).2.Mirrors (r.step op).2 := by
  cases op with
  | push a =>
    obtain ⟨handle, rest⟩ := mirrors.push a
    exact ⟨congrArg (fun h => Reply.slot (some h)) handle, rest⟩
  | promote h => exact ⟨rfl, mirrors.promote h⟩
  | erase h =>
    obtain ⟨value, rest⟩ := mirrors.erase h
    exact ⟨congrArg Reply.value value, rest⟩
  | dropOldest =>
    obtain ⟨value, rest⟩ := mirrors.dropOldest
    exact ⟨congrArg Reply.value value, rest⟩
  | set h a =>
    simp only [Recency.step, set_eq]
    exact ⟨congrArg Reply.value (mirrors.get?_eq h), mirrors.modify h _⟩
  | modify h f => exact ⟨congrArg Reply.value (mirrors.get?_eq h), mirrors.modify h f⟩
  | clear => exact ⟨rfl, mirrors_empty⟩
  | get h => exact ⟨congrArg Reply.value (mirrors.get?_eq h), mirrors⟩
  | newest => exact ⟨congrArg Reply.slot mirrors.lists.newest, mirrors⟩
  | oldest => exact ⟨congrArg Reply.slot mirrors.lists.oldest, mirrors⟩
  | size => exact ⟨congrArg Reply.count mirrors.lists.size, mirrors⟩
  | isEmpty => exact ⟨congrArg Reply.flag mirrors.isEmpty_eq, mirrors⟩
  | entries => exact ⟨congrArg Reply.listing mirrors.lists.entries_eq, mirrors⟩

theorem after (mirrors : l.Mirrors r) (ops : List (Op α)) :
    (l.after ops).Mirrors (r.after ops) := by
  induction ops generalizing l r with
  | nil => exact mirrors
  | cons op ops ih => exact ih (mirrors.step op).2

/-! ## Handles -/

/-- A value is found at its handle after an operation that does not take it out. -/
theorem get?_step (mirrors : l.Mirrors r) (here : l.get? h = some a) {op : Op α}
    (kept : ¬op.Frees l.oldest? h) : (l.step op).2.get? h = some (op.write h a) := by
  rw [mirrors.lists.oldest] at kept
  rw [(mirrors.step op).2.lists.get?_eq_some_iff]
  exact Roster.mem_step (mirrors.lists.get?_eq_some_iff.1 here) kept

/-- Nothing is found after an operation that takes it out. -/
theorem get?_step_of_frees (mirrors : l.Mirrors r) {op : Op α} (freed : op.Frees l.oldest? h) :
    (l.step op).2.get? h = none := by
  rw [mirrors.lists.oldest] at freed
  rw [(mirrors.step op).2.lists.get?_eq_none_iff]
  exact Roster.notMem_step freed

/-- A value is found at its handle, as it was written last, until it is taken out. -/
theorem get?_after (mirrors : l.Mirrors r) (here : l.get? h = some a) {ops : List (Op α)}
    (spares : l.Spares h ops) : (l.after ops).get? h = some (ops.foldl (Op.write h) a) := by
  induction ops generalizing l r a with
  | nil => exact here
  | cons op ops ih => exact ih (mirrors.step op).2 (mirrors.get?_step here spares.1) spares.2

end Mirrors

/-- **A recency list is the plain list of its values, with the numbers of their slots.**  After
any operations on an empty list, with any handles, it shows what the plain list holds, in both
directions, and the same slots are free, in the order in which they are handed out again.  A walk
in either direction ends, and passes each slot that holds a value once; each other slot is free,
once.  Whatever is done next gives the same reply, and touches no slot that is not there.
Nothing is done at a handle that leads to no value.  One that does leads to it, as it was written
last, until that value is taken out, and to nothing then. -/
theorem refines_roster (ops : List (Op α)) :
    let l := (∅ : Recency α).after ops
    let r := (∅ : Roster α).after ops
    (l.entries = r.entries ∧ l.size = r.entries.length ∧ l.newest? = r.newest? ∧
      l.oldest? = r.oldest? ∧ l.free = r.freed ∧ l.slots.size = r.slots) ∧
    (Follows Slot.older? l.slots l.newest? r.entries ∧
      Follows Slot.newer? l.slots l.oldest? r.entries.reverse ∧
      (r.entries.map Prod.fst).Nodup ∧ ∀ h, l.live h = true ↔ h ∈ r.entries.map Prod.fst) ∧
    (l.free.Nodup ∧ ∀ h, h ∈ l.free ↔ h < l.slots.size ∧ l.live h = false) ∧
    (∀ op, (l.step op).1 = (r.step op).1 ∧ l.step? op = some (l.step op)) ∧
    (∀ h, l.live h = false → l.get? h = none ∧ l.promote h = l ∧ l.erase h = (none, l) ∧
      (∀ a, l.set h a = (none, l)) ∧ ∀ f, l.modify h f = l) ∧
    (∀ h a ops', l.get? h = some a → l.Spares h ops' →
      (l.after ops').get? h = some (ops'.foldl (Op.write h) a)) ∧
    ∀ h op, op.Frees l.oldest? h → (l.step op).2.get? h = none := by
  intro l r
  have mirrors : l.Mirrors r := mirrors_empty.after ops
  have lists := mirrors.lists
  refine ⟨⟨lists.entries_eq, lists.size, lists.newest, lists.oldest, mirrors.free, mirrors.slots⟩,
    ⟨lists.visits.follows, ?_, r.nodup, fun h => mirrors.live_eq_true_iff⟩,
    ⟨lists.free_nodup, fun h => ?_⟩, fun op => ⟨(mirrors.step op).1, lists.step?_eq op⟩,
    fun h dead => ?_, fun h a ops' here spares => mirrors.get?_after here spares,
    fun h op freed => mirrors.get?_step_of_frees freed⟩
  · rw [lists.oldest]
    exact lists.linked.follows_newer
  · rw [lists.mem_free, mirrors.live_eq_false_iff]
  · have none : l.get? h = none := by simpa [live] using dead
    refine ⟨none, Lists.promote_of_dead none, Lists.erase_of_dead none, fun a => ?_,
      modify_of_dead none⟩
    rw [set_eq, none, modify_of_dead none]

/-- The slot of a value that was taken out is the next to be used, and its old handle leads to
the new value then. -/
theorem refines_roster_recycled :
    let l := (∅ : Recency Nat).after
      [.push 10, .push 20, .push 30, .erase 1, .promote 0, .erase 7, .push 40, .set 1 41]
    l.entries = [(1, 41), (0, 10), (2, 30)] ∧ l.size = 3 ∧ l.oldest? = some 2 ∧ l.free = [] ∧
      Follows Slot.newer? l.slots l.oldest? [(2, 30), (0, 10), (1, 41)] ∧
      (l.after [.dropOldest, .modify 0 (· + 1), .push 50]).get? 0 = some 11 := by
  intro l
  obtain ⟨⟨entries, size, -, oldest, free, -⟩, ⟨-, back, -⟩, -, -, -, stays, -⟩ :=
    refines_roster (α := Nat)
      [.push 10, .push 20, .push 30, .erase 1, .promote 0, .erase 7, .push 40, .set 1 41]
  have other : l.oldest? ≠ some 0 := by
    rw [oldest]
    decide
  exact ⟨entries, size, oldest, free, back, stays 0 10 _ (by decide) ⟨other, id, id, trivial⟩⟩

end ReadThrough.Recency
