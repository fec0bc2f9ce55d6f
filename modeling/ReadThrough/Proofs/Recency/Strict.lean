import ReadThrough.Proofs.Recency.Roster

/-!
# Slots that are there

To write to a slot that is not there leaves a recency list as it is.  No operation counts on
that: whatever slot it reads or writes is one of those that the list has.

* `Recency.modifySlot?` refuses a slot that is not there.  `link?`, `unlink?`, `push?`,
  `promote?`, `erase?` and `dropOldest?` are the operations made of such writes.
* `Lists.step?_eq`: none of them is ever refused.
-/

namespace ReadThrough.Recency

variable {α : Type}

/-- Change the slot at `h`, which has to be there. -/
def modifySlot? (l : Recency α) (h : Nat) (f : Slot α → Slot α) : Option (Recency α) :=
  if h < l.slots.size then some (l.modifySlot h f) else none

def link? (l : Recency α) (h : Nat) : Option (Recency α) := do
  let l₁ ← l.modifySlot? h fun s => { s with newer? := none, older? := l.newest? }
  let l₂ ← match l.newest? with
    | some front => l₁.modifySlot? front fun s => { s with newer? := some h }
    | none => some l₁
  some { l₂ with newest? := some h, oldest? := l.oldest?.or (some h) }

def follow? (l : Recency α) (newer? older? : Option Nat) : Option (Recency α) :=
  match newer? with
  | some n => l.modifySlot? n fun s => { s with older? := older? }
  | none => some { l with newest? := older? }

def precede? (l : Recency α) (newer? older? : Option Nat) : Option (Recency α) :=
  match older? with
  | some o => l.modifySlot? o fun s => { s with newer? := newer? }
  | none => some { l with oldest? := newer? }

def unlink? (l : Recency α) (h : Nat) : Option (Recency α) := do
  let s ← l.slots[h]?
  let l₁ ← l.follow? s.newer? s.older?
  let l₂ ← l₁.precede? s.newer? s.older?
  l₂.modifySlot? h fun s => { s with newer? := none, older? := none }

def push? (l : Recency α) (a : α) : Option (Handle × Recency α) :=
  match l.free with
  | h :: free => do
    let l₁ ← l.modifySlot? h fun _ => ⟨some a, none, none⟩
    let l₂ ← l₁.link? h
    some (h, { l₂ with free := free, size := l.size + 1 })
  | [] => do
    let h := l.slots.size
    let l₁ ← ({ l with slots := l.slots.push ⟨some a, none, none⟩ } : Recency α).link? h
    some (h, { l₁ with size := l.size + 1 })

def promote? (l : Recency α) (h : Handle) : Option (Recency α) :=
  if l.live h && l.newest? != some h then do
    let l₁ ← l.unlink? h
    l₁.link? h
  else some l

def erase? (l : Recency α) (h : Handle) : Option (Option α × Recency α) :=
  match l.get? h with
  | none => some (none, l)
  | some a => do
    let l₁ ← l.unlink? h
    let l₂ ← l₁.modifySlot? h fun s => { s with value? := none }
    some (some a, { l₂ with free := h :: l.free, size := l.size - 1 })

def dropOldest? (l : Recency α) : Option (Option α × Recency α) :=
  match l.oldest? with
  | none => some (none, l)
  | some h => l.erase? h

/-- An operation that is refused where it writes to a slot that is not there. -/
def step? (l : Recency α) : Op α → Option (Reply α × Recency α)
  | .push a => (l.push? a).map (Prod.map (fun h => .slot (some h)) id)
  | .promote h => (l.promote? h).map fun l => (.done, l)
  | .erase h => (l.erase? h).map (Prod.map .value id)
  | .dropOldest => l.dropOldest?.map (Prod.map .value id)
  | op => some (l.step op)

/-! ## Links -/

variable {l : Recency α} {es xs ys : List (Handle × α)} {h : Handle} {a : α}

theorem modifySlot?_eq (lt : h < l.slots.size) (f : Slot α → Slot α) :
    l.modifySlot? h f = some (l.modifySlot h f) :=
  if_pos lt

theorem link?_eq (lt : h < l.slots.size) (front : ∀ k, l.newest? = some k → k < l.slots.size) :
    l.link? h = some (l.link h) := by
  unfold link? link
  rw [modifySlot?_eq lt]
  cases newest : l.newest? with
  | none => rfl
  | some k =>
    have lt' : k < (l.modifySlot h fun s =>
        { s with newer? := none, older? := some k }).slots.size := by
      rw [size_slots_modifySlot]
      exact front k newest
    simp only [Option.bind_eq_bind, Option.bind_some, modifySlot?_eq lt']

theorem follow?_eq {newer? : Option Nat} (lt : ∀ n, newer? = some n → n < l.slots.size)
    (older? : Option Nat) : l.follow? newer? older? = some (l.follow newer? older?) := by
  cases newer? with
  | none => rfl
  | some n => exact modifySlot?_eq (lt n rfl) _

theorem precede?_eq {older? : Option Nat} (lt : ∀ o, older? = some o → o < l.slots.size)
    (newer? : Option Nat) : l.precede? newer? older? = some (l.precede newer? older?) := by
  cases older? with
  | none => rfl
  | some o => exact modifySlot?_eq (lt o rfl) _

namespace Chain

theorem newest_lt (chain : l.Chain es) (k : Handle) (newest : l.newest? = some k) :
    k < l.slots.size := by
  refine chain.lt_size ?_
  rw [chain.newest, ← List.head?_map] at newest
  exact List.mem_of_head? newest

/-- A slot on the chain has neighbours on the chain. -/
theorem unlink?_eq (chain : l.Chain (xs ++ (h, a) :: ys)) : l.unlink? h = some (l.unlink h) := by
  have before : ∀ n, xs.getLast?.map Prod.fst = some n → n < l.slots.size := fun n last => by
    refine chain.lt_size ?_
    rw [← List.getLast?_map] at last
    simp [List.mem_of_getLast? last]
  have behind : ∀ o, ys.head?.map Prod.fst = some o → o < l.slots.size := fun o first => by
    refine chain.lt_size ?_
    rw [← List.head?_map] at first
    simp [List.mem_of_head? first]
  have here : h < l.slots.size := chain.lt_size (by simp)
  unfold Recency.unlink? Recency.unlink
  simp only [chain.slot, Option.bind_eq_bind, Option.bind_some, follow?_eq before]
  rw [precede?_eq (by simpa using behind)]
  exact modifySlot?_eq (by simpa using here) _

/-- A slot that is taken out can be put in front. -/
theorem relink?_eq (chain : l.Chain (xs ++ (h, a) :: ys)) :
    (l.unlink h).link? h = some ((l.unlink h).link h) := by
  have here : h < (l.unlink h).slots.size := by
    rw [size_slots_unlink]
    exact chain.lt_size (by simp)
  exact link?_eq here chain.unlink.newest_lt

end Chain

/-! ## Operations -/

namespace Lists

theorem push?_eq (holds : l.Lists es) (a : α) : l.push? a = some (l.push a) := by
  unfold push? Recency.push
  cases free : l.free with
  | nil =>
    have inside : ∀ k, l.newest? = some k → k < (l.slots.push ⟨some a, none, none⟩).size :=
      fun k newest => by
        rw [Array.size_push]
        exact Nat.lt_succ_of_lt (holds.newest_lt k newest)
    have linked := link?_eq
      (l := { l with slots := l.slots.push ⟨some a, none, none⟩, free := [] })
      (h := l.slots.size) (by simp) inside
    simp only [linked, Option.bind_eq_bind, Option.bind_some]
  | cons h rest =>
    have lt : h < l.slots.size := ((holds.mem_free h).1 (by simp [free])).1
    have inside : ∀ k, l.newest? = some k →
        k < (l.modifySlot h fun _ => ⟨some a, none, none⟩).slots.size := by
      rw [size_slots_modifySlot]
      exact holds.newest_lt
    have linked := link?_eq (l := l.modifySlot h fun _ => ⟨some a, none, none⟩) (h := h)
      (by simpa using lt) inside
    simp only [modifySlot?_eq lt, linked, Option.bind_eq_bind, Option.bind_some]

theorem promote?_eq (holds : l.Lists es) (h : Handle) : l.promote? h = some (l.promote h) := by
  unfold promote? Recency.promote
  split
  · rename_i moves
    obtain ⟨a, here⟩ := Option.isSome_iff_exists.1 (Bool.and_eq_true_iff.1 moves).1
    obtain ⟨xs, ys, rfl⟩ := List.append_of_mem (holds.get?_eq_some_iff.1 here)
    simp only [holds.unlink?_eq, holds.relink?_eq, Option.bind_eq_bind, Option.bind_some]
  · rfl

theorem erase?_eq (holds : l.Lists es) (h : Handle) : l.erase? h = some (l.erase h) := by
  unfold erase? Recency.erase
  cases here : l.get? h with
  | none => rfl
  | some a =>
    obtain ⟨xs, ys, rfl⟩ := List.append_of_mem (holds.get?_eq_some_iff.1 here)
    have lt : h < (l.unlink h).slots.size := by
      rw [size_slots_unlink]
      exact holds.lt_size (by simp)
    simp only [holds.unlink?_eq, modifySlot?_eq lt, Option.bind_eq_bind, Option.bind_some]

theorem dropOldest?_eq (holds : l.Lists es) : l.dropOldest? = some l.dropOldest := by
  unfold dropOldest? Recency.dropOldest
  cases l.oldest? with
  | none => rfl
  | some h => exact holds.erase?_eq h

/-- No operation is refused. -/
theorem step?_eq (holds : l.Lists es) (op : Op α) : l.step? op = some (l.step op) := by
  cases op with
  | push a => exact congrArg (Option.map _) (holds.push?_eq a)
  | promote h => exact congrArg (Option.map _) (holds.promote?_eq h)
  | erase h => exact congrArg (Option.map _) (holds.erase?_eq h)
  | dropOldest => exact congrArg (Option.map _) holds.dropOldest?_eq
  | _ => rfl

end Lists

end ReadThrough.Recency
