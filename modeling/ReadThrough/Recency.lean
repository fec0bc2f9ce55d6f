/-!
# Recency lists

A `Recency α` keeps values from the most to the least recently used.  Each value
lives in a numbered slot, and the number, its handle, stays valid until the value
is erased, wherever the value moves meanwhile; so other structures can point into
the list.  Slots are linked in both directions, and every operation but the
traversals touches a bounded number of them.

* `Recency.push` hands out the slot freed last, or a new one.
* `Recency.promote`, `erase`, `set` leave the list alone at a handle that is not
  live: one erased, or never handed out.
* `Recency.entries` is the view: handles and values, most recent first.
-/

namespace ReadThrough

/-- One place of a recency list: its value, unless the place is free, and the
neighbours used more and less recently. -/
structure Slot (α : Type) : Type where
  value? : Option α
  newer? : Option Nat
  older? : Option Nat

/-- Values in order of use. -/
structure Recency (α : Type) : Type where
  slots : Array (Slot α)
  newest? : Option Nat
  oldest? : Option Nat
  /-- The slots that can be handed out again, the one freed last first. -/
  free : List Nat
  size : Nat

/-- The slot number under which a value is found. -/
abbrev Handle : Type := Nat

namespace Recency

variable {α β : Type}

def empty : Recency α := ⟨#[], none, none, [], 0⟩

instance : EmptyCollection (Recency α) := ⟨empty⟩

instance : Inhabited (Recency α) := ⟨empty⟩

def isEmpty (l : Recency α) : Bool := l.size == 0

/-- The value at a live handle. -/
def get? (l : Recency α) (h : Handle) : Option α := do
  let slot ← l.slots[h]?
  slot.value?

/-- Whether a value is found at the handle. -/
def live (l : Recency α) (h : Handle) : Bool := (l.get? h).isSome

/-! ## Links -/

/-- Change the slot at `h`, if there is one. -/
def modifySlot (l : Recency α) (h : Nat) (f : Slot α → Slot α) : Recency α :=
  { l with slots := l.slots.modify h f }

/-- Put an unlinked slot in front of all others. -/
def link (l : Recency α) (h : Nat) : Recency α :=
  let l₁ := l.modifySlot h fun s => { s with newer? := none, older? := l.newest? }
  let l₂ := match l.newest? with
    | some front => l₁.modifySlot front fun s => { s with newer? := some h }
    | none => l₁
  { l₂ with newest? := some h, oldest? := l.oldest?.or (some h) }

/-- Let `older?` follow `newer?`, which is the front of the list if there is none. -/
def follow (l : Recency α) (newer? older? : Option Nat) : Recency α :=
  match newer? with
  | some n => l.modifySlot n fun s => { s with older? := older? }
  | none => { l with newest? := older? }

/-- Let `newer?` precede `older?`, which is the end of the list if there is none. -/
def precede (l : Recency α) (newer? older? : Option Nat) : Recency α :=
  match older? with
  | some o => l.modifySlot o fun s => { s with newer? := newer? }
  | none => { l with oldest? := newer? }

/-- Make the slot before `h` and the slot after it neighbours. -/
def unlink (l : Recency α) (h : Nat) : Recency α :=
  match l.slots[h]? with
  | none => l
  | some ⟨_, newer?, older?⟩ =>
    ((l.follow newer? older?).precede newer? older?).modifySlot h
      fun s => { s with newer? := none, older? := none }

/-! ## Operations -/

/-- Add a value as the most recently used one; also gives its handle. -/
def push (l : Recency α) (a : α) : Handle × Recency α :=
  let slot : Slot α := ⟨some a, none, none⟩
  match l.free with
  | h :: free =>
    (h, { (l.modifySlot h fun _ => slot).link h with free := free, size := l.size + 1 })
  | [] =>
    let h := l.slots.size
    (h, { ({ l with slots := l.slots.push slot }).link h with size := l.size + 1 })

/-- Make the value at `h` the most recently used one. -/
def promote (l : Recency α) (h : Handle) : Recency α :=
  if l.live h && l.newest? != some h then (l.unlink h).link h else l

/-- Take out the value at `h` and free its slot. -/
def erase (l : Recency α) (h : Handle) : Option α × Recency α :=
  match l.get? h with
  | none => (none, l)
  | some a =>
    (some a, { (l.unlink h).modifySlot h fun s => { s with value? := none } with
      free := h :: l.free
      size := l.size - 1 })

/-- Take out the least recently used value. -/
def dropOldest (l : Recency α) : Option α × Recency α :=
  match l.oldest? with
  | none => (none, l)
  | some h => l.erase h

/-- Replace the value at `h`, which keeps its place; also gives the old value. -/
def set (l : Recency α) (h : Handle) (a : α) : Option α × Recency α :=
  match l.get? h with
  | none => (none, l)
  | some old => (some old, l.modifySlot h fun s => { s with value? := some a })

/-- Change the value at `h`, which keeps its place. -/
def modify (l : Recency α) (h : Handle) (f : α → α) : Recency α :=
  l.modifySlot h fun s => { s with value? := s.value?.map f }

/-! ## Traversal -/

/-- The live values from `h?` on towards the least recent, at most `n` of them. -/
def walk (l : Recency α) : Nat → Option Handle → List (Handle × α)
  | 0, _ | _, none => []
  | n + 1, some h =>
    match l.slots[h]? with
    | some ⟨some a, _, older?⟩ => (h, a) :: walk l n older?
    | _ => []

/-- Handles and values from the most to the least recently used.  No slot occurs
twice on the way, so as many steps as there are slots reach the end. -/
def entries (l : Recency α) : List (Handle × α) := l.walk l.slots.size l.newest?

/-- The values from the most to the least recently used. -/
def toList (l : Recency α) : List α := l.entries.map (·.2)

end Recency

end ReadThrough
