import ReadThrough.Fault

/-!
# Positions and their bounds

Positions, lengths and sizes are counts below `wordLimit`, written as natural
numbers.  An operation that could leave this range says what it does then: a
range whose end does not fit is refused, a span that does not fit stops short.
-/

namespace ReadThrough

/-- Positions, lengths and sizes are below this, which is `2 ^ 64`. -/
def wordLimit : Nat := 18446744073709551616

/-- The sum, unless it does not fit. -/
def checkedAdd? (a b : Nat) : Option Nat :=
  if a + b < wordLimit then some (a + b) else none

/-- The number of positions from `first` to `last`, both included, as far as it
can be counted.  Reversed bounds count as one position. -/
def span (first last : Nat) : Nat := min (last - first + 1) (wordLimit - 1)

/-- Pass if there is an object at `position` among `size` of them. -/
def guardPosition (position size : Nat) : Except Fault Unit :=
  if position < size then .ok () else .error (.outOfBounds position size)

theorem guardPosition_eq_ok_iff {position size : Nat} :
    guardPosition position size = .ok () ↔ position < size := by
  unfold guardPosition
  split
  · rename_i lt
    exact ⟨fun _ => lt, fun _ => rfl⟩
  · rename_i ge
    exact ⟨fun eq => (by cases eq), fun lt => absurd lt ge⟩

/-- Pass if `length` objects stand from `start` on among `size` of them. -/
def guardRange (start length size : Nat) : Except Fault Unit :=
  match checkedAdd? start length with
  | some stop =>
    if stop ≤ size then .ok () else .error (.rangeOutOfBounds start length size)
  | none => .error (.rangeOutOfBounds start length size)

theorem guardRange_eq_ok_iff {start length size : Nat} :
    guardRange start length size = .ok () ↔ start + length < wordLimit ∧ start + length ≤ size := by
  unfold guardRange checkedAdd?
  split
  · rename_i stop sum
    split at sum
    · rename_i lt
      cases sum
      split
      · rename_i le
        exact ⟨fun _ => ⟨lt, le⟩, fun _ => rfl⟩
      · rename_i gt
        exact ⟨fun eq => (by cases eq), fun within => absurd within.2 gt⟩
    · cases sum
  · rename_i overflow
    split at overflow
    · cases overflow
    · rename_i ge
      exact ⟨fun eq => (by cases eq), fun within => absurd within.1 ge⟩

end ReadThrough
