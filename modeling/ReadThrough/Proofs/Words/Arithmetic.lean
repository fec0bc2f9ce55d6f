import ReadThrough.Bounds
import ReadThrough.Cache.Window

/-!
# Arithmetic of words

A sum that does not fit into a word, and a difference below zero, are refused here.  Whatever is
computed with such sums and differences, and refused nowhere, is what natural numbers give.

* `checkedSub?` is for differences what `checkedAdd?` is for sums.
* `loop?` goes on as long as a test says so, and is refused if that takes too many steps.
* `positioned?` numbers values, and `upTo?` goes through positions up to a last one, which need
  not have a successor.
* `Window.around?` finds the window of a miss, `Window.around?_eq` that it is never refused.
-/

namespace ReadThrough

variable {α : Type} {a b : Nat}

/-- The difference, unless it is below zero. -/
def checkedSub? (a b : Nat) : Option Nat := if b ≤ a then some (a - b) else none

theorem checkedAdd?_eq (fits : a + b < wordLimit) : checkedAdd? a b = some (a + b) := if_pos fits

theorem checkedSub?_eq (le : b ≤ a) : checkedSub? a b = some (a - b) := if_pos le

/-! ## Loops -/

/-- Go on from `x` as long as the test says so, for so many steps at most. -/
def loop? (test : Nat → Option Bool) (next : Nat → Option Nat) : Nat → Nat → Option Nat
  | 0, x => do
    if ← test x then none else some x
  | steps + 1, x => do
    if ← test x then loop? test next steps (← next x) else some x

section

variable {test : Nat → Option Bool} {next : Nat → Option Nat} {steps x y : Nat}

theorem loop?_done (done : test x = some false) : loop? test next steps x = some x := by
  cases steps <;> rw [loop?, done] <;> rfl

theorem loop?_step (more : test x = some true) (step : next x = some y) :
    loop? test next (steps + 1) x = loop? test next steps y := by
  rw [loop?, more, step]
  rfl

end

/-! ## Runs of positions -/

/-- The values with their positions; the first one stands so far behind `start`. -/
def positioned? (start : Nat) : Nat → List α → Option (List (α × Nat))
  | _, [] => some []
  | offset, v :: vs => do
    let position ← checkedAdd? start offset
    let rest ← positioned? start (← checkedAdd? offset 1) vs
    some ((v, position) :: rest)

theorem positioned?_eq {start offset : Nat} {vs : List α}
    (fits : start + (offset + vs.length) < wordLimit) :
    positioned? start offset vs = some (vs.zipIdx (start + offset)) := by
  induction vs generalizing offset with
  | nil => rfl
  | cons v vs ih =>
    rw [List.length_cons] at fits
    have position : checkedAdd? start offset = some (start + offset) := checkedAdd?_eq (by omega)
    have next : checkedAdd? offset 1 = some (offset + 1) := checkedAdd?_eq (by omega)
    rw [positioned?, position, next]
    dsimp only [Option.bind_eq_bind, Option.bind_some]
    rw [ih (by omega)]
    rfl

theorem find?_zipIdx (vs : List α) {start position : Nat} (from_start : start ≤ position) :
    ((vs.zipIdx start).find? fun v => v.2 = position).map Prod.fst = vs[position - start]? := by
  induction vs generalizing start with
  | nil => rfl
  | cons v vs ih =>
    rw [List.zipIdx_cons, List.find?_cons]
    rcases Nat.eq_or_lt_of_le from_start with rfl | after
    · rw [decide_eq_true rfl, Nat.sub_self]
      rfl
    · rw [decide_eq_false (Nat.ne_of_lt after), ih after]
      have behind : position - start = position - (start + 1) + 1 := by omega
      rw [behind, List.getElem?_cons_succ]

/-- The positions from `first` to `last`, for so many steps at most.  There is no step from the
last one. -/
def upTo? (last : Nat) : Nat → Nat → Option (List Nat)
  | 0, first => if first < last then none else some (if first = last then [first] else [])
  | steps + 1, first =>
    if first < last then do
      let rest ← upTo? last steps (← checkedAdd? first 1)
      some (first :: rest)
    else some (if first = last then [first] else [])

theorem upTo?_eq {last : Nat} (fits : last < wordLimit) (first : Nat) :
    upTo? last (last - first) first = some (List.range' first (last + 1 - first)) := by
  have ended {first : Nat} (late : last ≤ first) :
      (if first = last then [first] else []) = List.range' first (last + 1 - first) := by
    rcases Nat.eq_or_lt_of_le late with rfl | after
    · rw [if_pos rfl, Nat.add_sub_cancel_left]
      rfl
    · rw [if_neg (Nat.ne_of_gt after), Nat.sub_eq_zero_of_le after]
      rfl
  induction steps : last - first generalizing first with
  | zero =>
    have late : last ≤ first := Nat.le_of_sub_eq_zero steps
    rw [upTo?, if_neg (Nat.not_lt.2 late), ended late]
  | succ n ih =>
    have before : first < last := by omega
    have next : checkedAdd? first 1 = some (first + 1) := checkedAdd?_eq (by omega)
    have more : last + 1 - first = last + 1 - (first + 1) + 1 := by omega
    rw [upTo?, if_pos before, next, more, List.range'_succ]
    dsimp only [Option.bind_eq_bind, Option.bind_some]
    rw [ih (first + 1) (by omega)]
    rfl

/-! ## Windows -/

namespace Window

variable {cached : Nat → Bool} {position size chunk : Nat}

/-- Whether the window reaches back further than `start`. -/
def backward? (cached : Nat → Bool) (position reach start : Nat) : Option Bool :=
  if 0 < start then do
    let before ← checkedSub? start 1
    let distance ← checkedSub? position before
    some (decide (distance ≤ reach) && !cached before)
  else some false

/-- Whether the window reaches forward further than `stop`. -/
def forward? (cached : Nat → Bool) (position size reach stop : Nat) : Option Bool :=
  if stop < size then do
    let distance ← checkedSub? stop position
    some (decide (distance ≤ reach) && !cached stop)
  else some false

/-- The window to fetch for a miss at `position`, in as many steps back and forward as the chunk
allows. -/
def around? (cached : Nat → Bool) (position size chunk : Nat) : Option Window := do
  let start ← loop? (backward? cached position (chunk / 2)) (checkedSub? · 1) (chunk / 2) position
  let next ← checkedAdd? position 1
  let stop ← loop? (forward? cached position size ((chunk - 1) / 2)) (checkedAdd? · 1)
    ((chunk - 1) / 2) next
  some ⟨start, stop⟩

theorem backward?_eq {reach start : Nat} (inside : start + 1 ≤ position) :
    backward? cached position reach (start + 1) =
      some (decide (position - start ≤ reach) && !cached start) := by
  have before : checkedSub? (start + 1) 1 = some start := checkedSub?_eq (Nat.succ_pos start)
  have distance : checkedSub? position start = some (position - start) :=
    checkedSub?_eq (Nat.le_of_succ_le inside)
  rw [backward?, if_pos (Nat.succ_pos start), before]
  dsimp only [Option.bind_eq_bind, Option.bind_some]
  rw [distance]
  rfl

theorem forward?_eq {reach stop : Nat} (ahead : position ≤ stop) (room : stop < size) :
    forward? cached position size reach stop =
      some (decide (stop - position ≤ reach) && !cached stop) := by
  rw [forward?, if_pos room, checkedSub?_eq ahead]
  rfl

/-- The steps back that are left and the distance already gone come to the whole reach. -/
theorem loop?_backward {reach steps start : Nat} (inside : start ≤ position)
    (gone : position - start + steps = reach) :
    loop? (backward? cached position reach) (checkedSub? · 1) steps start =
      some (reachBack cached steps start) := by
  induction steps generalizing start with
  | zero =>
    refine loop?_done ?_
    cases start with
    | zero => rfl
    | succ start =>
      have far : ¬ position - start ≤ reach := by omega
      rw [backward?_eq inside, decide_eq_false far]
      rfl
  | succ steps ih =>
    cases start with
    | zero => exact loop?_done rfl
    | succ start =>
      have near : position - start ≤ reach := by omega
      have test : backward? cached position reach (start + 1) = _ := backward?_eq inside
      have back : checkedSub? (start + 1) 1 = some start := checkedSub?_eq (Nat.succ_pos start)
      rw [decide_eq_true near, Bool.true_and] at test
      rw [reachBack]
      cases known : cached start with
      | true =>
        rw [known] at test
        exact loop?_done test
      | false =>
        rw [known] at test
        exact (loop?_step test back).trans (ih (Nat.le_of_succ_le inside) (by omega))

/-- So do the steps forward and the distance, with the one that leads past the position. -/
theorem loop?_forward {reach steps stop : Nat} (fits : size < wordLimit) (ahead : position < stop)
    (gone : stop - position + steps = reach + 1) :
    loop? (forward? cached position size reach) (checkedAdd? · 1) steps stop =
      some (reachForward cached size steps stop) := by
  induction steps generalizing stop with
  | zero =>
    refine loop?_done ?_
    by_cases room : stop < size
    · have far : ¬ stop - position ≤ reach := by omega
      rw [forward?_eq (Nat.le_of_lt ahead) room, decide_eq_false far]
      rfl
    · exact if_neg room
  | succ steps ih =>
    rw [reachForward]
    by_cases room : stop < size
    · have near : stop - position ≤ reach := by omega
      have test : forward? cached position size reach stop = _ :=
        forward?_eq (Nat.le_of_lt ahead) room
      have next : checkedAdd? stop 1 = some (stop + 1) := checkedAdd?_eq (by omega)
      rw [decide_eq_true near, Bool.true_and] at test
      rw [decide_eq_true room, Bool.true_and]
      cases known : cached stop with
      | true =>
        rw [known] at test
        exact loop?_done test
      | false =>
        rw [known] at test
        exact (loop?_step test next).trans (ih (by omega) (by omega))
    · rw [decide_eq_false room]
      exact loop?_done (if_neg room)

theorem around?_eq (inside : position < size) (fits : size < wordLimit) :
    around? cached position size chunk = some (around cached position size chunk) := by
  have back : loop? (backward? cached position (chunk / 2)) (checkedSub? · 1) (chunk / 2) position =
      some _ := loop?_backward (Nat.le_refl position) (by omega)
  have forward : loop? (forward? cached position size ((chunk - 1) / 2)) (checkedAdd? · 1)
      ((chunk - 1) / 2) (position + 1) = some _ :=
    loop?_forward fits (Nat.lt_succ_self position) (by omega)
  rw [around?, back, checkedAdd?_eq (by omega)]
  dsimp only [Option.bind_eq_bind, Option.bind_some]
  rw [forward]
  rfl

end Window

end ReadThrough
