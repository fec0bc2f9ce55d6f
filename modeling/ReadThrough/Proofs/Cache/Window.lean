import Mathlib.Order.Bounds.Defs
import Mathlib.Tactic.Common
import ReadThrough.Cache.Window

/-!
# Bounds of a window

The window of a miss contains the missing position, stays within the source and is
no longer than a chunk.  It holds nothing that is cached, and it cannot be made larger
in either direction.

* `Window.Maximal` says so, and `Window.maximal_around` that it is true of the window of
  a miss.
-/

namespace ReadThrough.Window

variable {cached : Nat → Bool} {position size chunk steps start stop : Nat}

theorem reachBack_le : reachBack cached steps start ≤ start := by
  induction steps generalizing start with
  | zero => exact Nat.le_refl _
  | succ steps ih =>
    cases start with
    | zero => exact Nat.le_refl _
    | succ start =>
      unfold reachBack
      split
      · exact Nat.le_refl _
      · exact Nat.le_succ_of_le ih

theorem le_reachBack_add : start ≤ reachBack cached steps start + steps := by
  induction steps generalizing start with
  | zero => exact Nat.le_refl _
  | succ steps ih =>
    cases start with
    | zero => exact Nat.zero_le _
    | succ start =>
      unfold reachBack
      split
      · exact Nat.le_add_right _ _
      · have back : start ≤ reachBack cached steps start + steps := ih
        omega

theorem le_reachForward : stop ≤ reachForward cached size steps stop := by
  induction steps generalizing stop with
  | zero => exact Nat.le_refl _
  | succ steps ih =>
    unfold reachForward
    split
    · exact Nat.le_of_succ_le ih
    · exact Nat.le_refl _

theorem reachForward_le_add : reachForward cached size steps stop ≤ stop + steps := by
  induction steps generalizing stop with
  | zero => exact Nat.le_refl _
  | succ steps ih =>
    unfold reachForward
    split
    · have forward : reachForward cached size steps (stop + 1) ≤ stop + 1 + steps := ih
      omega
    · exact Nat.le_add_right _ _

theorem reachForward_le_size (inside : stop ≤ size) :
    reachForward cached size steps stop ≤ size := by
  induction steps generalizing stop with
  | zero => exact inside
  | succ steps ih =>
    unfold reachForward
    split
    · rename_i further
      rw [Bool.and_eq_true, decide_eq_true_eq] at further
      exact ih further.1
    · exact inside

theorem start_around_le : (around cached position size chunk).start ≤ position :=
  reachBack_le

theorem lt_stop_around : position < (around cached position size chunk).stop :=
  le_reachForward

theorem stop_around_le (inside : position < size) :
    (around cached position size chunk).stop ≤ size :=
  reachForward_le_size inside

theorem length_around_le (pos : 0 < chunk) :
    (around cached position size chunk).length ≤ chunk := by
  have back : position ≤ (around cached position size chunk).start + chunk / 2 :=
    le_reachBack_add
  have forward : (around cached position size chunk).stop ≤ position + 1 + (chunk - 1) / 2 :=
    reachForward_le_add
  unfold length
  omega

/-! ## Nothing is fetched twice, and nothing left out -/

theorem not_cached_reachBack {p : Nat} (from_start : reachBack cached steps start ≤ p)
    (lt : p < start) : cached p = false := by
  induction steps generalizing start with
  | zero => exact absurd lt (Nat.not_lt.2 from_start)
  | succ steps ih =>
    cases start with
    | zero => exact absurd lt (Nat.not_lt_zero p)
    | succ start =>
      unfold reachBack at from_start
      split at from_start
      · exact absurd lt (Nat.not_lt.2 from_start)
      · rename_i free
        rcases Nat.lt_succ_iff_lt_or_eq.1 lt with before | rfl
        · exact ih from_start before
        · exact eq_false_of_ne_true free

theorem not_cached_reachForward {p : Nat} (from_stop : stop ≤ p)
    (lt : p < reachForward cached size steps stop) : cached p = false := by
  induction steps generalizing stop with
  | zero => exact absurd lt (Nat.not_lt.2 from_stop)
  | succ steps ih =>
    unfold reachForward at lt
    split at lt
    · rename_i further
      rw [Bool.and_eq_true, Bool.not_eq_true'] at further
      rcases Nat.eq_or_lt_of_le from_stop with rfl | after
      · exact further.2
      · exact ih after lt
    · exact absurd lt (Nat.not_lt.2 from_stop)

/-- The way back ends no later than any other that is as short and as free. -/
theorem reachBack_le_of_free {first : Nat} (near : start - first ≤ steps)
    (free : ∀ p, first ≤ p → p < start → cached p = false) :
    reachBack cached steps start ≤ first := by
  induction steps generalizing start with
  | zero => exact Nat.le_of_sub_eq_zero (Nat.le_zero.1 near)
  | succ steps ih =>
    cases start with
    | zero => exact Nat.zero_le first
    | succ start =>
      rcases Nat.lt_or_ge start first with stays | further
      · exact Nat.le_trans reachBack_le stays
      · unfold reachBack
        rw [free start further (Nat.lt_succ_self start), if_neg Bool.false_ne_true]
        exact ih (by omega) fun p from_first lt => free p from_first (Nat.lt_succ_of_lt lt)

/-- The way forward ends no earlier than any other that is as short and as free. -/
theorem le_reachForward_of_free {last : Nat} (inside : last ≤ size) (near : last - stop ≤ steps)
    (free : ∀ p, stop ≤ p → p < last → cached p = false) :
    last ≤ reachForward cached size steps stop := by
  induction steps generalizing stop with
  | zero => exact Nat.le_of_sub_eq_zero (Nat.le_zero.1 near)
  | succ steps ih =>
    rcases Nat.lt_or_ge stop last with further | stays
    · have room : stop < size := Nat.lt_of_lt_of_le further inside
      unfold reachForward
      rw [free stop (Nat.le_refl _) further, decide_eq_true room, Bool.not_false, Bool.and_self,
        if_pos rfl]
      exact ih (by omega) fun p from_stop lt => free p (Nat.le_of_succ_le from_stop) lt
    · exact Nat.le_trans stays le_reachForward

/-- The window for a miss at `position` covers it, lies in the source, is no longer than a chunk
and has nothing cached in it.  It starts as early, and stops as late, as a share of the chunk and
what is cached next to the position allow. -/
structure Maximal (cached : Nat → Bool) (position size chunk : Nat) (w : Window) : Prop where
  start_le : w.start ≤ position
  lt_stop : position < w.stop
  stop_le : w.stop ≤ size
  length_le : w.length ≤ chunk
  free : ∀ p, w.start ≤ p → p < w.stop → cached p = false
  start_least : IsLeast {start | position - start ≤ chunk / 2 ∧
    ∀ p, start ≤ p → p < position → cached p = false} w.start
  stop_greatest : IsGreatest {stop | stop ≤ size ∧ stop - 1 - position ≤ (chunk - 1) / 2 ∧
    ∀ p, position < p → p < stop → cached p = false} w.stop

theorem maximal_around (pos : 0 < chunk) (inside : position < size)
    (missing : cached position = false) :
    (around cached position size chunk).Maximal cached position size chunk where
  start_le := start_around_le
  lt_stop := lt_stop_around
  stop_le := stop_around_le inside
  length_le := length_around_le pos
  free p from_start lt := by
    rcases Nat.lt_trichotomy p position with before | rfl | after
    · exact not_cached_reachBack from_start before
    · exact missing
    · exact not_cached_reachForward after lt
  start_least := by
    refine ⟨⟨?_, fun p => not_cached_reachBack⟩, fun start ⟨near, free⟩ => ?_⟩
    · exact Nat.sub_le_iff_le_add'.2 le_reachBack_add
    · exact reachBack_le_of_free near free
  stop_greatest := by
    refine ⟨⟨stop_around_le inside, ?_, fun p => not_cached_reachForward⟩,
      fun stop ⟨within, near, free⟩ => ?_⟩
    · have reach : (around cached position size chunk).stop ≤ position + 1 + (chunk - 1) / 2 :=
        reachForward_le_add
      omega
    · exact le_reachForward_of_free within (by omega) free

end ReadThrough.Window
