import ReadThrough.Proofs.Lock.Waiting

/-!
# No thread sleeps for nothing

A parked thread looks at the lock when it begins to wait and then only when it was woken,
and only some releases wake anyone.  Between such a release and the waking other threads may
go on, and so they may while those that were woken look again one after another.

* `Signals` are threads at a lock, with those that are about to wake the others, and those
  that were woken and have not looked again.
* `Signals.Move` is a step of a thread, or a part of waking: `Signals.Reached` what they
  lead to.
* `Signals.Reached.attended`: whoever need not wait will look again.
* `Signals.barred_of_settled`: when all have looked again, all who are parked are barred.
* `Signals.Reached.issue`: `Threads.issue` lets all who were woken look again.
-/

namespace ReadThrough

structure Signals (τ : Type) : Type where
  threads : Threads τ
  /-- The threads that gave back a hold and are about to wake all that are parked. -/
  calling : List τ
  /-- The threads that were woken and have not looked again. -/
  woken : List τ

namespace Signals

open Threads

variable {τ : Type} [DecidableEq τ]

/-- The threads after one of them took a step to `w`. -/
def act (s : Signals τ) (me : τ) (effect : Effect) (w : Threads τ) : Signals τ where
  threads := w
  calling := if effect.wakes w.lock then me :: s.calling else s.calling
  woken := s.woken.filter (· ≠ me)

inductive Move : Signals τ → Signals τ → Prop
  /-- A thread that is parked takes a step only if it was woken, and one that is about to wake
  the others takes none. -/
  | act {s : Signals τ} {me : τ} {effect : Effect} {w : Threads τ} : me ∉ s.calling →
    (s.threads.isParked me = true → me ∈ s.woken) → Step s.threads me effect w →
    Move s (s.act me effect w)
  /-- All that are parked are woken. -/
  | call {s : Signals τ} {me : τ} : me ∈ s.calling → Move s
      { s with calling := s.calling.erase me, woken := s.threads.parked.map Prod.fst }
  /-- A thread that was woken must still wait. -/
  | sleep {s : Signals τ} {me : τ} {p : Parked} : me ∈ s.woken → (me, p) ∈ s.threads.parked →
    s.threads.tryAcquire? me p = none → Move s { s with woken := s.woken.filter (· ≠ me) }
  /-- A thread may wake up without being called. -/
  | stir {s : Signals τ} {me : τ} : s.threads.isParked me = true →
    Move s { s with woken := me :: s.woken }

inductive Reached : Signals τ → Prop
  | start : Reached ⟨.empty, [], []⟩
  | move {s s' : Signals τ} : Reached s → Move s s' → Reached s'

variable {s s' : Signals τ} {w : Threads τ} {me t : τ} {p : Parked} {m : Mode} {effect : Effect}

/-- Waking takes nothing but the steps of threads. -/
theorem Reached.threads (reached : s.Reached) :
    ∃ history, Threads.Reached s.threads history := by
  induction reached with
  | start => exact ⟨[], .start⟩
  | move _ move ih =>
    obtain ⟨history, reached⟩ := ih
    cases move with
    | act _ _ step => exact ⟨_, reached.step step⟩
    | call _ => exact ⟨history, reached⟩
    | sleep _ _ _ => exact ⟨history, reached⟩
    | stir _ => exact ⟨history, reached⟩

/-! ## Who looks again -/

/-- Unless all are about to be woken, a parked thread will look again or is barred. -/
def Attended (s : Signals τ) : Prop :=
  s.calling = [] → ∀ t p, (t, p) ∈ s.threads.parked →
    t ∈ s.woken ∨ s.threads.lock.Bars t p.mode

theorem Attended.act (attended : s.Attended) {history : List (τ × Effect)}
    (reached : Threads.Reached s.threads history) (step : Step s.threads me effect w) :
    (s.act me effect w).Attended := by
  intro none t p mem
  have lock := reached.exclusive
  have quiet : effect.wakes w.lock = false := by
    refine Bool.eq_false_iff.2 fun wakes => ?_
    rw [Signals.act, if_pos wakes] at none
    cases none
  rw [Signals.act, quiet, if_neg Bool.false_ne_true] at none
  rcases step.parked_cases mem with ⟨old, other⟩ | ⟨-, same, waits⟩
  · rcases attended none t p old with woken | barred
    · exact Or.inl (List.mem_filter.2 ⟨woken, decide_eq_true other⟩)
    · exact Or.inr (step.bars_of_quiet lock quiet barred)
  · have barred := (tryAcquire?_eq_none_iff (not_writing_of_waits lock waits)).1 waits
    exact Or.inr (same ▸ barred)

/-- A thread that looked in vain is barred. -/
theorem Attended.sleep (attended : s.Attended) {history : List (τ × Effect)}
    (reached : Threads.Reached s.threads history) (parked : (me, p) ∈ s.threads.parked)
    (waits : s.threads.tryAcquire? me p = none) :
    Attended { s with woken := s.woken.filter (· ≠ me) } := by
  intro none t q mem
  by_cases same : t = me
  · subst same
    cases reached.parked_unique parked mem
    exact Or.inr ((tryAcquire?_eq_none_iff (reached.parked_not_writing parked)).1 waits)
  · rcases attended none t q mem with woken | barred
    · exact Or.inl (List.mem_filter.2 ⟨woken, decide_eq_true same⟩)
    · exact Or.inr barred

theorem Reached.attended (reached : s.Reached) : s.Attended := by
  induction reached with
  | start => exact fun _ _ _ mem => absurd mem List.not_mem_nil
  | move reached move ih =>
    obtain ⟨history, steps⟩ := reached.threads
    cases move with
    | act _ _ step => exact ih.act steps step
    | call _ => exact fun _ t p mem => Or.inl (List.mem_map_of_mem mem)
    | sleep _ parked waits => exact ih.sleep steps parked waits
    | stir _ => exact fun none t p mem => (ih none t p mem).imp_left (List.mem_cons_of_mem _)

/-- A step that wakes nobody frees no parked thread from what bars it, and asking for one's
holds changes nothing.  So when nobody is about to wake the others and all who were woken
have looked again, every parked thread is barred. -/
theorem barred_of_settled (reached : s.Reached) :
    (∀ me effect w, Step s.threads me effect w → effect.wakes w.lock = false →
      ∀ t p, (t, p) ∈ s.threads.parked → s.threads.lock.Bars t p.mode → w.lock.Bars t p.mode) ∧
      (∀ me, (s.threads.issue me .mine).2.2 = s.threads) ∧
      (s.calling = [] → s.woken = [] →
        ∀ t p, (t, p) ∈ s.threads.parked → s.threads.lock.Bars t p.mode) := by
  obtain ⟨history, steps⟩ := reached.threads
  refine ⟨fun me effect w step quiet t p _ => step.bars_of_quiet steps.exclusive quiet,
    fun me => ?_, fun uncalled settled t p mem => ?_⟩
  · unfold Threads.issue
    split <;> rfl
  · rcases reached.attended uncalled t p mem with woken | barred
    · rw [settled] at woken
      cases woken
    · exact barred

/-! ## One way for things to go -/

/-- Nobody is about to wake the others, and nobody was woken. -/
def settled (w : Threads τ) : Signals τ := ⟨w, [], []⟩

theorem Reached.act_settled (reached : (settled w).Reached) {w' : Threads τ}
    (free : w.isParked me = false) (step : Step w me effect w') :
    Reached ⟨w', if effect.wakes w'.lock then [me] else [], []⟩ :=
  reached.move (.act List.not_mem_nil (fun parked => by cases free.symm.trans parked) step)

theorem Reached.recheck {waiting : List (τ × Parked)}
    (reached : Reached ⟨w, [], waiting.map Prod.fst⟩)
    (sub : ∀ x ∈ waiting, x ∈ w.parked) (nodup : (waiting.map Prod.fst).Nodup) :
    (settled (w.recheck waiting).2).Reached := by
  induction waiting generalizing w with
  | nil => exact reached
  | cons x rest ih =>
    obtain ⟨t, p⟩ := x
    rw [List.map_cons, List.nodup_cons] at nodup
    obtain ⟨apart, nodup⟩ := nodup
    have mem := sub _ List.mem_cons_self
    -- the others that were woken are still to look
    have others : (((t, p) :: rest).map Prod.fst).filter (· ≠ t) = rest.map Prod.fst := by
      rw [List.map_cons, List.filter_cons_of_neg (by simp), List.filter_eq_self]
      exact fun u mem => decide_eq_true fun same => apart (same ▸ mem)
    unfold Threads.recheck
    split
    · rename_i w' granted
      have next := reached.move (.act List.not_mem_nil (fun _ => List.mem_cons_self)
        (.resume mem granted))
      have still : ∀ x ∈ rest, x ∈ (w'.unpark t).parked :=
        still_parked granted (fun x mem => sub x (List.mem_cons_of_mem _ mem)) apart
      rw [Signals.act, others] at next
      exact ih next still nodup
    · rename_i waits
      have next := reached.move (.sleep List.mem_cons_self mem waits)
      simp only [others] at next
      exact ih next (fun x mem => sub x (List.mem_cons_of_mem _ mem)) nodup

/-- A thread that gave back a hold wakes the others if there is reason to. -/
theorem Reached.wake {b : Bool} (reached : Reached ⟨w, if b then [me] else [], []⟩) :
    (settled (if b then w.recheck w.parked else ([], w)).2).Reached := by
  cases b with
  | false => exact reached
  | true =>
    have called := reached.move (.call (List.mem_singleton_self me))
    rw [if_pos rfl, List.erase_cons_head] at called
    obtain ⟨history, steps⟩ := reached.threads
    exact called.recheck (fun _ mem => mem) steps.nodup_parked

/-- Whatever a thread is let do, all who were woken have looked again afterwards. -/
theorem Reached.issue (reached : (settled w).Reached) (me : τ) (deed : Deed) :
    (settled (w.issue me deed).2.2).Reached := by
  unfold Threads.issue
  split
  · exact reached
  · rename_i free
    rw [Bool.not_eq_true] at free
    cases deed with
    | acquire mode guarded =>
      dsimp only
      split
      · rename_i w' granted
        exact reached.act_settled free (.acquire free granted)
      · rename_i waits
        exact reached.act_settled free (.park free waits)
    | release mode =>
      dsimp only
      cases given : release w.lock me mode with
      | ok l =>
        simp only [releaseAndWake, given]
        exact (reached.act_settled free (.release free given)).wake
      | error e =>
        simp only [releaseAndWake, given]
        exact reached
    | dropGuard index? =>
      simp only [Threads.dropGuard]
      split
      · exact reached
      · rename_i mode guard
        cases given : release w.lock me mode with
        | ok l =>
          simp only [releaseAndWake, setGuards, given]
          exact (reached.act_settled free (.drop free guard given)).wake
        | error e =>
          simp only [releaseAndWake, setGuards, given]
          exact reached.act_settled free (.dropSpent free guard given)
    | mine => exact reached

theorem Reached.issueAll (reached : (settled w).Reached) (deeds : List (τ × Deed)) :
    (settled (w.issueAll deeds)).Reached := by
  induction deeds generalizing w with
  | nil => exact reached
  | cons d deeds ih => exact ih (reached.issue d.1 d.2)

/-- Two readers, a reader that wants to write, and a thread that wants to read while it
does; the last read hold of the others lets the writer go on, and the reader has to wait. -/
def handover : List (Nat × Deed) := [
  (1, .acquire .read false), (2, .acquire .read true), (2, .acquire .write true),
  (1, .release .read), (3, .acquire .read false), (1, .acquire .write false)]

theorem barred_after_handover : ∃ s : Signals Nat, s.Reached ∧ s.calling = [] ∧ s.woken = [] ∧
    s.threads.parked = [(3, ⟨.read, false⟩), (1, ⟨.write, false⟩)] ∧
    (∀ t p, (t, p) ∈ s.threads.parked → s.threads.lock.Bars t p.mode) ∧
    ∃ w, Step s.threads 2 (.acquired .write) w ∧ w.parked = s.threads.parked ∧
      ∀ t p, (t, p) ∈ w.parked → w.lock.Bars t p.mode := by
  have reached : (settled (empty.issueAll handover)).Reached := Reached.start.issueAll handover
  obtain ⟨keeps, -, barred⟩ := barred_of_settled reached
  have barred := barred rfl rfl
  -- the writer writes once more, which wakes nobody
  obtain ⟨w, granted⟩ : ∃ w, (empty.issueAll handover).tryAcquire? 2 ⟨.write, false⟩ = some w :=
    ⟨_, rfl⟩
  have parked := parked_tryAcquire? granted
  have step := Step.acquire rfl granted
  refine ⟨_, reached, rfl, rfl, by decide, barred, w, step, parked, fun t p mem => ?_⟩
  have old := parked ▸ mem
  exact keeps 2 _ w step rfl t p old (barred t p old)

end Signals

end ReadThrough
