import Mathlib.Data.List.Nodup
import ReadThrough.Lock.Threads
import ReadThrough.Proofs.Lock.Exclusion

/-!
# Threads in any order

Threads take their steps at a lock in any order, and a thread that waits may go on at any
moment at which it need not wait, before or after others that wait, and whether it was
woken or not.  `Threads.issue` is one way for things to go; it lets the woken threads look
again in the order in which they began to wait.

* `Threads.Step` is one step of one thread, with what it did to the holds.
* `Threads.Reached w history`: steps that did `history`, the latest first, lead to `w`.
* `Threads.Reached.issue`: the states that `issue` leads to are among them.
* `Threads.exclusive_of_reached`: in all of them a writer is alone.
-/

namespace ReadThrough.Threads

variable {τ : Type}

/-- What a step did to the holds of the thread that took it. -/
inductive Effect where
  | acquired (mode : Mode)
  | released (mode : Mode)
  /-- The thread began to wait, or gave back what it did not have. -/
  | unchanged
  deriving DecidableEq

/-- The threads with other holds at the lock. -/
def withLock (w : Threads τ) (l : Lock τ) : Threads τ := { w with lock := l }

/-- The threads without the wait of one of them. -/
def unpark [DecidableEq τ] (w : Threads τ) (me : τ) : Threads τ :=
  { w with parked := w.parked.filter (·.1 ≠ me) }

variable [DecidableEq τ]

inductive Step : Threads τ → τ → Effect → Threads τ → Prop
  | acquire {w w' : Threads τ} {me : τ} {p : Parked} : w.isParked me = false →
    w.tryAcquire? me p = some w' → Step w me (.acquired p.mode) w'
  /-- The thread must wait. -/
  | park {w : Threads τ} {me : τ} {p : Parked} : w.isParked me = false →
    w.tryAcquire? me p = none → Step w me .unchanged { w with parked := w.parked ++ [(me, p)] }
  /-- A thread that waited need not wait any more. -/
  | resume {w w' : Threads τ} {me : τ} {p : Parked} : (me, p) ∈ w.parked →
    w.tryAcquire? me p = some w' → Step w me (.acquired p.mode) (w'.unpark me)
  | release {w : Threads τ} {me : τ} {mode : Mode} {l : Lock τ} : w.isParked me = false →
    release w.lock me mode = .ok l → Step w me (.released mode) (w.withLock l)
  /-- A release without a hold is refused. -/
  | refuse {w : Threads τ} {me : τ} {mode : Mode} {e : Fault} : w.isParked me = false →
    release w.lock me mode = .error e → Step w me .unchanged w
  | drop {w : Threads τ} {me : τ} {i : Nat} {mode : Mode} {l : Lock τ} :
    w.isParked me = false → (w.guardsOf me)[i]? = some mode → release w.lock me mode = .ok l →
    Step w me (.released mode) ((w.setGuards me ((w.guardsOf me).eraseIdx i)).withLock l)
  /-- The hold of the guard was given back before. -/
  | dropSpent {w : Threads τ} {me : τ} {i : Nat} {mode : Mode} {e : Fault} :
    w.isParked me = false → (w.guardsOf me)[i]? = some mode →
    release w.lock me mode = .error e →
    Step w me .unchanged (w.setGuards me ((w.guardsOf me).eraseIdx i))

inductive Reached : Threads τ → List (τ × Effect) → Prop
  | start : Reached .empty []
  | step {w w' : Threads τ} {history : List (τ × Effect)} {me : τ} {effect : Effect} :
    Reached w history → Step w me effect w' → Reached w' ((me, effect) :: history)

variable {w w' : Threads τ} {me t u : τ} {p : Parked} {effect : Effect}
variable {history : List (τ × Effect)}

/-! ## Waiting threads -/

theorem parked_tryAcquire? (granted : w.tryAcquire? me p = some w') : w'.parked = w.parked := by
  obtain ⟨l, -, rfl⟩ := Option.map_eq_some_iff.1 granted
  dsimp only
  split <;> rfl

theorem lock_tryAcquire? (granted : w.tryAcquire? me p = some w') :
    acquire? w.lock me p.mode = some w'.lock := by
  obtain ⟨l, acquired, rfl⟩ := Option.map_eq_some_iff.1 granted
  rw [acquired]
  dsimp only
  split <;> rfl

/-- When a waiting thread goes on, those that wait besides it are still parked. -/
theorem still_parked (granted : w.tryAcquire? t p = some w') {rest : List (τ × Parked)}
    (sub : ∀ x ∈ rest, x ∈ w.parked) (apart : t ∉ rest.map Prod.fst) :
    ∀ x ∈ rest, x ∈ (w'.unpark t).parked := by
  intro x mem
  rw [unpark, parked_tryAcquire? granted]
  refine List.mem_filter.2 ⟨sub x mem, decide_eq_true ?_⟩
  exact fun same => apart (List.mem_map.2 ⟨x, mem, same⟩)

theorem not_mem_of_not_isParked (free : w.isParked me = false) : me ∉ w.parked.map Prod.fst := by
  intro mem
  obtain ⟨x, mem', rfl⟩ := List.mem_map.1 mem
  exact List.any_eq_false.1 free x mem' (decide_eq_true rfl)

/-- A thread waits for one thing at a time. -/
theorem Step.nodup_parked (step : Step w me effect w') (nodup : (w.parked.map Prod.fst).Nodup) :
    (w'.parked.map Prod.fst).Nodup := by
  cases step with
  | acquire _ granted => rwa [parked_tryAcquire? granted]
  | park free _ =>
    rw [List.map_append]
    refine List.nodup_append.2 ⟨nodup, List.nodup_singleton me, fun t mem u mem' same => ?_⟩
    rw [same, List.mem_singleton.1 mem'] at mem
    exact not_mem_of_not_isParked free mem
  | resume _ granted =>
    rw [unpark, parked_tryAcquire? granted]
    exact nodup.sublist (List.filter_sublist.map _)
  | release _ _ => exact nodup
  | refuse _ _ => exact nodup
  | drop _ _ _ => exact nodup
  | dropSpent _ _ _ => exact nodup

theorem Reached.nodup_parked (reached : Reached w history) : (w.parked.map Prod.fst).Nodup := by
  induction reached with
  | start => exact List.nodup_nil
  | step _ step ih => exact step.nodup_parked ih

/-! ## One way for things to go -/

/-- More steps lead from a reached state to this one. -/
def Leads (history : List (τ × Effect)) (w' : Threads τ) : Prop :=
  ∃ more, Reached w' (more ++ history)

theorem Reached.leads (reached : Reached w history) : Leads history w := ⟨[], reached⟩

theorem Reached.leads_step (reached : Reached w history) (step : Step w me effect w') :
    Leads history w' :=
  ⟨[(me, effect)], reached.step step⟩

theorem Reached.recheck (reached : Reached w history) {waiting : List (τ × Parked)}
    (sub : ∀ x ∈ waiting, x ∈ w.parked) (nodup : (waiting.map Prod.fst).Nodup) :
    Leads history (w.recheck waiting).2 := by
  induction waiting generalizing w history with
  | nil => exact reached.leads
  | cons x rest ih =>
    obtain ⟨t, p⟩ := x
    rw [List.map_cons, List.nodup_cons] at nodup
    obtain ⟨apart, nodup⟩ := nodup
    unfold Threads.recheck
    split
    · rename_i w' granted
      have next := reached.step (.resume (sub _ List.mem_cons_self) granted)
      have still : ∀ x ∈ rest, x ∈ (w'.unpark t).parked :=
        still_parked granted (fun x mem => sub x (List.mem_cons_of_mem _ mem)) apart
      obtain ⟨more, rechecked⟩ := ih next still nodup
      exact ⟨more ++ [(t, .acquired p.mode)], by rwa [List.append_assoc]⟩
    · exact ih reached (fun x mem => sub x (List.mem_cons_of_mem _ mem)) nodup

theorem Reached.wake (reached : Reached w history) (b : Bool) :
    Leads history (if b then w.recheck w.parked else ([], w)).2 := by
  split
  · exact reached.recheck (fun _ mem => mem) reached.nodup_parked
  · exact reached.leads

theorem Leads.trans (leads : ∃ more, Reached w (more ++ history))
    (next : ∀ {history}, Reached w history → Leads history w') : Leads history w' := by
  obtain ⟨more, reached⟩ := leads
  obtain ⟨more', reached'⟩ := next reached
  exact ⟨more' ++ more, by rwa [List.append_assoc]⟩

/-- Whatever a thread is let do, steps lead there. -/
theorem Reached.issue (reached : Reached w history) (me : τ) (deed : Deed) :
    Leads history (w.issue me deed).2.2 := by
  unfold Threads.issue
  split
  · exact reached.leads
  · rename_i free
    rw [Bool.not_eq_true] at free
    cases deed with
    | acquire mode guarded =>
      dsimp only
      split
      · rename_i w' granted
        exact reached.leads_step (.acquire free granted)
      · rename_i waits
        exact reached.leads_step (.park free waits)
    | release mode =>
      dsimp only
      cases given : release w.lock me mode with
      | ok l =>
        simp only [releaseAndWake, given]
        exact .trans (reached.leads_step (.release free given)) fun next => next.wake _
      | error e =>
        simp only [releaseAndWake, given]
        exact reached.leads
    | dropGuard index? =>
      simp only [Threads.dropGuard]
      split
      · exact reached.leads
      · rename_i mode guard
        cases given : release w.lock me mode with
        | ok l =>
          simp only [releaseAndWake, setGuards, given]
          exact .trans (reached.leads_step (.drop free guard given)) fun next => next.wake _
        | error e =>
          simp only [releaseAndWake, setGuards, given]
          exact reached.leads_step (.dropSpent free guard given)
    | mine => exact reached.leads

/-- The threads after deeds that are let be done one after another. -/
def issueAll (w : Threads τ) (deeds : List (τ × Deed)) : Threads τ :=
  deeds.foldl (fun w d => (w.issue d.1 d.2).2.2) w

theorem Reached.issueAll (reached : Reached w history) (deeds : List (τ × Deed)) :
    Leads history (w.issueAll deeds) := by
  induction deeds generalizing w history with
  | nil => exact reached.leads
  | cons d deeds ih => exact .trans (reached.issue d.1 d.2) ih

/-! ## Exclusion -/

theorem exclusive_acquire? {l l' : Lock τ} {mode : Mode} (lock : l.Exclusive)
    (granted : acquire? l me mode = some l') : l'.Exclusive := by
  cases mode with
  | read => exact lock.acquireRead granted
  | write => exact lock.acquireWrite granted

theorem exclusive_release {l l' : Lock τ} {mode : Mode} (lock : l.Exclusive)
    (given_back : release l me mode = .ok l') : l'.Exclusive := by
  cases mode with
  | read => exact lock.releaseRead given_back
  | write => exact lock.releaseWrite given_back

theorem Step.exclusive (step : Step w me effect w') (lock : w.lock.Exclusive) :
    w'.lock.Exclusive := by
  cases step with
  | acquire _ granted => exact exclusive_acquire? lock (lock_tryAcquire? granted)
  | park _ _ => exact lock
  | resume _ granted =>
    have acquired := lock_tryAcquire? granted
    exact exclusive_acquire? lock acquired
  | release _ given_back => exact exclusive_release lock given_back
  | refuse _ _ => exact lock
  | drop _ _ given_back => exact exclusive_release lock given_back
  | dropSpent _ _ _ => exact lock

theorem Reached.exclusive (reached : Reached w history) : w.lock.Exclusive := by
  induction reached with
  | start => exact Lock.exclusive_free
  | step _ step ih => exact step.exclusive ih

/-- However the steps of the threads follow each other, recorded counts are positive, only
the writer may read beside itself, and so a thread that writes holds the lock alone. -/
theorem exclusive_of_reached (reached : Reached w history) :
    w.lock.Exclusive ∧
      ∀ t u, w.lock.writesBy t = true → w.lock.heldBy u = true → u = t :=
  ⟨reached.exclusive, fun _ _ writes held => reached.exclusive.alone writes held⟩

/-- The only reader writes as well, while one thread waits to write and another to read; the
latter goes on first. -/
def upgrade : List (Nat × Deed) := [
  (1, .acquire .read true), (2, .acquire .write false), (1, .acquire .write false),
  (3, .acquire .read false), (1, .release .write), (3, .release .read), (1, .dropGuard none)]

theorem exclusive_after_upgrade : ∃ w history, w = empty.issueAll upgrade ∧ Reached w history ∧
    w.lock.writesBy 2 = true ∧ w.lock.Exclusive ∧
      ∀ t u, w.lock.writesBy t = true → w.lock.heldBy u = true → u = t := by
  obtain ⟨history, reached⟩ := Reached.start.issueAll upgrade
  exact ⟨_, _, rfl, reached, by decide, exclusive_of_reached reached⟩

end ReadThrough.Threads
