import ReadThrough.Proofs.Lock.Interleaving

/-!
# The account of holds

A lock keeps a count for each thread that reads and one for the writer, and nothing of how
these came about.  The counts are nevertheless exact: over any run of steps each is the
number of holds that the thread acquired less the number that it gave back.

* `Lock.holds l t m`: how many holds of mode `m` the lock records for thread `t`.
* `Threads.balance history t m`: holds acquired less holds given back.
* `Step.holds_eq` is what one step does to the counts, and `Reached.holds_eq` what a run does.
* `Threads.accounts_of_reached`: the lock agrees with the history, refuses exactly the
  releases that are not covered, and changes nothing of other threads.
-/

namespace ReadThrough

/-- What a thread is told that gives back a hold which it does not have. -/
def Mode.misuse : Mode → Misuse
  | .read => .notReading
  | .write => .notWriting

namespace Lock

variable {τ : Type} [DecidableEq τ] {l l' : Lock τ} {me t : τ} {m mode : Mode} {n : Nat}

/-- How many holds of a mode are recorded for a thread. -/
def holds (l : Lock τ) (t : τ) : Mode → Nat
  | .read => (l.readers.get? t).getD 0
  | .write =>
    match l.writer? with
    | some (owner, n) => if owner = t then n else 0
    | none => 0

@[simp] theorem holds_free : (free : Lock τ).holds t m = 0 := by
  cases m <;> rfl

theorem holds_write_of_writer {owner : τ} (writes : l.writer? = some (owner, n)) :
    l.holds t .write = if owner = t then n else 0 := by
  rw [holds, writes]

theorem holds_write_of_none (unwritten : l.writer? = none) : l.holds t .write = 0 := by
  rw [holds, unwritten]

/-! ## What is recorded, by counts -/

namespace Exclusive

theorem readers_get?_iff (lock : l.Exclusive) :
    l.readers.get? t = some n ↔ 0 < n ∧ l.holds t .read = n := by
  rw [holds]
  cases counted : l.readers.get? t with
  | none =>
    simp only [Option.getD_none, reduceCtorEq, false_iff]
    rintro ⟨pos, rfl⟩
    exact Nat.lt_irrefl 0 pos
  | some k =>
    have pos := lock.readers_pos t k ((Index.mem_pairs_iff _ _ _).2 counted)
    rw [Option.getD_some, Option.some.injEq]
    exact ⟨fun same => ⟨same ▸ pos, same⟩, fun both => both.2⟩

theorem readers_get?_eq_none_iff (lock : l.Exclusive) :
    l.readers.get? t = none ↔ l.holds t .read = 0 := by
  constructor
  · intro absent
    rw [holds, absent]
    rfl
  · intro nothing
    refine Option.eq_none_iff_forall_ne_some.2 fun k counted => ?_
    obtain ⟨pos, same⟩ := lock.readers_get?_iff.1 counted
    rw [nothing] at same
    exact Nat.lt_irrefl 0 (same ▸ pos)

theorem writer?_iff (lock : l.Exclusive) :
    l.writer? = some (t, n) ↔ 0 < n ∧ l.holds t .write = n := by
  cases writer : l.writer? with
  | none =>
    rw [holds_write_of_none writer]
    simp only [reduceCtorEq, false_iff]
    rintro ⟨pos, rfl⟩
    exact Nat.lt_irrefl 0 pos
  | some both =>
    obtain ⟨owner, k⟩ := both
    have pos := lock.writer_pos owner k writer
    rw [holds_write_of_writer writer, Option.some.injEq, Prod.mk.injEq]
    constructor
    · rintro ⟨rfl, rfl⟩
      exact ⟨pos, if_pos rfl⟩
    · rintro ⟨pos', same⟩
      split at same
      · rename_i mine
        exact ⟨mine, same⟩
      · rw [← same] at pos'
        exact absurd pos' (Nat.lt_irrefl 0)

/-- A lock is free if nobody has a hold. -/
theorem isLocked_eq_false_iff (lock : l.Exclusive) :
    l.isLocked = false ↔ ∀ t m, l.holds t m = 0 := by
  rw [isLocked, Bool.or_eq_false_iff, Option.isSome_eq_false_iff, Option.isNone_iff_eq_none,
    Bool.not_eq_false', Index.isEmpty, List.isEmpty_iff]
  constructor
  · rintro ⟨unwritten, unread⟩ t m
    cases m with
    | read =>
      refine lock.readers_get?_eq_none_iff.1 ?_
      refine Option.eq_none_iff_forall_ne_some.2 fun k counted => ?_
      have mem := (Index.mem_pairs_iff _ _ _).2 counted
      rw [unread] at mem
      cases mem
    | write => exact holds_write_of_none unwritten
  · intro nothing
    refine ⟨Option.eq_none_iff_forall_ne_some.2 fun (t, k) writes => ?_,
      List.eq_nil_iff_forall_not_mem.2 fun (t, k) mem => ?_⟩
    · obtain ⟨pos, same⟩ := lock.writer?_iff.1 writes
      rw [nothing t] at same
      exact Nat.lt_irrefl 0 (same ▸ pos)
    · obtain ⟨pos, same⟩ := lock.readers_get?_iff.1 ((Index.mem_pairs_iff _ _ _).1 mem)
      rw [nothing t] at same
      exact Nat.lt_irrefl 0 (same ▸ pos)

end Exclusive

/-! ## What the operations do to the counts -/

theorem holds_acquireRead (granted : l.acquireRead? me = some l') :
    l'.holds t m = l.holds t m + if t = me ∧ m = .read then 1 else 0 := by
  unfold acquireRead? at granted
  split at granted
  · cases granted
  · cases granted
    cases m with
    | read =>
      simp only [holds, Index.get?_insert, and_true]
      split
      · rename_i same
        rw [same, Option.getD_some]
      · rfl
    | write => simp [holds]

/-- A thread that is granted a write hold writes already, or nobody does. -/
theorem writer?_acquireWrite (granted : l.acquireWrite? me = some l') :
    (∃ n, l.writer? = some (me, n) ∧ l' = { l with writer? := some (me, n + 1) }) ∨
      l.writer? = none ∧ l.foreignReaders me = false ∧ l' = { l with writer? := some (me, 1) } := by
  unfold acquireWrite? at granted
  split at granted
  · cases granted
  · rename_i need_not
    rw [mustWaitWrite, writesBy] at need_not
    split at granted
    · rename_i owner n writes
      cases granted
      have mine : owner = me := by
        rw [writes] at need_not
        simpa using need_not
      exact Or.inl ⟨n, mine ▸ writes, by rw [mine]⟩
    · rename_i unwritten
      cases granted
      have alone : l.foreignReaders me = false := by
        rw [unwritten] at need_not
        simpa using need_not
      exact Or.inr ⟨unwritten, alone, rfl⟩

theorem holds_acquireWrite (granted : l.acquireWrite? me = some l') :
    l'.holds t m = l.holds t m + if t = me ∧ m = .write then 1 else 0 := by
  rcases writer?_acquireWrite granted with ⟨n, writes, rfl⟩ | ⟨unwritten, -, rfl⟩
  · cases m with
    | read => simp [holds]
    | write =>
      simp only [holds, writes, and_true, eq_comm (a := t)]
      split <;> rfl
  · cases m with
    | read => simp [holds]
    | write => simp [holds, unwritten, eq_comm (a := t)]

theorem holds_releaseRead (lock : l.Exclusive) (given_back : l.releaseRead me = .ok l') :
    l'.holds t m + (if t = me ∧ m = .read then 1 else 0) = l.holds t m := by
  unfold releaseRead at given_back
  split at given_back
  · cases given_back
  · rename_i n reads
    have pos : 1 ≤ n := lock.readers_pos me n ((Index.mem_pairs_iff _ _ _).2 reads)
    split at given_back
    · rename_i last
      cases given_back
      cases m with
      | read =>
        simp only [holds, Index.get?_erase, and_true]
        split
        · rename_i same
          rw [same, reads, Option.getD_some, Option.getD_none]
          omega
        · rfl
      | write => simp [holds]
    · cases given_back
      cases m with
      | read =>
        simp only [holds, Index.get?_insert, and_true]
        split
        · rename_i same
          rw [same, reads, Option.getD_some, Option.getD_some]
          omega
        · rfl
      | write => simp [holds]

theorem holds_releaseWrite (lock : l.Exclusive) (given_back : l.releaseWrite me = .ok l') :
    l'.holds t m + (if t = me ∧ m = .write then 1 else 0) = l.holds t m := by
  unfold releaseWrite at given_back
  split at given_back
  · rename_i owner n writes
    split at given_back
    · rename_i mine
      cases given_back
      have pos : 1 ≤ n := lock.writer_pos owner n writes
      cases m with
      | read => simp [holds]
      | write =>
        rw [holds_write_of_writer writes, mine]
        by_cases last : n - 1 = 0
        · simp only [holds, if_pos last, and_true, eq_comm (a := t)]
          split <;> omega
        · simp only [holds, if_neg last, and_true, eq_comm (a := t)]
          split <;> omega
    · cases given_back
  · cases given_back

theorem releaseRead_eq_error_iff {e : Fault} :
    l.releaseRead me = .error e ↔ e = .lockMisuse .notReading ∧ l.readers.get? me = none := by
  unfold releaseRead
  cases reads : l.readers.get? me with
  | none => simp [eq_comm]
  | some n =>
    dsimp only
    split <;> simp

theorem releaseWrite_eq_error_iff {e : Fault} :
    l.releaseWrite me = .error e ↔
      e = .lockMisuse .notWriting ∧ ∀ n, l.writer? ≠ some (me, n) := by
  unfold releaseWrite
  cases writer : l.writer? with
  | none => simp [eq_comm]
  | some both =>
    obtain ⟨owner, n⟩ := both
    dsimp only
    split
    · rename_i mine
      simp [mine]
    · rename_i other
      simp [Ne.symm other, eq_comm]

end Lock

namespace Threads

variable {τ : Type} [DecidableEq τ] {l l' : Lock τ} {w w' : Threads τ} {me t : τ}
variable {m mode : Mode} {n : Nat} {e : Fault} {effect : Effect} {history : List (τ × Effect)}

/-- The difference that an effect makes to the holds of a mode. -/
def Effect.change (m : Mode) : Effect → Int
  | .acquired mode => if m = mode then 1 else 0
  | .released mode => if m = mode then -1 else 0
  | .unchanged => 0

theorem holds_acquire? (granted : acquire? l me mode = some l') :
    (l'.holds t m : Int) =
      l.holds t m + if t = me then (Effect.acquired mode).change m else 0 := by
  have counted : l'.holds t m = l.holds t m + if t = me ∧ m = mode then 1 else 0 := by
    cases mode with
    | read => exact Lock.holds_acquireRead granted
    | write => exact Lock.holds_acquireWrite granted
  rw [counted, Effect.change]
  by_cases mine : t = me <;> by_cases same : m = mode <;> simp [mine, same]

theorem holds_release (lock : l.Exclusive) (given_back : release l me mode = .ok l') :
    (l'.holds t m : Int) =
      l.holds t m + if t = me then (Effect.released mode).change m else 0 := by
  have counted : l'.holds t m + (if t = me ∧ m = mode then 1 else 0) = l.holds t m := by
    cases mode with
    | read => exact Lock.holds_releaseRead lock given_back
    | write => exact Lock.holds_releaseWrite lock given_back
  rw [← counted, Effect.change]
  by_cases both : t = me ∧ m = mode
  · rw [if_pos both, if_pos both.1, if_pos both.2]
    omega
  · rw [if_neg both]
    by_cases mine : t = me
    · rw [if_pos mine, if_neg fun same => both ⟨mine, same⟩, Int.add_zero, Nat.add_zero]
    · rw [if_neg mine, Int.add_zero, Nat.add_zero]

/-- A release is refused to a thread that has no hold of the mode. -/
theorem release_eq_error_iff (lock : l.Exclusive) :
    release l me mode = .error e ↔ e = .lockMisuse mode.misuse ∧ l.holds me mode = 0 := by
  cases mode with
  | read => rw [release, Lock.releaseRead_eq_error_iff, lock.readers_get?_eq_none_iff]; rfl
  | write =>
    rw [release, Lock.releaseWrite_eq_error_iff]
    refine and_congr_right fun _ => ⟨fun other => ?_, fun nothing n writes => ?_⟩
    · refine Nat.eq_zero_of_not_pos fun pos => ?_
      exact other _ (lock.writer?_iff.2 ⟨pos, rfl⟩)
    · obtain ⟨pos, same⟩ := lock.writer?_iff.1 writes
      rw [nothing] at same
      exact Nat.lt_irrefl 0 (same ▸ pos)

/-! ## Steps -/

/-- A step changes the holds of its thread by its effect, and no others. -/
theorem Step.holds_eq (step : Step w me effect w') (lock : w.lock.Exclusive) :
    (w'.lock.holds t m : Int) = w.lock.holds t m + if t = me then effect.change m else 0 := by
  have unchanged : (w.lock.holds t m : Int) =
      w.lock.holds t m + if t = me then Effect.unchanged.change m else 0 := by
    rw [Effect.change, ite_self, Int.add_zero]
  cases step with
  | acquire _ granted => exact holds_acquire? (lock_tryAcquire? granted)
  | park _ _ => exact unchanged
  | resume _ granted =>
    have granted := lock_tryAcquire? granted
    exact holds_acquire? granted
  | release _ given_back => exact holds_release lock given_back
  | refuse _ _ => exact unchanged
  | drop _ _ given_back => exact holds_release lock given_back
  | dropSpent _ _ _ => exact unchanged

/-! ## Runs -/

/-- The holds of a mode that a thread acquired, less those that it gave back. -/
def balance (history : List (τ × Effect)) (t : τ) (m : Mode) : Int :=
  history.count (t, .acquired m) - history.count (t, .released m)

theorem balance_cons : balance ((me, effect) :: history) t m =
    balance history t m + if t = me then effect.change m else 0 := by
  unfold balance
  rw [List.count_cons, List.count_cons]
  by_cases mine : t = me
  · subst mine
    rw [if_pos rfl]
    cases effect with
    | acquired mode =>
      simp only [Effect.change, beq_iff_eq, Prod.mk.injEq, true_and, Effect.acquired.injEq,
        reduceCtorEq, if_false, eq_comm (a := m)]
      split <;> omega
    | released mode =>
      simp only [Effect.change, beq_iff_eq, Prod.mk.injEq, true_and, Effect.released.injEq,
        reduceCtorEq, if_false, eq_comm (a := m)]
      split <;> omega
    | unchanged => simp [Effect.change]
  · simp [mine, Ne.symm mine]

/-- What the lock records for a thread is its balance. -/
theorem Reached.holds_eq (reached : Reached w history) :
    (w.lock.holds t m : Int) = balance history t m := by
  induction reached with
  | start => simp [empty, balance]
  | step reached step ih => rw [step.holds_eq reached.exclusive, ih, balance_cons]

/-- The lock agrees with the history. -/
structure Accounts (w : Threads τ) (history : List (τ × Effect)) : Prop where
  reads : ∀ t n, w.lock.readers.get? t = some n ↔ 0 < n ∧ balance history t .read = n
  reads_not : ∀ t, w.lock.readers.get? t = none ↔ balance history t .read = 0
  writes : ∀ t n, w.lock.writer? = some (t, n) ↔ 0 < n ∧ balance history t .write = n
  /-- A release, by a guard or not, is refused if nothing is left to give back. -/
  refused : ∀ t m e, w.releaseAndWake t m = .error e ↔
    e = .lockMisuse m.misuse ∧ balance history t m = 0
  /-- A refused release changes nothing. -/
  release_refused : ∀ t m, w.isParked t = false → balance history t m = 0 →
    w.issue t (.release m) = (.failed (.lockMisuse m.misuse), [], w)
  /-- A guard whose release is refused is gone afterwards, and nothing else. -/
  drop_refused : ∀ t i m, w.isParked t = false → (w.guardsOf t)[i]? = some m →
    balance history t m = 0 → w.issue t (.dropGuard (some i)) =
      (.dropped m, [], w.setGuards t ((w.guardsOf t).eraseIdx i))
  /-- Whatever a thread does, the counts of others stay. -/
  others : ∀ me effect w', Step w me effect w' → ∀ t, t ≠ me →
    w'.lock.readers.get? t = w.lock.readers.get? t ∧
      ∀ n, w'.lock.writer? = some (t, n) ↔ w.lock.writer? = some (t, n)
  locked : w.lock.isLocked = false ↔ ∀ t m, balance history t m = 0

theorem releaseAndWake_eq_error_iff :
    w.releaseAndWake me mode = .error e ↔ release w.lock me mode = .error e := by
  unfold releaseAndWake
  cases release w.lock me mode <;> simp

theorem accounts_of_reached (reached : Reached w history) : Accounts w history := by
  have lock := reached.exclusive
  have held : ∀ {t m} {n : Nat}, balance history t m = n ↔ w.lock.holds t m = n := by
    intro t m n
    rw [← reached.holds_eq, Int.ofNat_inj]
  have nothing : ∀ {t m}, balance history t m = 0 ↔ w.lock.holds t m = 0 := held (n := 0)
  have refused : ∀ t m e, w.releaseAndWake t m = .error e ↔
      e = .lockMisuse m.misuse ∧ balance history t m = 0 := by
    intro t m e
    rw [releaseAndWake_eq_error_iff, release_eq_error_iff lock, nothing]
  refine ⟨fun t n => ?_, fun t => ?_, fun t n => ?_, refused, fun t m free spent => ?_,
    fun t i m free guard spent => ?_, fun me effect w' step t other => ?_, ?_⟩
  · rw [held, lock.readers_get?_iff]
  · rw [nothing, lock.readers_get?_eq_none_iff]
  · rw [held, lock.writer?_iff]
  · rw [issue, free]
    simp only [(refused t m _).2 ⟨rfl, spent⟩, Bool.false_eq_true, if_false]
  · have fails : release w.lock t m = .error (.lockMisuse m.misuse) :=
      (release_eq_error_iff lock).2 ⟨rfl, nothing.1 spent⟩
    simp only [issue, free, Threads.dropGuard, Option.getD_some, guard, releaseAndWake, setGuards,
      fails, Bool.false_eq_true, if_false]
  · have same : ∀ m, w'.lock.holds t m = w.lock.holds t m := by
      intro m
      have counted := step.holds_eq lock (t := t) (m := m)
      rw [if_neg other] at counted
      omega
    have lock' := step.exclusive lock
    refine ⟨Option.ext fun n => ?_, fun n => ?_⟩
    · rw [lock'.readers_get?_iff, lock.readers_get?_iff, same]
    · rw [lock'.writer?_iff, lock.writer?_iff, same]
  · rw [lock.isLocked_eq_false_iff]
    exact forall_congr' fun t => forall_congr' fun m => nothing.symm

/-- The only reader writes as well and gives its read hold back, so that its guard has nothing
to give back; another thread tries to end the write, and the writer writes once more. -/
def overdrawn : List (Nat × Effect) := [
  (1, .acquired .write), (2, .unchanged), (1, .unchanged), (1, .released .read),
  (1, .acquired .write), (1, .acquired .read)]

theorem accounts_overdrawn : ∃ w, Reached w overdrawn ∧ w.lock.writer? = some (1, 2) ∧
    w.lock.readers.get? 1 = none ∧ w.guardsOf 1 = [] ∧ Accounts w overdrawn := by
  have reached : ∃ w, Reached w overdrawn ∧ w.lock.writer? = some (1, 2) ∧
      w.lock.readers.get? 1 = none ∧ w.guardsOf 1 = [] := by
    refine ⟨_, .step (.step (.step (.step (.step (.step .start
      (.acquire (p := ⟨.read, true⟩) rfl rfl)) (.acquire (p := ⟨.write, false⟩) rfl rfl))
      (.release rfl (show release _ _ .read = .ok _ from rfl)))
      (.dropSpent (i := 0) rfl (show _ = some .read from rfl) rfl))
      (.refuse rfl (show release _ _ .write = .error _ from rfl)))
      (.acquire (p := ⟨.write, false⟩) rfl rfl), ?_⟩
    decide
  obtain ⟨w, reached, facts⟩ := reached
  exact ⟨w, reached, facts.1, facts.2.1, facts.2.2, accounts_of_reached reached⟩

end Threads

end ReadThrough
