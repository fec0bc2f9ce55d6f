import ReadThrough.Proofs.Lock.Accounts

/-!
# Who waits for whom

A thread waits to read while another one writes, and to write while any thread writes or
another one reads.  Nothing but giving back holds can make an end of that.

* `Lock.Bars l t m`: the lock bars thread `t` from a hold of mode `m`.
* `Threads.tryAcquire?_eq_none_iff`: a thread that does not write is granted a hold unless it
  is barred, and `Reached.parked_not_writing`: a parked thread does not write.
* `Step.pos_holds_of_quiet`: in a step that wakes nobody no thread loses the last hold of a
  mode, so that whoever was barred is barred afterwards.
* `Step.entangled`: two readers that wait to write both go on waiting, whatever others do.
* `Threads.entangled_of_barred`: no other threads can all be barred by each other.
-/

namespace ReadThrough

namespace Lock

variable {τ : Type} [DecidableEq τ] {l l' : Lock τ} {t u : τ} {m : Mode}

/-- What keeps a thread waiting. -/
def Bars (l : Lock τ) (t : τ) : Mode → Prop
  | .read => ∃ u, u ≠ t ∧ l.writesBy u = true
  | .write => (∃ u, l.writesBy u = true) ∨ ∃ u, u ≠ t ∧ l.readsBy u = true

theorem acquireRead?_eq_none_iff : l.acquireRead? t = none ↔ l.Bars t .read := by
  unfold acquireRead? mustWaitRead foreignWriter Bars
  cases writer : l.writer? with
  | none => simp [writesBy, writer]
  | some both =>
    obtain ⟨owner, n⟩ := both
    simp [writesBy, writer]

theorem acquireWrite?_eq_none_iff (idle : l.writesBy t = false) :
    l.acquireWrite? t = none ↔ l.Bars t .write := by
  have foreign : l.foreignReaders t = true ↔ ∃ u, u ≠ t ∧ l.readsBy u = true := by
    rw [← Bool.not_eq_false, foreignReaders_eq_false_iff]
    simp only [not_forall, readsBy_iff, exists_prop, and_comm]
  have written : l.writer?.isSome = true ↔ ∃ u, l.writesBy u = true := by
    simp only [writesBy_iff, Option.isSome_iff_exists, Prod.exists]
  have waits : l.mustWaitWrite t = true ↔ l.Bars t .write := by
    rw [mustWaitWrite, idle, Bool.not_false, Bool.true_and, Bool.or_eq_true, written, foreign]
    rfl
  rw [← waits, acquireWrite?]
  split
  · rename_i wait
    exact iff_of_true rfl wait
  · rename_i need_not
    split <;> exact iff_of_false (Option.some_ne_none _) need_not

namespace Exclusive

theorem readsBy_iff_pos (lock : l.Exclusive) : l.readsBy t = true ↔ 0 < l.holds t .read := by
  rw [readsBy_iff, Index.mem_keys_iff]
  constructor
  · rintro ⟨n, counted⟩
    obtain ⟨pos, rfl⟩ := lock.readers_get?_iff.1 counted
    exact pos
  · intro pos
    exact ⟨_, lock.readers_get?_iff.2 ⟨pos, rfl⟩⟩

theorem writesBy_iff_pos (lock : l.Exclusive) : l.writesBy t = true ↔ 0 < l.holds t .write := by
  rw [writesBy_iff]
  constructor
  · rintro ⟨n, counted⟩
    obtain ⟨pos, rfl⟩ := lock.writer?_iff.1 counted
    exact pos
  · intro pos
    exact ⟨_, lock.writer?_iff.2 ⟨pos, rfl⟩⟩

theorem eq_of_writesBy (lock : l.Exclusive) (writes : l.writesBy t = true)
    (writes' : l.writesBy u = true) : u = t :=
  lock.alone writes (by rw [heldBy, writes', Bool.or_true])

/-- Who is barred stays barred as long as no thread loses the last hold of a mode. -/
theorem bars_of_pos (lock : l.Exclusive) (lock' : l'.Exclusive)
    (keeps : ∀ u m, 0 < l.holds u m → 0 < l'.holds u m) (barred : l.Bars t m) : l'.Bars t m := by
  have writes : ∀ u, l.writesBy u = true → l'.writesBy u = true := fun u =>
    (lock'.writesBy_iff_pos.2 ∘ keeps u .write ∘ lock.writesBy_iff_pos.1)
  have reads : ∀ u, l.readsBy u = true → l'.readsBy u = true := fun u =>
    (lock'.readsBy_iff_pos.2 ∘ keeps u .read ∘ lock.readsBy_iff_pos.1)
  cases m with
  | read =>
    obtain ⟨u, other, writing⟩ := barred
    exact ⟨u, other, writes u writing⟩
  | write =>
    rcases barred with ⟨u, writing⟩ | ⟨u, other, reading⟩
    · exact Or.inl ⟨u, writes u writing⟩
    · exact Or.inr ⟨u, other, reads u reading⟩

end Exclusive

end Lock

namespace Threads

variable {τ : Type} [DecidableEq τ] {w w' : Threads τ} {me t u : τ} {p q : Parked} {m : Mode}
variable {effect : Effect} {history : List (τ × Effect)}

theorem tryAcquire?_eq_none_iff (idle : w.lock.writesBy t = false) :
    w.tryAcquire? t p = none ↔ w.lock.Bars t p.mode := by
  rw [tryAcquire?, Option.map_eq_none_iff]
  cases p.mode with
  | read => exact Lock.acquireRead?_eq_none_iff
  | write => exact Lock.acquireWrite?_eq_none_iff idle

/-- A writer need not wait for anything. -/
theorem not_writing_of_waits (lock : w.lock.Exclusive) (waits : w.tryAcquire? t p = none) :
    w.lock.writesBy t = false := by
  refine Bool.eq_false_iff.2 fun writes => ?_
  rw [tryAcquire?, Option.map_eq_none_iff] at waits
  cases mode : p.mode with
  | read =>
    rw [mode] at waits
    obtain ⟨u, other, writes'⟩ := Lock.acquireRead?_eq_none_iff.1 waits
    exact other (lock.eq_of_writesBy writes writes')
  | write =>
    rw [mode, acquire?, Lock.acquireWrite?, Lock.mustWaitWrite, writes] at waits
    simp only [Bool.not_true, Bool.false_and, Bool.false_eq_true, if_false] at waits
    split at waits <;> cases waits

/-! ## Steps -/

theorem Step.holds_of_ne (step : Step w me effect w') (lock : w.lock.Exclusive) (other : t ≠ me) :
    w'.lock.holds t m = w.lock.holds t m := by
  have counted := step.holds_eq lock (t := t) (m := m)
  rw [if_neg other] at counted
  omega

/-- Who is parked after a step was so before it, or must wait and is barred from now on. -/
theorem Step.parked_cases (step : Step w me effect w') (mem : (t, p) ∈ w'.parked) :
    (t, p) ∈ w.parked ∧ t ≠ me ∨ t = me ∧ w'.lock = w.lock ∧ w.tryAcquire? t p = none := by
  have apart : w.isParked me = false → (t, p) ∈ w.parked → (t, p) ∈ w.parked ∧ t ≠ me :=
    fun free mem => ⟨mem, fun same => not_mem_of_not_isParked free (same ▸ List.mem_map_of_mem mem)⟩
  cases step with
  | acquire free granted => exact Or.inl (apart free (parked_tryAcquire? granted ▸ mem))
  | park free waits =>
    rcases List.mem_append.1 mem with old | new
    · exact Or.inl (apart free old)
    · cases List.mem_singleton.1 new
      exact Or.inr ⟨rfl, rfl, waits⟩
  | resume _ granted =>
    rw [unpark, parked_tryAcquire? granted] at mem
    obtain ⟨old, other⟩ := List.mem_filter.1 mem
    exact Or.inl ⟨old, of_decide_eq_true other⟩
  | release free _ => exact Or.inl (apart free mem)
  | refuse free _ => exact Or.inl (apart free mem)
  | drop free _ _ => exact Or.inl (apart free mem)
  | dropSpent free _ _ => exact Or.inl (apart free mem)

/-- Others stay parked. -/
theorem Step.parked_of_ne (step : Step w me effect w') (mem : (t, p) ∈ w.parked)
    (other : t ≠ me) : (t, p) ∈ w'.parked := by
  cases step with
  | acquire _ granted => exact parked_tryAcquire? granted ▸ mem
  | park _ _ => exact List.mem_append_left _ mem
  | resume _ granted =>
    rw [unpark, parked_tryAcquire? granted]
    exact List.mem_filter.2 ⟨mem, decide_eq_true other⟩
  | release _ _ => exact mem
  | refuse _ _ => exact mem
  | drop _ _ _ => exact mem
  | dropSpent _ _ _ => exact mem

/-- A thread that is parked can but go on with what it waits for. -/
theorem Step.granted_of_parked (step : Step w me effect w') (parked : w.isParked me = true) :
    ∃ p w₁, (me, p) ∈ w.parked ∧ w.tryAcquire? me p = some w₁ := by
  cases step with
  | resume mem granted => exact ⟨_, _, mem, granted⟩
  | acquire free _ => cases free.symm.trans parked
  | park free _ => cases free.symm.trans parked
  | release free _ => cases free.symm.trans parked
  | refuse free _ => cases free.symm.trans parked
  | drop free _ _ => cases free.symm.trans parked
  | dropSpent free _ _ => cases free.symm.trans parked

/-- Whether a step that leaves this lock wakes the parked threads. -/
def Effect.wakes (l : Lock τ) : Effect → Bool
  | .released mode => Threads.wakes l mode
  | _ => false

/-- A thread loses the last hold of a mode only in a step that wakes the parked threads. -/
theorem Step.pos_holds_of_quiet (step : Step w me effect w') (lock : w.lock.Exclusive)
    (quiet : effect.wakes w'.lock = false) (pos : 0 < w.lock.holds u m) :
    0 < w'.lock.holds u m := by
  by_cases other : u = me
  case neg => rwa [step.holds_of_ne lock other]
  subst other
  have counted := step.holds_eq lock (t := u) (m := m)
  rw [if_pos rfl] at counted
  cases effect with
  | acquired mode =>
    rw [Effect.change] at counted
    split at counted <;> omega
  | unchanged =>
    rw [Effect.change] at counted
    omega
  | released mode =>
    cases mode with
    | read => cases quiet
    | write =>
      cases m with
      | read =>
        rw [Effect.change, if_neg Mode.noConfusion] at counted
        omega
      | write =>
        -- the lock is still written, and nobody else can have written before
        rw [Effect.wakes, Threads.wakes, Bool.not_eq_false', Lock.isWriteLocked,
          Option.isSome_iff_exists] at quiet
        obtain ⟨⟨owner, n⟩, writer⟩ := quiet
        have lock' := step.exclusive lock
        have writes := lock'.writesBy_iff_pos.1 (Lock.writesBy_iff.2 ⟨n, writer⟩)
        by_cases other : owner = u
        · exact other ▸ writes
        · rw [step.holds_of_ne lock other] at writes
          exact absurd (lock.eq_of_writesBy (lock.writesBy_iff_pos.2 pos)
            (lock.writesBy_iff_pos.2 writes)) other

/-- In a step that wakes nobody, who is barred stays barred. -/
theorem Step.bars_of_quiet (step : Step w me effect w') (lock : w.lock.Exclusive)
    (quiet : effect.wakes w'.lock = false) (barred : w.lock.Bars t m) : w'.lock.Bars t m :=
  lock.bars_of_pos (step.exclusive lock) (fun _ _ => step.pos_holds_of_quiet lock quiet) barred

theorem Step.parked_not_writing (step : Step w me effect w') (lock : w.lock.Exclusive)
    (idle : ∀ t p, (t, p) ∈ w.parked → w.lock.writesBy t = false) (mem : (t, p) ∈ w'.parked) :
    w'.lock.writesBy t = false := by
  rcases step.parked_cases mem with ⟨old, other⟩ | ⟨-, same, waits⟩
  · have before := idle t p old
    rw [← Bool.not_eq_true, lock.writesBy_iff_pos] at before
    rwa [← Bool.not_eq_true, (step.exclusive lock).writesBy_iff_pos, step.holds_of_ne lock other]
  · rw [same]
    exact not_writing_of_waits lock waits

theorem Reached.parked_not_writing (reached : Reached w history) (mem : (t, p) ∈ w.parked) :
    w.lock.writesBy t = false := by
  induction reached generalizing t p with
  | start => cases mem
  | step reached step ih => exact step.parked_not_writing reached.exclusive (fun _ _ => ih) mem

/-- A thread waits for one hold at a time. -/
theorem Reached.parked_unique (reached : Reached w history) (mem : (t, p) ∈ w.parked)
    (mem' : (t, q) ∈ w.parked) : p = q := by
  have nodup := reached.nodup_parked
  have same := List.inj_on_of_nodup_map nodup mem mem' rfl
  exact (Prod.mk.inj same).2

/-! ## Standstill -/

/-- Two threads that both read, and both wait to write. -/
structure Entangled (w : Threads τ) (t u : τ) : Prop where
  ne : t ≠ u
  reads : w.lock.readsBy t = true ∧ w.lock.readsBy u = true
  waits : (∃ p, (t, p) ∈ w.parked ∧ p.mode = .write) ∧ ∃ p, (u, p) ∈ w.parked ∧ p.mode = .write

theorem Entangled.symm (entangled : w.Entangled t u) : w.Entangled u t :=
  ⟨entangled.ne.symm, entangled.reads.symm, entangled.waits.symm⟩

/-- Neither of them takes a step any more. -/
theorem Entangled.ne_of_step (entangled : w.Entangled t u) (reached : Reached w history)
    (step : Step w me effect w') : t ≠ me := by
  rintro rfl
  obtain ⟨p, parked, mode⟩ := entangled.waits.1
  have waiting : w.isParked t = true :=
    List.any_eq_true.2 ⟨(t, p), parked, decide_eq_true rfl⟩
  obtain ⟨q, w₁, parked', granted⟩ := step.granted_of_parked waiting
  cases reached.parked_unique parked parked'
  have barred : w.lock.Bars t p.mode := by
    rw [mode]
    exact Or.inr ⟨u, entangled.ne.symm, entangled.reads.2⟩
  rw [(tryAcquire?_eq_none_iff (reached.parked_not_writing parked)).2 barred] at granted
  cases granted

/-- So they go on waiting, whatever others do. -/
theorem Step.entangled (step : Step w me effect w') (reached : Reached w history)
    (entangled : w.Entangled t u) : w'.Entangled t u := by
  have lock := reached.exclusive
  have stays : ∀ {t u}, w.Entangled t u → w'.lock.readsBy t = true ∧
      ∃ p, (t, p) ∈ w'.parked ∧ p.mode = .write := by
    intro t u entangled
    have other := entangled.ne_of_step reached step
    obtain ⟨p, parked, mode⟩ := entangled.waits.1
    refine ⟨?_, p, step.parked_of_ne parked other, mode⟩
    rw [(step.exclusive lock).readsBy_iff_pos, step.holds_of_ne lock other]
    exact lock.readsBy_iff_pos.1 entangled.reads.1
  obtain ⟨reads, waits⟩ := stays entangled
  obtain ⟨reads', waits'⟩ := stays entangled.symm
  exact ⟨entangled.ne, ⟨reads, reads'⟩, waits, waits'⟩

theorem isParked_iff : w.isParked t = true ↔ ∃ p, (t, p) ∈ w.parked := by
  simp [isParked]

/-- Where nobody writes and all who read are parked and barred, a thread that is barred is
so by two readers, and all of them wait to write. -/
theorem exists_readers_of_barred
    (unwritten : ∀ t, w.lock.writesBy t = false)
    (waiting : ∀ t, w.lock.readsBy t = true → w.isParked t = true)
    (barred : ∀ t p, (t, p) ∈ w.parked → w.lock.Bars t p.mode) (some : w.parked ≠ []) :
    (∃ t u, t ≠ u ∧ w.lock.readsBy t = true ∧ w.lock.readsBy u = true) ∧
      ∀ t, w.lock.readsBy t = true → ∃ p, (t, p) ∈ w.parked ∧ p.mode = .write := by
  -- nobody is barred from reading, and from writing by another reader only
  have by_reader : ∀ t p, (t, p) ∈ w.parked →
      p.mode = .write ∧ ∃ u, u ≠ t ∧ w.lock.readsBy u = true := by
    intro t p mem
    have bars := barred t p mem
    cases mode : p.mode with
    | read =>
      rw [mode] at bars
      obtain ⟨u, -, writes⟩ := bars
      cases (unwritten u).symm.trans writes
    | write =>
      rw [mode] at bars
      rcases bars with ⟨u, writes⟩ | reader
      · cases (unwritten u).symm.trans writes
      · exact ⟨rfl, reader⟩
  have readers : ∀ t, w.lock.readsBy t = true → ∃ p, (t, p) ∈ w.parked ∧ p.mode = .write := by
    intro t reads
    obtain ⟨p, mem⟩ := isParked_iff.1 (waiting t reads)
    exact ⟨p, mem, (by_reader t p mem).1⟩
  obtain ⟨⟨t, p⟩, mem⟩ := List.exists_mem_of_ne_nil _ some
  obtain ⟨-, u, -, reads⟩ := by_reader t p mem
  obtain ⟨q, mem', -⟩ := readers u reads
  obtain ⟨-, v, other, reads'⟩ := by_reader u q mem'
  exact ⟨⟨u, v, other.symm, reads, reads'⟩, readers⟩

/-- Where all parked threads are barred, some holder is not parked, or else nobody writes, at
least two threads read, and all of these wait to write.  A writer is never parked, and with
the lock free nobody is. -/
theorem entangled_of_barred (reached : Reached w history)
    (barred : ∀ t p, (t, p) ∈ w.parked → w.lock.Bars t p.mode) :
    (w.parked ≠ [] →
      (∃ t, w.lock.heldBy t = true ∧ w.isParked t = false) ∨
        (∀ t, w.lock.writesBy t = false) ∧
        (∃ t u, w.Entangled t u) ∧
        ∀ t, w.lock.readsBy t = true → ∃ p, (t, p) ∈ w.parked ∧ p.mode = .write) ∧
      (∀ t, w.lock.writesBy t = true → w.isParked t = false) ∧
      (w.lock.isLocked = false → w.parked = []) := by
  have idle : ∀ t, w.lock.writesBy t = true → w.isParked t = false := by
    intro t writes
    refine Bool.eq_false_iff.2 fun parked => ?_
    obtain ⟨p, mem⟩ := isParked_iff.1 parked
    cases (reached.parked_not_writing mem).symm.trans writes
  refine ⟨fun some => ?_, idle, fun free => ?_⟩
  · by_cases moving : ∃ t, w.lock.heldBy t = true ∧ w.isParked t = false
    · exact Or.inl moving
    · have waiting : ∀ t, w.lock.heldBy t = true → w.isParked t = true := by
        intro t held
        rw [← Bool.not_eq_false]
        exact fun free => moving ⟨t, held, free⟩
      have unwritten : ∀ t, w.lock.writesBy t = false := by
        intro t
        refine Bool.eq_false_iff.2 fun writes => ?_
        have parked := waiting t (by rw [Lock.heldBy, writes, Bool.or_true])
        cases (idle t writes).symm.trans parked
      have reading : ∀ t, w.lock.readsBy t = true → w.isParked t = true := fun t reads =>
        waiting t (by rw [Lock.heldBy, reads, Bool.true_or])
      obtain ⟨⟨t, u, ne, reads, reads'⟩, readers⟩ :=
        exists_readers_of_barred unwritten reading barred some
      exact Or.inr ⟨unwritten, ⟨t, u, ne, ⟨reads, reads'⟩, readers t reads, readers u reads'⟩,
        readers⟩
  · by_contra some
    have lock := reached.exclusive
    have nothing := lock.isLocked_eq_false_iff.1 free
    have unread : ∀ t, w.lock.readsBy t ≠ true := by
      intro t reads
      have pos := lock.readsBy_iff_pos.1 reads
      rw [nothing] at pos
      exact Nat.lt_irrefl 0 pos
    have unwritten : ∀ t, w.lock.writesBy t = false := by
      intro t
      refine Bool.eq_false_iff.2 fun writes => ?_
      have pos := lock.writesBy_iff_pos.1 writes
      rw [nothing] at pos
      exact Nat.lt_irrefl 0 pos
    obtain ⟨⟨t, -, -, reads, -⟩, -⟩ := exists_readers_of_barred unwritten
      (fun t reads => absurd reads (unread t)) barred some
    exact unread t reads

/-- Two readers want to write as well, and a third thread wants to write. -/
def upgrades : List (Nat × Deed) := [
  (1, .acquire .read false), (2, .acquire .read true), (1, .acquire .write false),
  (2, .acquire .write true), (3, .acquire .write false)]

theorem entangled_upgrades : ∃ w history, w = empty.issueAll upgrades ∧ Reached w history ∧
    (∀ t p, (t, p) ∈ w.parked → w.lock.Bars t p.mode) ∧ w.parked.map Prod.fst = [1, 2, 3] ∧
    (∀ t, w.lock.writesBy t = false) ∧ (∃ t u, w.Entangled t u) ∧
      ∀ t, w.lock.readsBy t = true → ∃ p, (t, p) ∈ w.parked ∧ p.mode = .write := by
  obtain ⟨history, reached⟩ := Reached.start.issueAll upgrades
  have parked : (empty.issueAll upgrades).parked =
      [(1, ⟨.write, false⟩), (2, ⟨.write, true⟩), (3, ⟨.write, false⟩)] := by decide
  have keys : (empty.issueAll upgrades).lock.readers.keys = [2, 1] := by decide
  have barred : ∀ t p, (t, p) ∈ (empty.issueAll upgrades).parked →
      (empty.issueAll upgrades).lock.Bars t p.mode := by
    intro t p mem
    rw [parked] at mem
    simp only [List.mem_cons, Prod.mk.injEq, List.not_mem_nil, or_false] at mem
    rcases mem with ⟨rfl, rfl⟩ | ⟨rfl, rfl⟩ | ⟨rfl, rfl⟩
    · exact Or.inr ⟨2, by decide, by decide⟩
    · exact Or.inr ⟨1, by decide, by decide⟩
    · exact Or.inr ⟨1, by decide, by decide⟩
  have some : (empty.issueAll upgrades).parked ≠ [] := by
    rw [parked]
    exact List.cons_ne_nil _ _
  refine ⟨_, _, rfl, reached, barred, by rw [parked]; rfl, ?_⟩
  rcases (entangled_of_barred reached barred).1 some with ⟨t, held, free⟩ | entangled
  · rw [Lock.heldBy, Bool.or_eq_true, Lock.readsBy_iff, keys] at held
    rcases held with reads | writes
    · rcases List.mem_pair.1 reads with rfl | rfl <;> exact absurd free (by decide)
    · obtain ⟨n, writer⟩ := Lock.writesBy_iff.1 writes
      cases writer
  · exact entangled

end Threads

end ReadThrough
