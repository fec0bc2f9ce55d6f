import ReadThrough.Lock.Basic

/-!
# Threads at a lock

Named threads share a lock.  A thread that must wait is parked until a release
wakes the parked threads; then each of them looks again, in the order in which
they were parked, and goes on if it need not wait any more.

A guard is a hold that is given back when the guard is dropped.

* `Threads.issue` lets a thread do something, and then the woken threads.
-/

namespace ReadThrough

/-- The two ways of holding a lock. -/
inductive Mode where
  | read
  | write
  deriving DecidableEq

/-- Why a thread is parked: it acquires a hold of this mode, for a guard or not. -/
structure Parked : Type where
  mode : Mode
  guarded : Bool
  deriving DecidableEq

structure Threads (τ : Type) : Type where
  lock : Lock τ
  /-- The threads that wait, in the order in which they began to. -/
  parked : List (τ × Parked)
  /-- The live guards of each thread, the oldest first. -/
  guards : Index τ (List Mode)

/-- What a thread does. -/
inductive Deed where
  | acquire (mode : Mode) (guarded : Bool)
  | release (mode : Mode)
  /-- Drop the guard at an index, or the newest. -/
  | dropGuard (index? : Option Nat)
  /-- Ask whether the thread reads, and whether it writes. -/
  | mine

/-- What comes of it. -/
inductive DeedResult where
  | done
  | failed (fault : Fault)
  | dropped (mode : Mode)
  | noGuard
  | holds (reads writes : Bool)
  /-- The thread waits now. -/
  | blocked
  /-- The thread still waits, and does nothing. -/
  | busy

namespace Threads

variable {τ : Type}

def empty : Threads τ := ⟨.free, [], ∅⟩

instance : Inhabited (Threads τ) := ⟨empty⟩

variable [DecidableEq τ]

def guardsOf (w : Threads τ) (me : τ) : List Mode := (w.guards.get? me).getD []

def setGuards (w : Threads τ) (me : τ) (gs : List Mode) : Threads τ :=
  { w with guards := w.guards.insert me gs }

def isParked (w : Threads τ) (me : τ) : Bool := w.parked.any (·.1 = me)

def acquire? (l : Lock τ) (me : τ) : Mode → Option (Lock τ)
  | .read => l.acquireRead? me
  | .write => l.acquireWrite? me

def release (l : Lock τ) (me : τ) : Mode → Except Fault (Lock τ)
  | .read => l.releaseRead me
  | .write => l.releaseWrite me

/-- Whether a release that leaves this lock wakes the parked threads: giving back
a write hold does so only if it was the last. -/
def wakes (l : Lock τ) : Mode → Bool
  | .read => true
  | .write => !l.isWriteLocked

/-- Acquire a hold if the thread need not wait. -/
def tryAcquire? (w : Threads τ) (me : τ) (p : Parked) : Option (Threads τ) :=
  (acquire? w.lock me p.mode).map fun l =>
    let w := { w with lock := l }
    if p.guarded then w.setGuards me (w.guardsOf me ++ [p.mode]) else w

/-- Let the parked threads look again, one after another; gives those that went
on. -/
def recheck (w : Threads τ) : List (τ × Parked) → List τ × Threads τ
  | [] => ([], w)
  | (t, p) :: rest =>
    match w.tryAcquire? t p with
    | some w =>
      let (woken, w) := recheck { w with parked := w.parked.filter (·.1 ≠ t) } rest
      (t :: woken, w)
    | none => recheck w rest

/-- Give back a hold and wake the parked threads if there is reason to. -/
def releaseAndWake (w : Threads τ) (me : τ) (mode : Mode) :
    Except Fault (List τ × Threads τ) :=
  match release w.lock me mode with
  | .error e => .error e
  | .ok l =>
    let w := { w with lock := l }
    .ok (if wakes l mode then w.recheck w.parked else ([], w))

/-- Drop the guard at an index.  A hold that was given back before is ignored. -/
def dropGuard (w : Threads τ) (me : τ) (index : Nat) :
    DeedResult × List τ × Threads τ :=
  let gs := w.guardsOf me
  match gs[index]? with
  | none => (.noGuard, [], w)
  | some mode =>
    let w := w.setGuards me (gs.eraseIdx index)
    match w.releaseAndWake me mode with
    | .ok (woken, w) => (.dropped mode, woken, w)
    | .error _ => (.dropped mode, [], w)

/-- Let a thread do something; gives the result, the threads that could go on,
and the threads after it. -/
def issue (w : Threads τ) (me : τ) (deed : Deed) : DeedResult × List τ × Threads τ :=
  if w.isParked me then (.busy, [], w)
  else
    match deed with
    | .acquire mode guarded =>
      let p : Parked := ⟨mode, guarded⟩
      match w.tryAcquire? me p with
      | some w => (.done, [], w)
      | none => (.blocked, [], { w with parked := w.parked ++ [(me, p)] })
    | .release mode =>
      match w.releaseAndWake me mode with
      | .ok (woken, w) => (.done, woken, w)
      | .error e => (.failed e, [], w)
    | .dropGuard index? => w.dropGuard me (index?.getD ((w.guardsOf me).length - 1))
    | .mine => (.holds (w.lock.readsBy me) (w.lock.writesBy me), [], w)

end Threads

end ReadThrough
