import ReadThrough.Fault
import ReadThrough.Index

/-!
# Locks with many readers or one writer

A `Lock τ` records which threads `τ` hold it, and how often.  Holds nest: a
thread may take further ones of a kind it has, the writer may also read, and the
only reader may also write.  A thread that cannot have a hold yet must wait.

* `Lock.mustWaitRead` and `Lock.mustWaitWrite` are the two conditions of waiting.
* `Lock.acquireRead?` and `Lock.acquireWrite?` give no lock while their thread
  must wait.
* A release without a hold is a `Misuse` and changes nothing.
-/

namespace ReadThrough

structure Lock (τ : Type) : Type where
  /-- The threads that read, with the number of their read holds. -/
  readers : Index τ Nat
  /-- The thread that writes, with the number of its write holds. -/
  writer? : Option (τ × Nat)

namespace Lock

variable {τ : Type}

/-- The lock that nobody holds. -/
def free : Lock τ := ⟨∅, none⟩

instance : Inhabited (Lock τ) := ⟨free⟩

def isLocked (l : Lock τ) : Bool := l.writer?.isSome || !l.readers.isEmpty

def isReadLocked (l : Lock τ) : Bool := !l.readers.isEmpty

def isWriteLocked (l : Lock τ) : Bool := l.writer?.isSome

/-- The number of threads that read. -/
def readerCount (l : Lock τ) : Nat := l.readers.size

/-- The lock as a line of a log: how many threads read, and how many holds the
writer has. -/
def describe (l : Lock τ) : String :=
  let writer := match l.writer? with
    | some (_, count) => s!"Some({count})"
    | none => "None"
  s!"MrowLock \x7b readers: {l.readerCount}, writer: {writer} \x7d"

variable [DecidableEq τ]

def readsBy (l : Lock τ) (me : τ) : Bool := l.readers.contains me

def writesBy (l : Lock τ) (me : τ) : Bool :=
  match l.writer? with
  | some (owner, _) => owner = me
  | none => false

/-- Another thread writes. -/
def foreignWriter (l : Lock τ) (me : τ) : Bool :=
  match l.writer? with
  | some (owner, _) => owner ≠ me
  | none => false

/-- Another thread reads.  The number of readers tells, unless there is one. -/
def foreignReaders (l : Lock τ) (me : τ) : Bool :=
  match l.readers.size with
  | 0 => false
  | 1 => !l.readsBy me
  | _ => true

def mustWaitRead (l : Lock τ) (me : τ) : Bool := l.foreignWriter me

/-- A thread that does not write already waits for every writer and for all other
readers. -/
def mustWaitWrite (l : Lock τ) (me : τ) : Bool :=
  !l.writesBy me && (l.writer?.isSome || l.foreignReaders me)

/-! ## Holds -/

/-- Add a read hold, unless the thread must wait. -/
def acquireRead? (l : Lock τ) (me : τ) : Option (Lock τ) :=
  if l.mustWaitRead me then none
  else some { l with readers := l.readers.insert me ((l.readers.get? me).getD 0 + 1) }

/-- Add a write hold, unless the thread must wait. -/
def acquireWrite? (l : Lock τ) (me : τ) : Option (Lock τ) :=
  if l.mustWaitWrite me then none
  else
    match l.writer? with
    | some (owner, count) => some { l with writer? := some (owner, count + 1) }
    | none => some { l with writer? := some (me, 1) }

/-- Give back a read hold. -/
def releaseRead (l : Lock τ) (me : τ) : Except Fault (Lock τ) :=
  match l.readers.get? me with
  | none => .error (.lockMisuse .notReading)
  | some count =>
    if count - 1 = 0 then .ok { l with readers := l.readers.erase me }
    else .ok { l with readers := l.readers.insert me (count - 1) }

/-- Give back a write hold.  Read holds of the thread stay. -/
def releaseWrite (l : Lock τ) (me : τ) : Except Fault (Lock τ) :=
  match l.writer? with
  | some (owner, count) =>
    if owner = me then
      .ok { l with writer? := if count - 1 = 0 then none else some (owner, count - 1) }
    else .error (.lockMisuse .notWriting)
  | none => .error (.lockMisuse .notWriting)

end Lock

end ReadThrough
