import ReadThrough.Bounds
import ReadThrough.Number.Unsigned
import ReadThrough.Sizing

/-!
# Settings of the service

What an operator can choose: the sizes of the cache, where it is served, how often
statistics are reported, and how many objects there are at the start.  Each
setting has a variable in the environment; one that is unset, is no text, or is
no number of the setting's range leaves the standard value.
-/

namespace ReadThrough

structure Settings : Type where
  capacity : Nat
  chunk : Nat
  /-- Where clients connect. -/
  serverPort : Nat
  /-- Seconds between two reports. -/
  reportInterval : Nat
  seedObjects : Nat
  deriving DecidableEq

/-- The bytes that a variable of this name is set to, if it is set. -/
abbrev Environment : Type := String → Option ByteArray

namespace Settings

def standard : Settings where
  capacity := Sizing.standard.capacity
  chunk := Sizing.standard.chunk
  serverPort := 3000
  reportInterval := 30
  seedObjects := 100

/-- The number below `limit` that a variable is set to. -/
def number? (env : Environment) (limit : Nat) (name : String) : Option Nat := do
  let bytes ← env name
  let text ← String.fromUTF8? bytes
  Unsigned.parse? limit text

/-- The places where clients can connect are below this, which is `2 ^ 16`. -/
def serverPortLimit : Nat := 65536

def ofEnvironment (env : Environment) : Settings where
  capacity := (number? env wordLimit "MAX_CACHE_SIZE").getD standard.capacity
  chunk := (number? env wordLimit "CHUNK_SIZE").getD standard.chunk
  serverPort := (number? env serverPortLimit "SERVER_PORT").getD standard.serverPort
  reportInterval := (number? env wordLimit "STATS_INTERVAL").getD standard.reportInterval
  seedObjects := (number? env wordLimit "SEED_OBJECTS").getD standard.seedObjects

/-- The sizes of the cache, if it can have them. -/
def sizing (s : Settings) : Except Fault Sizing := Sizing.ofCounts s.capacity s.chunk

end Settings

end ReadThrough
