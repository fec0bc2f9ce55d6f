import ReadThrough.Cache.Basic
import ReadThrough.Network.Command
import ReadThrough.Registry

/-!
# Networks

A `Network ι α` holds shelves, caches, relays and listeners, and who subscribes
to whom.  Nodes are numbered in the order in which they are made, and a number is
never given again; names lead to numbers.

A cache is subscribed to the node below it.  It is held as long as it has a name,
is at work in a command, or stands below a held cache; then it is retired: it
leaves the registry of the node below.  A retired cache hears nothing more, except
while it is still passing on an announcement.

* `Network.sweep` retires the caches that are no longer held.
* `Network.subscribe` and `Network.unsubscribe` change the registry of a node.
-/

namespace ReadThrough

/-- The number of a node. -/
abbrev NodeId : Type := Nat

/-- Who is called when a node announces a change. -/
inductive Subscriber where
  | cache (node : NodeId)
  | script (number : Nat)
  deriving DecidableEq

/-- A shelf in a network: what goes wrong with its answers, and the name under
which calls to it are traced. -/
structure Origin (ι α : Type) : Type where
  name : String
  shelf : Shelf ι α
  trouble : Trouble α

/-- A cache in a network. -/
structure Layer (ι α : Type) : Type where
  cache : Cache ι α
  /-- The node it reads from. -/
  below : NodeId
  /-- It is no longer held. -/
  retired : Bool
  /-- How many announcements it is passing on. -/
  busy : Nat

/-- A cache that is neither held nor at work does not react any more. -/
def Layer.isGone {ι α : Type} (l : Layer ι α) : Bool := l.retired && l.busy == 0

inductive Body (ι α : Type) where
  | origin (o : Origin ι α)
  | layer (l : Layer ι α)
  | relay

structure Node (ι α : Type) : Type where
  body : Body ι α
  registry : Registry Subscriber

/-- A listener: what it performs when called, how often it still does, and
whether it fails instead. -/
structure Script (ι α : Type) : Type where
  name : String
  run : List (Command ι α)
  times : Nat
  failing : Bool

/-- What a listener did. -/
inductive LogEntry (ι α : Type) where
  | heard (script : String) (change : Change ι)
  | performed (script : String) (command : Command ι α) (outcome : Outcome ι α)

structure Network (ι α : Type) : Type where
  nodes : Array (Node ι α)
  scripts : Array (Script ι α)
  names : Index String NodeId
  scriptNames : Index String Nat
  /-- The nodes at work in commands that are not finished. -/
  pins : List NodeId
  /-- The calls to shelves, the latest first. -/
  calls : List (String × Call ι α)
  /-- What listeners did, the latest first. -/
  log : List (LogEntry ι α)

namespace Network

variable {ι α : Type}

def empty : Network ι α := ⟨#[], #[], ∅, ∅, [], [], []⟩

instance : Inhabited (Network ι α) := ⟨empty⟩

/-! ## Nodes -/

def node? (w : Network ι α) (n : NodeId) : Option (Node ι α) := w.nodes[n]?

def layer? (w : Network ι α) (n : NodeId) : Option (Layer ι α) :=
  match w.node? n with
  | some ⟨.layer l, _⟩ => some l
  | _ => none

def origin? (w : Network ι α) (n : NodeId) : Option (Origin ι α) :=
  match w.node? n with
  | some ⟨.origin o, _⟩ => some o
  | _ => none

/-- Change a node. -/
def modify (w : Network ι α) (n : NodeId) (f : Node ι α → Node ι α) : Network ι α :=
  { w with nodes := w.nodes.modify n f }

def setBody (w : Network ι α) (n : NodeId) (body : Body ι α) : Network ι α :=
  w.modify n fun node => { node with body := body }

/-- Change a node that is a cache. -/
def modifyLayer (w : Network ι α) (n : NodeId) (f : Layer ι α → Layer ι α) : Network ι α :=
  match w.layer? n with
  | some l => w.setBody n (.layer (f l))
  | none => w

def setCache (w : Network ι α) (n : NodeId) (c : Cache ι α) : Network ι α :=
  w.modifyLayer n fun l => { l with cache := c }

/-- The subscribers of a node. -/
def registry (w : Network ι α) (n : NodeId) : Registry Subscriber :=
  match w.node? n with
  | some node => node.registry
  | none => ∅

def subscribe (w : Network ι α) (n : NodeId) (s : Subscriber) : Network ι α :=
  w.modify n fun node => { node with registry := node.registry.add s }

/-- Take back the latest subscription; also tells whether there was one. -/
def unsubscribe (w : Network ι α) (n : NodeId) (s : Subscriber) : Bool × Network ι α :=
  ((w.registry n).remove s |>.1,
    w.modify n fun node => { node with registry := (node.registry.remove s).2 })

/-! ## Holding -/

/-- A cache is held by its name, by a command at work with it, or by a cache
above that is not gone. -/
def isHeld (w : Network ι α) (n : NodeId) : Bool :=
  w.names.pairs.any (·.2 == n) || w.pins.contains n ||
    w.nodes.any fun node =>
      match node.body with
      | .layer l => !l.isGone && l.below == n
      | _ => false

/-- Let a cache leave the node below it. -/
def retire (w : Network ι α) (n : NodeId) : Network ι α :=
  match w.layer? n with
  | some l =>
    (w.unsubscribe l.below (.cache n)).2.modifyLayer n fun l => { l with retired := true }
  | none => w

/-- A cache that should be retired. -/
def unheld? (w : Network ι α) : Option NodeId :=
  (List.range w.nodes.size).find? fun n =>
    match w.layer? n with
    | some l => !l.retired && !w.isHeld n
    | none => false

/-- Retire caches that are not held, at most `rounds` of them; retiring one may
let go of the next. -/
def sweepLoop : Nat → Network ι α → Network ι α
  | 0, w => w
  | rounds + 1, w =>
    match w.unheld? with
    | some n => sweepLoop rounds (w.retire n)
    | none => w

/-- Retire all caches that are not held. -/
def sweep (w : Network ι α) : Network ι α := sweepLoop w.nodes.size w

/-- Keep nodes while a command is at work with them. -/
def pin (w : Network ι α) (ns : List NodeId) : Network ι α := { w with pins := ns ++ w.pins }

/-- Let go of the `count` nodes pinned last. -/
def unpin (w : Network ι α) (count : Nat) : Network ι α :=
  { w with pins := w.pins.drop count }.sweep

/-! ## Making and naming -/

/-- Add a node and name it; a node that had the name before loses it. -/
def addNode (w : Network ι α) (name : String) (body : Body ι α) : NodeId × Network ι α :=
  let n := w.nodes.size
  (n, { w with nodes := w.nodes.push ⟨body, ∅⟩, names := w.names.insert name n })

def nodeNamed? (w : Network ι α) (name : String) : Option NodeId := w.names.get? name

def scriptNamed? (w : Network ι α) (name : String) : Option Nat := w.scriptNames.get? name

/-- The caches that have a name. -/
def namedCaches (w : Network ι α) : List (String × Cache ι α) :=
  w.names.pairs.filterMap fun (name, n) => (w.layer? n).map fun l => (name, l.cache)

/-! ## Records -/

def record (w : Network ι α) (name : String) (call : Call ι α) : Network ι α :=
  { w with calls := (name, call) :: w.calls }

def note (w : Network ι α) (entry : LogEntry ι α) : Network ι α :=
  { w with log := entry :: w.log }

/-- The network with empty records. -/
def clearRecords (w : Network ι α) : Network ι α := { w with calls := [], log := [] }

end Network

end ReadThrough
