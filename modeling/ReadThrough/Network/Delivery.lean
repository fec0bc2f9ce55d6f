import ReadThrough.Cache.Write
import ReadThrough.Network.Reading

/-!
# Commands and announcements

Carrying out a command takes one step at first: it edits the network, has its
result, and leaves errands behind, mostly announcements.  An errand takes one step too
and may leave errands of its own, which come before those already there.  So a
listener that performs commands while it is called is no special case, and at
every moment the agenda shows what is still to be delivered.

* `Network.perform` is the first step of a command.
* `Network.advance` is the step of an errand.
* `Network.execute` carries a command out to the end of its agenda.

A cache handles a change in one step: it drops what is stale and then announces
the change to its own subscribers.  Only subscribers of the moment at which an
announcement starts are called.
-/

namespace ReadThrough

/-- What is still to be done. -/
inductive Errand (ι α : Type) where
  /-- Start telling the subscribers of a node. -/
  | announce (node : NodeId) (change : Change ι)
  | deliver (recipient : Subscriber) (change : Change ι)
  /-- Perform a command of a listener. -/
  | perform (script : String) (command : Command ι α)
  | note (entry : LogEntry ι α)
  /-- A cache has passed on an announcement. -/
  | settle (node : NodeId)
  /-- A command is no longer at work with nodes, the `count` pinned last. -/
  | unpin (count : Nat)

/-- Whether the errand is done even after a listener has failed. -/
def Errand.isCleanup {ι α : Type} : Errand ι α → Bool
  | settle _ | unpin _ => true
  | _ => false

/-- The result of a command, the network after its first step, and its errands. -/
abbrev Performed (ι α : Type) : Type := Outcome ι α × Network ι α × List (Errand ι α)

namespace Network

variable {ι α : Type} [DecidableEq ι] [ToString ι]

/-! ## Operations on one node -/

/-- A result without errands. -/
def reply (w : Network ι α) (outcome : Outcome ι α) : Performed ι α := (outcome, w, [])

/-- A read and the result it has. -/
def answer {β : Type} (f : β → Outcome ι α) (r : Except Fault β × Network ι α) :
    Performed ι α :=
  (.ofExcept f r.1, r.2, [])

/-- Announce changes, with nodes pinned meanwhile. -/
def announcing (w : Network ι α) (outcome : Outcome ι α) (n : NodeId)
    (changes : List (Change ι)) (pinned : List NodeId) : Performed ι α :=
  (outcome, w.pin pinned, changes.map (.announce n) ++ [.unpin pinned.length])

/-- Edit the shelf of node `n` and announce what changed. -/
def edit {β : Type} (w : Network ι α) (n : NodeId) (o : Origin ι α) (f : β → Outcome ι α)
    (e : Edit ι α β) (pinned : List NodeId) : Performed ι α :=
  let w := w.setBody n (.origin { o with shelf := e.2.1 })
  w.announcing (.ofExcept f e.1) n e.2.2 pinned

/-- Write to the shelf of node `n`, which is called like for a read. -/
def writeShelf (w : Network ι α) (n : NodeId) (o : Origin ι α) (u : Update α)
    (pinned : List NodeId) : Performed ι α :=
  let w := w.record o.name u.call
  match o.trouble.fault? with
  | some fault => w.reply (.failed fault)
  | none => w.edit n o (fun _ => .done) (o.shelf.write u) pinned

/-- Node `n` as a writer, with at most `depth` caches over each other.  The nodes
`above` it, which have handed the update on, are at work until all is announced. -/
def writer (name : String) :
    Nat → List NodeId → NodeId → Writer (Network ι α) (Outcome ι α × List (Errand ι α)) α
  | 0, _, _ => fun _ w => ((.misdirected name, []), w)
  | depth + 1, above, n => fun u w =>
    match w.node? n with
    | some ⟨.origin o, _⟩ =>
      let (outcome, w, errands) := w.writeShelf n o u (above ++ [n])
      ((outcome, errands), w)
    | some ⟨.layer l, _⟩ =>
      store n (l.cache.update (writer name depth (above ++ [n]) l.below) u w)
    | _ => ((.misdirected name, []), w)

/-- Write to node `n`. -/
def write (w : Network ι α) (n : NodeId) (name : String) (u : Update α) : Performed ι α :=
  let ((outcome, errands), w) := writer name w.depth [] n u w
  (outcome, w, errands)

/-- Let a cache read from another node.  What it holds is dropped, and its
subscribers are told that anything may have changed. -/
def attach (w : Network ι α) (n : NodeId) (l : Layer ι α) (below : NodeId) :
    Performed ι α :=
  let w := w.setBody n (.layer { l with cache := l.cache.clear, below := below })
  let w := (w.unsubscribe l.below (.cache n)).2.subscribe below (.cache n)
  w.announcing .done n [.contentsChanged] [n, l.below, below]

/-- An operation that only shelves have. -/
def askShelf (w : Network ι α) (name : String) (n : NodeId) (o : Origin ι α) :
    Operation ι α → Performed ι α
  | .items => w.reply (.objects o.shelf.items)
  | .push v => w.edit n o .number (o.shelf.push v) [n]
  | .insert position v => w.edit n o (fun _ => .done) (o.shelf.insert position v) [n]
  | .removeAt position => w.edit n o .object (o.shelf.removeAt position) [n]
  | .removeId id => w.edit n o .object? (o.shelf.removeId id) [n]
  | .replaceAll items => w.edit n o (fun _ => .done) (o.shelf.replaceAll items) [n]
  | .subscribers => w.reply (.number (w.registry n).size)
  | .trouble t => (w.setBody n (.origin { o with trouble := t })).reply .done
  | _ => w.reply (.misdirected name)

/-- An operation that only caches have. -/
def askCache (w : Network ι α) (name : String) (n : NodeId) (l : Layer ι α) :
    Operation ι α → Performed ι α
  | .coversPosition position => w.reply (.flag (l.cache.coversPosition position))
  | .coversId id => w.reply (.flag (l.cache.coversId id))
  | .clear => (w.setCache n l.cache.clear).reply .done
  | .audit => w.reply (.ofExcept (fun _ => .done) l.cache.audit)
  | .stats => w.reply (.stats l.cache.snapshot)
  | .sizing => w.reply (.sizing l.cache.sizing)
  | .attach below =>
    match w.nodeNamed? below with
    | some m => w.attach n l m
    | none => w.reply (.misdirected below)
  | .sizeBelow => answer .number ((w.sourceAt l.below).size w)
  | _ => w.reply (.misdirected name)

/-- How many objects a node holds, or subscribers if it is a relay. -/
def lengthOf (node : Node ι α) : Nat :=
  match node.body with
  | .origin o => o.shelf.size
  | .layer l => l.cache.length
  | .relay => node.registry.size

/-- A node as a line of a log. -/
def describeNode (node : Node ι α) : String :=
  let listeners := s!"ListenerSet \x7b listeners: {node.registry.size} \x7d"
  match node.body with
  | .origin o => s!"MemorySource \x7b len: {o.shelf.size}, listeners: {listeners} \x7d"
  | .layer l => l.cache.describe node.registry.size
  | .relay => listeners

/-- Carry out the first step of an operation at a node. -/
def operate (w : Network ι α) (name : String) (n : NodeId) (node : Node ι α)
    (operation : Operation ι α) : Performed ι α :=
  match operation with
  | .subscribe script =>
    match w.scriptNamed? script with
    | some s => (w.subscribe n (.script s)).reply .done
    | none => w.reply (.misdirected script)
  | .unsubscribe script =>
    match w.scriptNamed? script with
    | some s =>
      let (found, w) := w.unsubscribe n (.script s)
      w.reply (.flag found)
    | none => w.reply (.misdirected script)
  | .announce change => w.announcing .done n [change] [n]
  | .length => w.reply (.number (lengthOf node))
  | .isEmpty => w.reply (.flag (lengthOf node == 0))
  | .describe => w.reply (.text (describeNode node))
  | .size => answer .number ((w.sourceAt n).size w)
  | .get position => answer .object (w.readAt n position)
  | .range start length => answer .objects ((w.sourceAt n).range start length w)
  | .byId id => answer .object? ((w.sourceAt n).byId id w)
  | .updateAt v position => w.write n name (.place v position)
  | .update v => w.write n name (.renew v)
  | .identify v => w.reply (.identity? ((w.sourceAt n).identify w v))
  | _ =>
    match node.body with
    | .origin o => w.askShelf name n o operation
    | .layer l => w.askCache name n l operation
    | .relay => w.reply (.misdirected name)

/-! ## Commands -/

/-- Make a cache over a node and subscribe it there. -/
def addCache (w : Network ι α) (name : String) (below : NodeId) (sizing : Sizing) :
    Network ι α :=
  let (n, w) := w.addNode name (.layer ⟨.empty sizing, below, false, 0⟩)
  (w.subscribe below (.cache n)).sweep

/-- Carry out the first step of a command. -/
def perform (w : Network ι α) : Command ι α → Performed ι α
  | .addShelf name items identify =>
    ((w.addNode name (.origin ⟨name, ⟨items, identify⟩, .none⟩)).2.sweep).reply .done
  | .addCache name below capacity chunk =>
    match Sizing.ofCounts capacity chunk, w.nodeNamed? below with
    | .error e, _ => w.reply (.failed e)
    | .ok _, none => w.reply (.misdirected below)
    | .ok sizing, some n => (w.addCache name n sizing).reply .done
  | .addRelay name => ((w.addNode name .relay).2.sweep).reply .done
  | .addScript name run times failing =>
    { w with
      scripts := w.scripts.push ⟨name, run, times, failing⟩
      scriptNames := w.scriptNames.insert name w.scripts.size }.reply .done
  | .drop name => { w with names := w.names.erase name }.sweep.reply .done
  | .ask name operation =>
    match w.nodeNamed? name with
    | none => w.reply (.misdirected name)
    | some n =>
      match w.node? n with
      | some node => w.operate name n node operation
      | none => w.reply (.misdirected name)

/-! ## Tasks -/

/-- The network and the errands after a step, or the message of a listener that
failed in it. -/
abbrev Advanced (ι α : Type) : Type := Option String × Network ι α × List (Errand ι α)

/-- Call a cache: it drops what is stale and announces the change in turn. -/
def deliverToCache (w : Network ι α) (n : NodeId) (change : Change ι) : Advanced ι α :=
  match w.layer? n with
  | none => (none, w, [])
  | some l =>
    if l.isGone then (none, w, [])
    else
      let l := { l with cache := l.cache.apply change, busy := l.busy + 1 }
      (none, w.setBody n (.layer l), [.announce n change, .settle n])

/-- Call a listener. -/
def deliverToScript (w : Network ι α) (i : Nat) (change : Change ι) : Advanced ι α :=
  match w.scripts[i]? with
  | none => (none, w, [])
  | some s =>
    let w := w.note (.heard s.name change)
    if s.failing then (some s!"listener {s.name}", w, [])
    else if s.times = 0 then (none, w, [])
    else
      let scripts := w.scripts.modify i fun s => { s with times := s.times - 1 }
      (none, { w with scripts := scripts }, s.run.map (.perform s.name))

/-- Take a step of an errand. -/
def advance (w : Network ι α) : Errand ι α → Advanced ι α
  | .announce n change => (none, w, (w.registry n).calls.map (.deliver · change))
  | .deliver (.cache n) change => w.deliverToCache n change
  | .deliver (.script i) change => w.deliverToScript i change
  | .perform script command =>
    let (outcome, w, errands) := w.perform command
    (none, w, errands ++ [.note (.performed script command outcome)])
  | .note entry => (none, w.note entry, [])
  | .settle n => (none, (w.modifyLayer n fun l => { l with busy := l.busy - 1 }).sweep, [])
  | .unpin count => (none, w.unpin count, [])

/-- Do what has to be done after a listener has failed. -/
def cleanUp (w : Network ι α) (errands : List (Errand ι α)) : Network ι α :=
  (errands.filter Errand.isCleanup).foldl (fun w t => (w.advance t).2.1) w

/-- Take steps until the agenda is empty or a listener fails, at most `rounds`
of them. -/
def drain : Nat → Network ι α → List (Errand ι α) → Option String × Network ι α
  | 0, w, _ => (none, w)
  | _ + 1, w, [] => (none, w)
  | rounds + 1, w, errand :: errands =>
    match w.advance errand with
    | (none, w, more) => drain rounds w (more ++ errands)
    | (some message, w, more) => (some message, w.cleanUp (more ++ errands))

/-! ## How long an agenda can get -/

mutual

/-- How many commands a command can bring about, itself included. -/
def weight : Command ι α → Nat
  | .addScript _ run times _ => 1 + times * weights run
  | _ => 1

def weights : List (Command ι α) → Nat
  | [] => 0
  | c :: cs => weight c + weights cs

end

/-- How many commands the listeners can still perform. -/
def pendingCommands (w : Network ι α) : Nat :=
  (w.scripts.toList.map fun s => s.times * weights s.run).foldr (· + ·) 0

/-- How many subscriptions there are. -/
def subscriptions (w : Network ι α) : Nat :=
  (w.nodes.toList.map fun node => node.registry.size).foldr (· + ·) 0

/-- A bound on the steps that an agenda of one command takes, where no cache
stands above itself: each command announces at most three changes, an
announcement calls each subscriber once, and again for each subscription made
meanwhile. -/
def effort (w : Network ι α) (command : Command ι α) : Nat :=
  let commands := w.pendingCommands + weight command + 1
  let calls := (w.subscriptions + w.nodes.size + commands + 1) * commands
  8 * (commands + 1) * (calls + 1)

/-- Carry out a command and everything that follows from it. -/
def execute (w : Network ι α) (command : Command ι α) : Outcome ι α × Network ι α :=
  let rounds := w.effort command
  let (outcome, w, errands) := w.perform command
  match drain rounds w errands with
  | (none, w) => (outcome, w)
  | (some message, w) => (.broken message, w)

end Network

end ReadThrough
