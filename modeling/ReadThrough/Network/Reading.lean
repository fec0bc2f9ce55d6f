import ReadThrough.Cache.Read
import ReadThrough.Network.Basic

/-!
# Reading within a network

A node of a network is a source whose state is the whole network.  A shelf
answers as its trouble lets it, and every call to it is recorded.  A cache
answers by reading through to the node below.

* `Network.source` is the node as a source.  Caches stand over each other no
  deeper than there are nodes, which bounds the recursion.
-/

namespace ReadThrough.Network

variable {ι α : Type}

/-- What a node that cannot be read answers. -/
def unreadable : Fault := .unavailable "no such source" none

/-- Ask a shelf; it answers unless it is offline. -/
def askOrigin {β : Type} (w : Network ι α) (o : Origin ι α) (call : Call ι α)
    (answer : Except Fault β) : Except Fault β × Network ι α :=
  (match o.trouble.fault? with
    | some fault => .error fault
    | none => answer,
    w.record o.name call)

/-- The size that a shelf tells. -/
def originSize (w : Network ι α) (o : Origin ι α) : Except Fault Nat × Network ι α :=
  w.askOrigin o .size (.ok (o.trouble.size?.getD o.shelf.size))

/-- The range that a shelf brings. -/
def originRange (w : Network ι α) (o : Origin ι α) (start length : Nat) :
    Except Fault (List α) × Network ι α :=
  w.askOrigin o (.range start length) ((o.shelf.range start length).map o.trouble.distort)

variable [DecidableEq ι]

def originById (w : Network ι α) (o : Origin ι α) (id : ι) :
    Except Fault (Option α) × Network ι α :=
  w.askOrigin o (.byId id) (.ok (o.trouble.byId?.getD (o.shelf.byId? id)))

/-- Put the cache of node `n` back after a read. -/
def store {β : Type} (n : NodeId) (answer : β × Cache ι α × Network ι α) : β × Network ι α :=
  (answer.1, answer.2.2.setCache n answer.2.1)

/-- Node `n` as a source, with at most `depth` caches over each other. -/
def source : Nat → NodeId → Source (Network ι α) ι α
  | 0, _ => .unreachable unreadable
  | depth + 1, n => {
      size := fun w =>
        match w.node? n with
        | some ⟨.origin o, _⟩ => w.originSize o
        | some ⟨.layer l, _⟩ => store n (l.cache.getSize (source depth l.below) w)
        | _ => (.error unreadable, w)
      range := fun start length w =>
        match w.node? n with
        | some ⟨.origin o, _⟩ => w.originRange o start length
        | some ⟨.layer l, _⟩ =>
          store n (Cache.getRange (source depth l.below) start length l.cache w)
        | _ => (.error unreadable, w)
      byId := fun id w =>
        match w.node? n with
        | some ⟨.origin o, _⟩ => w.originById o id
        | some ⟨.layer l, _⟩ => store n (Cache.getById (source depth l.below) id l.cache w)
        | _ => (.error unreadable, w)
      identify := fun w =>
        match w.node? n with
        | some ⟨.origin o, _⟩ => o.shelf.identify
        | some ⟨.layer l, _⟩ => (source depth l.below).identify w
        | _ => fun _ => none }

/-- The greatest depth that a stack of caches can have. -/
def depth (w : Network ι α) : Nat := w.nodes.size + 1

/-- The source that node `n` is. -/
def sourceAt (w : Network ι α) (n : NodeId) : Source (Network ι α) ι α := source w.depth n

/-- The object at a position of node `n`. -/
def readAt (w : Network ι α) (n : NodeId) (position : Nat) : Except Fault α × Network ι α :=
  match w.node? n with
  | some ⟨.origin o, _⟩ => w.askOrigin o (.get position) (o.shelf.get position)
  | some ⟨.layer l, _⟩ => store n (Cache.get (source w.depth l.below) position l.cache w)
  | _ => (.error unreadable, w)

end ReadThrough.Network
