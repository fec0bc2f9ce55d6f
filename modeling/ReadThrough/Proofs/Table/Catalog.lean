import ReadThrough.Proofs.Recency.Roster
import ReadThrough.Proofs.Table.Holds

/-!
# Catalogs

A `Catalog` is what a table stands for: a plain list of numbered entries, the most recently used
first.  There are no indexes.  Whoever asks for an identity or a position goes through the list,
and each operation is an edit of it.

* `Catalog.insert` gives the entry of a known identity a new value and the front place, with its
  number; otherwise a new entry joins in front.  Whoever else has the position loses it.
* `Table.Op` are the operations on a table as data, `Table.Reply` what they give, and `Table.step`
  carries one out; `Catalog.step` says what the same operation does to a catalog.
-/

namespace ReadThrough

variable {ι α : Type}

namespace Table

/-- An operation on a table.  Any number serves as a handle. -/
inductive Op (ι α : Type) : Type where
  | insert (id : ι) (value : α) (position? : Option Nat)
  | promote (h : Handle)
  | remove (h : Handle)
  | evict
  | removeId (id : ι)
  | clear
  | atPosition (position : Nat)
  | ofId (id : ι)
  | covers (position : Nat)
  | get (h : Handle)
  | size
  | isEmpty
  | entries

/-- What an operation gives. -/
inductive Reply (ι α : Type) : Type where
  | done
  | handle (h? : Option Handle)
  | entry (e? : Option (Entry ι α))
  | count (n : Nat)
  | flag (b : Bool)
  | listing (es : List (Entry ι α))
  deriving DecidableEq

/-- Where `oldest?` is the last entry, the operation takes out the entry of `id`, which is at
`h`. -/
def Op.Frees (oldest? : Option Handle) (id : ι) (h : Handle) : Op ι α → Prop
  | .remove k => k = h
  | .evict => oldest? = some h
  | .removeId id' => id' = id
  | .clear => True
  | _ => False

variable [DecidableEq ι]

def step (t : Table ι α) : Op ι α → Reply ι α × Table ι α
  | .insert i value position? => (t.insert i value position?).map (fun h => .handle (some h)) id
  | .promote h => (.done, t.promote h)
  | .remove h => (t.remove h).map .entry id
  | .evict => t.evict.map .entry id
  | .removeId i => (t.removeId i).map .entry id
  | .clear => t.clear.map .count id
  | .atPosition p => (.handle (t.atPosition? p), t)
  | .ofId i => (.handle (t.ofId? i), t)
  | .covers p => (.flag (t.covers p), t)
  | .get h => (.entry (t.entry? h), t)
  | .size => (.count t.size, t)
  | .isEmpty => (.flag t.isEmpty, t)
  | .entries => (.listing t.entries, t)

/-- The table after operations. -/
def after (t : Table ι α) (ops : List (Op ι α)) : Table ι α :=
  ops.foldl (fun t op => (t.step op).2) t

/-- None of the operations, one after the other, takes out the entry of `id` at `h`. -/
def Spares (t : Table ι α) (id : ι) (h : Handle) : List (Op ι α) → Prop
  | [] => True
  | op :: ops => ¬op.Frees t.order.oldest? id h ∧ (t.step op).2.Spares id h ops

end Table

/-- Numbered entries, the most recently used first. -/
abbrev Catalog (ι α : Type) : Type := Roster (Entry ι α)

namespace Catalog

/-- Whoever has the position gives it up. -/
def vacate (c : Catalog ι α) (position? : Option Nat) : Catalog ι α :=
  c.map fun e => e.vacate position?

/-- The number of the entry that claims the position. -/
def atPosition? (c : Catalog ι α) (position : Nat) : Option Handle :=
  (c.entries.find? fun x => x.2.position? = some position).map Prod.fst

variable [DecidableEq ι]

/-- The number of the entry that has the identity. -/
def ofId? (c : Catalog ι α) (id : ι) : Option Handle :=
  (c.entries.find? fun x => x.2.id = id).map Prod.fst

/-- The entry of the identity comes first, with the value and, if one is given, the position. -/
def insert (c : Catalog ι α) (id : ι) (value : α) (position? : Option Nat) :
    Handle × Catalog ι α :=
  match c.ofId? id with
  | some h =>
    (h, ((c.vacate position?).modify h fun e =>
      { e with value := value, position? := position?.or e.position? }).promote h)
  | none => (c.vacate position?).push ⟨value, id, position?⟩

def removeId (c : Catalog ι α) (id : ι) : Option (Entry ι α) × Catalog ι α :=
  match c.ofId? id with
  | some h => c.erase h
  | none => (none, c)

def step (c : Catalog ι α) : Table.Op ι α → Table.Reply ι α × Catalog ι α
  | .insert i value position? => (c.insert i value position?).map (fun h => .handle (some h)) id
  | .promote h => (.done, c.promote h)
  | .remove h => (c.erase h).map .entry id
  | .evict => c.dropOldest.map .entry id
  | .removeId i => (c.removeId i).map .entry id
  | .clear => (.count c.entries.length, ∅)
  | .atPosition p => (.handle (c.atPosition? p), c)
  | .ofId i => (.handle (c.ofId? i), c)
  | .covers p => (.flag (c.atPosition? p).isSome, c)
  | .get h => (.entry (c.value? h), c)
  | .size => (.count c.entries.length, c)
  | .isEmpty => (.flag c.entries.isEmpty, c)
  | .entries => (.listing (c.entries.map Prod.snd), c)

/-- The catalog after operations. -/
def after (c : Catalog ι α) (ops : List (Table.Op ι α)) : Catalog ι α :=
  ops.foldl (fun c op => (c.step op).2) c

/-! ## Insertion -/

variable {c : Catalog ι α} {h : Handle} {id : ι}

theorem entries_insert_of_known {e : Entry ι α} (found : c.ofId? id = some h)
    (mem : (h, e) ∈ c.entries) (value : α) (position? : Option Nat) :
    (c.insert id value position?).2.entries =
      (h, { e with value := value, position? := position?.or e.position? }) ::
        (c.entries.filter fun x => x.1 ≠ h).map fun x => (x.1, x.2.vacate position?) := by
  have there : (h, e.vacate position?) ∈ (c.vacate position?).entries :=
    List.mem_map_of_mem (f := fun x => (x.1, x.2.vacate position?)) mem
  have own : { e.vacate position? with
      value := value, position? := position?.or (e.vacate position?).position? } =
      { e with value := value, position? := position?.or e.position? } := by
    cases position? with
    | none => rw [Entry.vacate_none]
    | some p => simp
  have rest : ((c.vacate position?).entries.filter fun x => x.1 ≠ h) =
      (c.entries.filter fun x => x.1 ≠ h).map fun x => (x.1, x.2.vacate position?) :=
    List.filter_map
  rw [insert, found]
  refine (Roster.entries_promote_modify there _).trans ?_
  rw [own, rest]

theorem entries_insert_of_new (absent : c.ofId? id = none) (value : α) (position? : Option Nat) :
    (c.insert id value position?).2.entries =
      (c.next, ⟨value, id, position?⟩) ::
        c.entries.map fun x => (x.1, x.2.vacate position?) := by
  rw [insert, absent]
  rfl

end Catalog

end ReadThrough
