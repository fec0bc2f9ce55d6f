/-!
# Registries of subscribers

A `Registry β` lists subscribers in the order of their registration; one that
registers twice is called twice.  An announcement goes to the subscribers in
`Registry.calls`, the one registered last first, as they are when it starts.

* `Registry.remove` takes back the latest registration of a subscriber, so it
  undoes `Registry.add`.
-/

namespace ReadThrough

structure Registry (β : Type) : Type where
  members : List β
  deriving DecidableEq

namespace Registry

variable {β : Type}

def empty : Registry β := ⟨[]⟩

instance : EmptyCollection (Registry β) := ⟨empty⟩

instance : Inhabited (Registry β) := ⟨empty⟩

/-- The number of registrations. -/
def size (r : Registry β) : Nat := r.members.length

def isEmpty (r : Registry β) : Bool := r.members.isEmpty

def add (r : Registry β) (b : β) : Registry β := ⟨r.members ++ [b]⟩

/-- The subscribers in the order in which an announcement reaches them. -/
def calls (r : Registry β) : List β := r.members.reverse

variable [DecidableEq β]

/-- Take back the latest registration; also tells whether there was one. -/
def remove (r : Registry β) (b : β) : Bool × Registry β :=
  (r.members.contains b, ⟨(r.members.reverse.erase b).reverse⟩)

theorem remove_add (r : Registry β) (b : β) : (r.add b).remove b = (true, r) := by
  simp [add, remove]

end Registry

end ReadThrough
