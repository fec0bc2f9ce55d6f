/-!
# Finite maps

An `Index κ ν` maps finitely many keys to one value each.  That no key is bound
twice is part of the type, so its size is the number of bound keys.

* `Index.get?_insert` and `Index.get?_erase` say what the two updates do.
-/

namespace ReadThrough

/-- Finitely many keys with a value each. -/
structure Index (κ ν : Type) : Type where
  pairs : List (κ × ν)
  nodup : (pairs.map (·.1)).Nodup

namespace Index

variable {κ ν : Type}

def empty : Index κ ν := ⟨[], List.nodup_nil⟩

instance : EmptyCollection (Index κ ν) := ⟨empty⟩

instance : Inhabited (Index κ ν) := ⟨empty⟩

def size (m : Index κ ν) : Nat := m.pairs.length

def isEmpty (m : Index κ ν) : Bool := m.pairs.isEmpty

def keys (m : Index κ ν) : List κ := m.pairs.map (·.1)

variable [DecidableEq κ]

def get? (m : Index κ ν) (k : κ) : Option ν := m.pairs.lookup k

def contains (m : Index κ ν) (k : κ) : Bool := (m.get? k).isSome

/-- Unbind a key. -/
def erase (m : Index κ ν) (k : κ) : Index κ ν where
  pairs := m.pairs.filter fun p => !decide (p.1 = k)
  nodup := m.nodup.sublist (List.filter_sublist.map _)

/-- Bind a key, in place of what it was bound to. -/
def insert (m : Index κ ν) (k : κ) (v : ν) : Index κ ν where
  pairs := (k, v) :: (m.erase k).pairs
  nodup := by
    refine List.nodup_cons.2 ⟨?_, (m.erase k).nodup⟩
    simp [erase]

/-- Unbind a key where it is bound to `v`. -/
def eraseBinding [DecidableEq ν] (m : Index κ ν) (k : κ) (v : ν) : Index κ ν :=
  if m.get? k = some v then m.erase k else m

@[simp] theorem get?_empty (k : κ) : (∅ : Index κ ν).get? k = none := rfl

theorem lookup_filter_ne (l : List (κ × ν)) (k k' : κ) :
    (l.filter fun p => !decide (p.1 = k)).lookup k' =
      if k' = k then none else l.lookup k' := by
  induction l with
  | nil => simp
  | cons p l ih =>
    obtain ⟨a, v⟩ := p
    by_cases ha : a = k
    · subst ha
      by_cases hk : k' = a
      · rw [if_pos hk] at ih ⊢
        simpa using ih
      · simp [ih, hk, List.lookup_cons, beq_false_of_ne hk]
    · by_cases hk : k' = a
      · subst hk
        simp [ha]
      · simp [ha, ih, List.lookup_cons, beq_false_of_ne hk]

theorem get?_erase (m : Index κ ν) (k k' : κ) :
    (m.erase k).get? k' = if k' = k then none else m.get? k' :=
  lookup_filter_ne m.pairs k k'

theorem get?_insert (m : Index κ ν) (k k' : κ) (v : ν) :
    (m.insert k v).get? k' = if k' = k then some v else m.get? k' := by
  by_cases h : k' = k
  · subst h
    simp [get?, insert]
  · simp only [get?, insert, List.lookup_cons, beq_false_of_ne h, h, if_false]
    simpa only [get?, h, if_false] using get?_erase m k k'

theorem get?_eraseBinding [DecidableEq ν] (m : Index κ ν) (k k' : κ) (v : ν) :
    (m.eraseBinding k v).get? k' =
      if k' = k ∧ m.get? k = some v then none else m.get? k' := by
  unfold eraseBinding
  by_cases h : m.get? k = some v
  · simp only [h, if_true, and_true, get?_erase]
  · simp only [h, if_false, and_false]

theorem mem_pairs_iff (m : Index κ ν) (k : κ) (v : ν) :
    (k, v) ∈ m.pairs ↔ m.get? k = some v := by
  obtain ⟨pairs, nodup⟩ := m
  change _ ↔ pairs.lookup k = some v
  induction pairs with
  | nil => simp
  | cons p pairs ih =>
    obtain ⟨a, w⟩ := p
    rw [List.map_cons, List.nodup_cons] at nodup
    by_cases ha : k = a
    · subst ha
      have out : (k, v) ∉ pairs := fun mem => nodup.1 (List.mem_map.2 ⟨_, mem, rfl⟩)
      simp [out, eq_comm]
    · simp [ih nodup.2, List.lookup_cons, beq_false_of_ne ha, ha]

/-- The order of the pairs does not matter. -/
theorem get?_eq_of_perm {m m' : Index κ ν} (same : m.pairs.Perm m'.pairs) (k : κ) :
    m.get? k = m'.get? k :=
  Option.ext fun v => by rw [← mem_pairs_iff, ← mem_pairs_iff, same.mem_iff]

theorem mem_keys_iff (m : Index κ ν) (k : κ) : k ∈ m.keys ↔ ∃ v, m.get? k = some v := by
  simp [keys, ← mem_pairs_iff]

/-- The size is the number of different keys that are bound. -/
theorem size_eq_length (m : Index κ ν) {ks : List κ} (nodup : ks.Nodup)
    (bound : ∀ k, (∃ v, m.get? k = some v) ↔ k ∈ ks) : m.size = ks.length := by
  have same : m.keys.Perm ks := (List.perm_ext_iff_of_nodup m.nodup nodup).2 fun k =>
    (m.mem_keys_iff k).trans (bound k)
  simpa [keys, size] using same.length_eq

end Index

end ReadThrough
