import Mathlib.Data.List.Range
import ReadThrough.Proofs.Network.Stack

/-!
# The way down

A write goes from the node it is asked of down to the shelf at the bottom.  The way comes to
no node twice, so that it is never longer than there are nodes, and the search for the shelf
finds it from any height.

* `Network.bottom?_of_mem`: each node on the way has the rest of it as its own way down.
* `Network.bottom?_of_rests`: the shelf on which a node rests is found.
-/

namespace ReadThrough.Network

variable {ι α : Type} {w : Network ι α} {n m : NodeId} {o : Origin ι α} {path : List NodeId}
variable {d d' : Nat}

theorem bottom?_mono (found : w.bottom? d n = some (path, m, o)) (le : d ≤ d') :
    w.bottom? d' n = some (path, m, o) := by
  induction d generalizing n path d' with
  | zero => cases found
  | succ d ih =>
    obtain ⟨d', rfl⟩ : ∃ k, d' = k + 1 := ⟨d' - 1, by omega⟩
    unfold bottom? at found ⊢
    split at found
    · exact found
    · obtain ⟨⟨path', m', o'⟩, under, eq⟩ := Option.map_eq_some_iff.1 found
      cases eq
      rw [ih under (Nat.le_of_succ_le_succ le)]
      rfl
    · cases found

/-- The way down from a node is one. -/
theorem bottom?_unique {path' : List NodeId} (found : w.bottom? d n = some (path, m, o))
    (found' : w.bottom? d' n = some (path', m, o)) : path = path' := by
  have one := (bottom?_mono found (Nat.le_max_left d d')).symm.trans
    (bottom?_mono found' (Nat.le_max_right d d'))
  exact congrArg Prod.fst (Option.some.inj one)

theorem exists_bottom?_of_rests (rests : w.Rests n m o) :
    ∃ d path, w.bottom? d n = some (path, m, o) := by
  induction rests with
  | here at_n => exact ⟨1, [_], by rw [bottom?, node?_of_origin? at_n]⟩
  | above under _ ih =>
    obtain ⟨d, path, found⟩ := ih
    obtain ⟨l, here, rfl⟩ := Option.map_eq_some_iff.1 under
    exact ⟨d + 1, _ :: path, by rw [bottom?, node?_of_layer? here]; dsimp only; rw [found]; rfl⟩

/-- The way down starts at the node and goes on as the way down of the next one, if it has not
come to the shelf. -/
theorem bottom?_cases (found : w.bottom? (d + 1) n = some (path, m, o)) :
    (w.origin? n = some o ∧ path = [n]) ∨ ∃ l rest, w.layer? n = some l ∧ path = n :: rest ∧
      w.bottom? d l.below = some (rest, m, o) := by
  rw [bottom?] at found
  split at found
  · rename_i at_n
    cases found
    exact Or.inl ⟨by rw [origin?_eq, at_n]; rfl, rfl⟩
  · rename_i l r at_n
    obtain ⟨⟨rest, m', o'⟩, under, eq⟩ := Option.map_eq_some_iff.1 found
    cases eq
    exact Or.inr ⟨l, rest, by rw [layer?_eq, at_n]; rfl, rfl, under⟩
  · cases found

/-- Each node on the way has the rest of it as its own way down. -/
theorem bottom?_of_mem (found : w.bottom? d n = some (path, m, o)) {k : NodeId} (mem : k ∈ path) :
    k < w.nodes.size ∧ ∃ d' rest, w.bottom? d' k = some (rest, m, o) ∧
      rest.length ≤ path.length := by
  induction d generalizing n path with
  | zero => cases found
  | succ d ih =>
    rcases bottom?_cases found with ⟨here, rfl⟩ | ⟨l, rest, here, rfl, under⟩
    · cases List.mem_singleton.1 mem
      exact ⟨lt_size_of_origin? here, d + 1, _, found, Nat.le_refl _⟩
    · rcases List.mem_cons.1 mem with rfl | mem
      · exact ⟨lt_size_of_layer? here, d + 1, _, found, Nat.le_refl _⟩
      · obtain ⟨lt', d', rest', found', le⟩ := ih under mem
        exact ⟨lt', d', rest', found', Nat.le_succ_of_le le⟩

/-- The way down comes to no node twice. -/
theorem nodup_bottom? (found : w.bottom? d n = some (path, m, o)) : path.Nodup := by
  induction d generalizing n path with
  | zero => cases found
  | succ d ih =>
    rcases bottom?_cases found with ⟨-, rfl⟩ | ⟨l, rest, -, rfl, under⟩
    · exact List.nodup_singleton n
    · refine List.nodup_cons.2 ⟨fun mem => ?_, ih under⟩
      obtain ⟨-, d', rest', found', le⟩ := bottom?_of_mem under mem
      rw [← bottom?_unique found found'] at le
      exact absurd le (Nat.not_succ_le_self _)

theorem bottom?_length (found : w.bottom? d n = some (path, m, o)) :
    w.bottom? path.length n = some (path, m, o) := by
  induction d generalizing n path with
  | zero => cases found
  | succ d ih =>
    rcases bottom?_cases found with ⟨here, rfl⟩ | ⟨l, rest, here, rfl, under⟩
    · rw [List.length_singleton, bottom?, node?_of_origin? here]
      rw [bottom?, node?_of_origin? here] at found
      exact found
    · rw [List.length_cons, bottom?, node?_of_layer? here]
      dsimp only
      rw [ih under]
      rfl

/-- No more nodes lie on the way than there are. -/
theorem length_bottom?_le (found : w.bottom? d n = some (path, m, o)) :
    path.length ≤ w.nodes.size := by
  have inside : path ⊆ List.range w.nodes.size := fun k mem =>
    List.mem_range.2 (bottom?_of_mem found mem).1
  have few := (List.subperm_of_subset (nodup_bottom? found) inside).length_le
  rwa [List.length_range] at few

/-- The shelf at the bottom is found from any height. -/
theorem bottom?_of_rests (rests : w.Rests n m o) :
    ∃ path, w.bottom? w.depth n = some (path, m, o) := by
  obtain ⟨d, path, found⟩ := exists_bottom?_of_rests rests
  exact ⟨path, bottom?_mono (bottom?_length found) (Nat.le_succ_of_le (length_bottom?_le found))⟩

theorem Rests.exists_node (rests : w.Rests n m o) : ∃ node, w.node? n = some node := by
  cases rests with
  | here at_n => exact ⟨_, node?_of_origin? at_n⟩
  | above under _ =>
    obtain ⟨l, here, -⟩ := Option.map_eq_some_iff.1 under
    exact ⟨_, node?_of_layer? here⟩

end ReadThrough.Network
