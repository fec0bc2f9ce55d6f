import Mathlib.Tactic.Common
import ReadThrough.Network.Basic

/-!
# Changing nodes

A network is looked at through `layer?`, `origin?` and `registry`, and changed by
replacing the state of a cache, replacing a shelf, or changing a registry.  Each
change shows in one of the three views only.
-/

namespace ReadThrough

variable {ι α : Type}

def Body.layer? : Body ι α → Option (Layer ι α)
  | .layer l => some l
  | _ => none

def Body.origin? : Body ι α → Option (Origin ι α)
  | .origin o => some o
  | _ => none

theorem Registry.mem_add {β : Type} {r : Registry β} {a b : β} :
    a ∈ (r.add b).members ↔ a ∈ r.members ∨ a = b := by
  rw [add, List.mem_append, List.mem_singleton]

/-- A subscriber that is there leaves its latest place. -/
theorem Registry.exists_remove {β : Type} [DecidableEq β] {r : Registry β} {b : β}
    (mem : b ∈ r.members) : ∃ xs ys, b ∉ ys ∧ r.members = xs ++ b :: ys ∧
      r.remove b = (true, ⟨xs ++ ys⟩) := by
  obtain ⟨xs, ys, fresh, split, erased⟩ := List.exists_erase_eq (List.mem_reverse.2 mem)
  refine ⟨ys.reverse, xs.reverse, fun later => fresh (List.mem_reverse.1 later), ?_, ?_⟩
  · rw [← List.reverse_reverse r.members, split, List.reverse_append, List.reverse_cons,
      List.append_assoc, List.singleton_append]
  · rw [remove, erased, List.reverse_append, List.contains_iff_mem.2 mem]

theorem Registry.remove_absent {β : Type} [DecidableEq β] {r : Registry β} {b : β}
    (absent : b ∉ r.members) : r.remove b = (false, r) := by
  have none : r.members.contains b = false := by
    rw [← Bool.not_eq_true, List.contains_iff_mem]
    exact absent
  rw [remove, none, List.erase_of_not_mem fun mem => absent (List.mem_reverse.1 mem),
    List.reverse_reverse]

theorem Registry.mem_remove_of_ne {β : Type} [DecidableEq β] {r : Registry β} {a b : β}
    (ne : a ≠ b) : a ∈ (r.remove b).2.members ↔ a ∈ r.members := by
  rw [remove, List.mem_reverse, List.mem_erase_of_ne ne, List.mem_reverse]

namespace Network

variable {w w' : Network ι α} {n m k : NodeId} {l l' : Layer ι α} {o o' : Origin ι α}
variable {f : Layer ι α → Layer ι α} {g : Registry Subscriber → Registry Subscriber}

theorem layer?_eq : w.layer? n = (w.node? n).bind fun node => node.body.layer? := by
  unfold layer?
  rcases w.node? n with _ | ⟨_ | _ | _, r⟩ <;> rfl

theorem origin?_eq : w.origin? n = (w.node? n).bind fun node => node.body.origin? := by
  unfold origin?
  rcases w.node? n with _ | ⟨_ | _ | _, r⟩ <;> rfl

theorem registry_eq : w.registry n = ((w.node? n).map fun node => node.registry).getD ∅ := by
  unfold registry
  cases w.node? n <;> rfl

/-! Networks with the same nodes look the same. -/

theorem layer?_congr (nodes : w'.nodes = w.nodes) : w'.layer? k = w.layer? k := by
  rw [layer?_eq, layer?_eq, node?, node?, nodes]

theorem origin?_congr (nodes : w'.nodes = w.nodes) : w'.origin? k = w.origin? k := by
  rw [origin?_eq, origin?_eq, node?, node?, nodes]

theorem registry_congr (nodes : w'.nodes = w.nodes) : w'.registry k = w.registry k := by
  rw [registry_eq, registry_eq, node?, node?, nodes]

theorem node?_modify {f : Node ι α → Node ι α} :
    (w.modify n f).node? k = if n = k then (w.node? k).map f else w.node? k :=
  Array.getElem?_modify

@[simp] theorem size_modify {f : Node ι α → Node ι α} :
    (w.modify n f).nodes.size = w.nodes.size :=
  Array.size_modify

theorem lt_size_of_layer? (here : w.layer? n = some l) : n < w.nodes.size := by
  rw [layer?_eq] at here
  obtain ⟨node, at_n, -⟩ := Option.bind_eq_some_iff.1 here
  exact (Array.getElem?_eq_some_iff.1 at_n).1

theorem origin?_eq_none (here : w.layer? n = some l) : w.origin? n = none := by
  rw [layer?_eq] at here
  rw [origin?_eq]
  obtain ⟨⟨_ | _ | _, r⟩, at_n, body⟩ := Option.bind_eq_some_iff.1 here
  all_goals cases body
  rw [at_n]
  rfl

theorem layer?_eq_none (here : w.origin? n = some o) : w.layer? n = none := by
  rw [origin?_eq] at here
  rw [layer?_eq]
  obtain ⟨⟨_ | _ | _, r⟩, at_n, body⟩ := Option.bind_eq_some_iff.1 here
  all_goals cases body
  rw [at_n]
  rfl

theorem lt_size_of_origin? (here : w.origin? n = some o) : n < w.nodes.size := by
  rw [origin?_eq] at here
  obtain ⟨node, at_n, -⟩ := Option.bind_eq_some_iff.1 here
  exact (Array.getElem?_eq_some_iff.1 at_n).1

theorem node?_of_layer? (here : w.layer? n = some l) :
    w.node? n = some ⟨.layer l, w.registry n⟩ := by
  rw [layer?_eq] at here
  obtain ⟨⟨_ | _ | _, r⟩, at_n, body⟩ := Option.bind_eq_some_iff.1 here
  all_goals cases body
  rw [registry_eq, at_n]
  rfl

theorem node?_of_origin? (here : w.origin? n = some o) :
    w.node? n = some ⟨.origin o, w.registry n⟩ := by
  rw [origin?_eq] at here
  obtain ⟨⟨_ | _ | _, r⟩, at_n, body⟩ := Option.bind_eq_some_iff.1 here
  all_goals cases body
  rw [registry_eq, at_n]
  rfl

/-! ## The state of a cache -/

theorem layer?_setBody (body : Body ι α) (exists_n : n < w.nodes.size) :
    (w.setBody n body).layer? k = if n = k then body.layer? else w.layer? k := by
  rw [layer?_eq, setBody, node?_modify, layer?_eq]
  split
  · rename_i same
    subst same
    have at_n : w.node? n = some w.nodes[n] := Array.getElem?_eq_getElem exists_n
    rw [at_n]
    rfl
  · rfl

theorem origin?_setBody (body : Body ι α) (exists_n : n < w.nodes.size) :
    (w.setBody n body).origin? k = if n = k then body.origin? else w.origin? k := by
  rw [origin?_eq, setBody, node?_modify, origin?_eq]
  split
  · rename_i same
    subst same
    have at_n : w.node? n = some w.nodes[n] := Array.getElem?_eq_getElem exists_n
    rw [at_n]
    rfl
  · rfl

/-- Another state of a cache does not concern the shelves. -/
theorem origin?_setLayer (here : w.layer? n = some l) :
    (w.setBody n (.layer l')).origin? k = w.origin? k := by
  rw [origin?_setBody _ (lt_size_of_layer? here)]
  split
  · rename_i same
    rw [← same, origin?_eq_none here]
    rfl
  · rfl

@[simp] theorem registry_setBody {body : Body ι α} :
    (w.setBody n body).registry k = w.registry k := by
  rw [registry_eq, setBody, node?_modify, registry_eq]
  split
  · cases w.node? k <;> rfl
  · rfl

theorem modifyLayer_eq (here : w.layer? n = some l) :
    w.modifyLayer n f = w.setBody n (.layer (f l)) := by
  rw [modifyLayer, here]

theorem modifyLayer_of_none (absent : w.layer? n = none) : w.modifyLayer n f = w := by
  rw [modifyLayer, absent]

theorem layer?_modifyLayer :
    (w.modifyLayer n f).layer? k = if n = k then (w.layer? k).map f else w.layer? k := by
  cases here : w.layer? n with
  | none =>
    rw [modifyLayer_of_none here]
    split
    · rename_i same
      rw [← same, here]
      rfl
    · rfl
  | some l =>
    rw [modifyLayer_eq here, layer?_setBody _ (lt_size_of_layer? here)]
    split
    · rename_i same
      rw [← same, here]
      rfl
    · rfl

@[simp] theorem origin?_modifyLayer : (w.modifyLayer n f).origin? k = w.origin? k := by
  cases here : w.layer? n with
  | none => rw [modifyLayer_of_none here]
  | some l => rw [modifyLayer_eq here, origin?_setLayer here]

@[simp] theorem registry_modifyLayer : (w.modifyLayer n f).registry k = w.registry k := by
  unfold modifyLayer
  split
  · exact registry_setBody
  · rfl

@[simp] theorem size_modifyLayer : (w.modifyLayer n f).nodes.size = w.nodes.size := by
  unfold modifyLayer
  split
  · exact size_modify
  · rfl

@[simp] theorem names_modifyLayer : (w.modifyLayer n f).names = w.names := by
  unfold modifyLayer
  split <;> rfl

/-! ## Registries -/

theorem layer?_modifyRegistry :
    (w.modify n fun node => { node with registry := g node.registry }).layer? k = w.layer? k := by
  rw [layer?_eq, node?_modify, layer?_eq]
  split
  · cases w.node? k <;> rfl
  · rfl

theorem origin?_modifyRegistry :
    (w.modify n fun node => { node with registry := g node.registry }).origin? k = w.origin? k := by
  rw [origin?_eq, node?_modify, origin?_eq]
  split
  · cases w.node? k <;> rfl
  · rfl

theorem registry_modifyRegistry (exists_n : n < w.nodes.size) :
    (w.modify n fun node => { node with registry := g node.registry }).registry k =
      if n = k then g (w.registry k) else w.registry k := by
  rw [registry_eq, node?_modify, registry_eq]
  split
  · rename_i same
    subst same
    have at_n : w.node? n = some w.nodes[n] := Array.getElem?_eq_getElem exists_n
    rw [at_n]
    rfl
  · rfl

@[simp] theorem layer?_subscribe {s : Subscriber} : (w.subscribe n s).layer? k = w.layer? k :=
  layer?_modifyRegistry (g := fun r => r.add s)

@[simp] theorem origin?_subscribe {s : Subscriber} :
    (w.subscribe n s).origin? k = w.origin? k :=
  origin?_modifyRegistry (g := fun r => r.add s)

@[simp] theorem size_subscribe {s : Subscriber} :
    (w.subscribe n s).nodes.size = w.nodes.size :=
  size_modify

@[simp] theorem layer?_unsubscribe {s : Subscriber} :
    (w.unsubscribe n s).2.layer? k = w.layer? k :=
  layer?_modifyRegistry (g := fun r => (r.remove s).2)

@[simp] theorem origin?_unsubscribe {s : Subscriber} :
    (w.unsubscribe n s).2.origin? k = w.origin? k :=
  origin?_modifyRegistry (g := fun r => (r.remove s).2)

@[simp] theorem size_unsubscribe {s : Subscriber} :
    (w.unsubscribe n s).2.nodes.size = w.nodes.size :=
  size_modify

theorem registry_subscribe {s : Subscriber} (exists_n : n < w.nodes.size) :
    (w.subscribe n s).registry k = if n = k then (w.registry k).add s else w.registry k :=
  registry_modifyRegistry (g := fun r => r.add s) exists_n

theorem registry_unsubscribe {s : Subscriber} (exists_n : n < w.nodes.size) :
    (w.unsubscribe n s).2.registry k =
      if n = k then ((w.registry k).remove s).2 else w.registry k :=
  registry_modifyRegistry (g := fun r => (r.remove s).2) exists_n

theorem mem_registry_subscribe {a s : Subscriber} (exists_n : n < w.nodes.size) :
    a ∈ ((w.subscribe n s).registry k).members ↔
      a ∈ (w.registry k).members ∨ n = k ∧ a = s := by
  rw [registry_subscribe exists_n]
  split
  · rename_i same
    rw [Registry.mem_add, and_iff_right same]
  · rename_i other
    exact (or_iff_left fun both => other both.1).symm

/-- Others stay subscribed. -/
theorem mem_registry_unsubscribe {a s : Subscriber} (exists_n : n < w.nodes.size) (ne : a ≠ s) :
    a ∈ ((w.unsubscribe n s).2.registry k).members ↔ a ∈ (w.registry k).members := by
  rw [registry_unsubscribe exists_n]
  split
  · exact Registry.mem_remove_of_ne ne
  · rfl

/-! ## New nodes -/

theorem node?_addNode {name : String} {body : Body ι α} :
    (w.addNode name body).2.node? k =
      if k = w.nodes.size then some ⟨body, ∅⟩ else w.node? k :=
  Array.getElem?_push

theorem node?_eq_none (absent : w.nodes.size ≤ n) : w.node? n = none :=
  Array.getElem?_eq_none absent

end Network

end ReadThrough
