import ReadThrough.Proofs.Network.Writing
import ReadThrough.Proofs.Tower.Itinerary

/-!
# Towers

A tower is a network in which a single stack stands: a shelf, and caches each over the
one before.  Every node of it has a name, so that no cache is ever retired.  There may be
listeners at any node, but they do nothing when they are called.

* `Network.Tower o subs cs w`: `w` is a tower over the shelf `o`, where the caches are in
  the states `cs` from the lowest one on, and the subscribers of the nodes are `subs`.
* Changing the state of a cache, the shelf, or the listeners leaves a tower; so does a
  new cache over the topmost one.
-/

namespace ReadThrough

variable {ι α : Type}

def Subscriber.isCache : Subscriber → Bool
  | .cache _ => true
  | .script _ => false

/-- The listener takes note of what it hears, and does nothing else. -/
def Script.IsSilent (s : Script ι α) : Prop := s.run = [] ∧ s.failing = false

namespace Network

structure Tower (o : Origin ι α) (subs : NodeId → Registry Subscriber) (cs : List (Cache ι α))
    (w : Network ι α) : Prop where
  size : w.nodes.size = cs.length + 1
  origin : w.origin? 0 = some o
  /-- Each cache stands over the node made before it. -/
  layer : ∀ (k : Nat) c, cs[k]? = some c → ∃ busy, w.layer? (k + 1) = some ⟨c, k, false, busy⟩
  registry : ∀ n, w.registry n = subs n
  /-- The one cache that a node tells is the next one. -/
  chain : ∀ n, (subs n).members.filter Subscriber.isCache =
    if n < cs.length then [.cache (n + 1)] else []
  named : ∀ n ≤ cs.length, ∃ name, w.names.get? name = some n
  inside : ∀ name n, w.names.get? name = some n → n ≤ cs.length
  silent : ∀ (i : Nat) s, w.scripts[i]? = some s → s.IsSilent

variable {w w' : Network ι α} {n k : Nat} {o o' : Origin ι α} {l : Layer ι α}
variable {subs : NodeId → Registry Subscriber} {cs : List (Cache ι α)} {c : Cache ι α}

theorem filterMap_getElem?_range {β : Type} (bs : List β) :
    (List.range bs.length).filterMap (fun k => bs[k]?) = bs := by
  induction bs with
  | nil => rfl
  | cons b bs ih =>
    rw [List.length_cons, List.range_succ_eq_map, List.filterMap_cons, List.filterMap_map]
    exact congrArg (b :: ·) ih

namespace Tower

theorem caches_eq (tower : Tower o subs cs w) : w.caches = cs := by
  have bottom : w.layer? 0 = none := layer?_eq_none tower.origin
  rw [caches, tower.size, List.range_succ_eq_map, List.filterMap_cons, bottom, List.filterMap_map]
  have each : ∀ k ∈ List.range cs.length,
      ((fun n => (w.layer? n).map (·.cache)) ∘ Nat.succ) k = cs[k]? := by
    intro k mem
    obtain ⟨c, at_k⟩ : ∃ c, cs[k]? = some c :=
      ⟨_, List.getElem?_eq_getElem (List.mem_range.1 mem)⟩
    obtain ⟨busy, here⟩ := tower.layer k _ at_k
    rw [at_k]
    exact congrArg (Option.map (·.cache)) here
  rw [List.filterMap_congr each]
  exact filterMap_getElem?_range cs

/-- Only nodes and names matter, as long as the listeners are silent. -/
theorem congr (tower : Tower o subs cs w) (nodes : w'.nodes = w.nodes) (names : w'.names = w.names)
    (silent : ∀ (i : Nat) s, w'.scripts[i]? = some s → s.IsSilent) : Tower o subs cs w' := by
  obtain ⟨size, origin, layer, registry, chain, named, inside, -⟩ := tower
  refine ⟨nodes ▸ size, (origin?_congr nodes).trans origin, fun k c at_k => ?_,
    fun n => (registry_congr nodes).trans (registry n), chain, names ▸ named, names ▸ inside,
    silent⟩
  rw [layer?_congr nodes]
  exact layer k c at_k

/-- Nobody in a tower has to be retired. -/
theorem sweep_eq (tower : Tower o subs cs w) : w.sweep = w := by
  refine sweep_of_named fun n l here => tower.named n (Nat.le_of_lt_succ ?_)
  exact Nat.lt_of_lt_of_eq (lt_size_of_layer? here) tower.size

/-! ## Changes -/

/-- Change the state of one cache, and how busy it is. -/
theorem modifyLayer (tower : Tower o subs cs w) {f : Layer ι α → Layer ι α}
    {g : Cache ι α → Cache ι α} (cache : ∀ l, (f l).cache = g l.cache)
    (below : ∀ l, (f l).below = l.below) (retired : ∀ l, (f l).retired = l.retired) :
    Tower o subs (cs.modify k g) (w.modifyLayer (k + 1) f) := by
  obtain ⟨size, origin, layer, registry, chain, named, inside, silent⟩ := tower
  rw [← List.length_modify g cs k] at size chain named inside
  refine ⟨size_modifyLayer.trans size, origin?_modifyLayer.trans origin, fun j c at_j => ?_,
    fun n => registry_modifyLayer.trans (registry n), chain, by rwa [names_modifyLayer],
    by rwa [names_modifyLayer], ?_⟩
  · rw [List.getElem?_modify] at at_j
    obtain ⟨c', at_j', rfl⟩ := Option.map_eq_some_iff.1 at_j
    obtain ⟨busy, here⟩ := layer j c' at_j'
    rw [layer?_modifyLayer, here]
    by_cases same : k = j
    · subst same
      refine ⟨(f ⟨c', k, false, busy⟩).busy, ?_⟩
      rw [if_pos rfl, if_pos rfl, Option.map_some, ← cache ⟨c', k, false, busy⟩]
      -- of the changed cache only the parts are known, so it is put together from them
      have under := below ⟨c', k, false, busy⟩
      have stays := retired ⟨c', k, false, busy⟩
      generalize f ⟨c', k, false, busy⟩ = l at under stays
      obtain ⟨_, _, _, _⟩ := l
      cases under
      cases stays
      rfl
    · exact ⟨busy, by rw [if_neg same, if_neg fun eq => same (Nat.succ.inj eq)]⟩
  · unfold Network.modifyLayer
    split <;> exact silent

theorem setCache (tower : Tower o subs cs w) :
    Tower o subs (cs.set k c) (w.setCache (k + 1) c) := by
  rw [List.set_eq_modify]
  exact tower.modifyLayer (fun _ => rfl) (fun _ => rfl) fun _ => rfl

theorem setOrigin (tower : Tower o subs cs w) : Tower o' subs cs (w.setBody 0 (.origin o')) := by
  obtain ⟨size, origin, layer, registry, chain, named, inside, silent⟩ := tower
  refine ⟨size_modify.trans size, ?_, fun k c at_k => ?_,
    fun n => registry_setBody.trans (registry n), chain, named, inside, silent⟩
  · rw [origin?_setOrigin origin, if_pos rfl]
  · obtain ⟨busy, here⟩ := layer k c at_k
    exact ⟨busy, (layer?_setOrigin origin).trans here⟩

/-- Change the subscribers of one node, but for the caches among them. -/
theorem modifyRegistry (tower : Tower o subs cs w) {g : Registry Subscriber → Registry Subscriber}
    (lt : n < w.nodes.size) (keeps : ∀ r, (g r).members.filter Subscriber.isCache =
      r.members.filter Subscriber.isCache) :
    Tower o (fun k => if n = k then g (subs k) else subs k) cs
      (w.modify n fun node => { node with registry := g node.registry }) := by
  obtain ⟨size, origin, layer, registry, chain, named, inside, silent⟩ := tower
  refine ⟨size_modify.trans size, origin?_modifyRegistry.trans origin, fun k c at_k => ?_,
    fun k => ?_, fun k => ?_, named, inside, silent⟩
  · obtain ⟨busy, here⟩ := layer k c at_k
    exact ⟨busy, layer?_modifyRegistry.trans here⟩
  · rw [registry_modifyRegistry lt, registry]
  · split
    · rw [keeps, chain]
    · exact chain k

theorem subscribe (tower : Tower o subs cs w) (lt : n < w.nodes.size) (i : Nat) :
    ∃ subs', Tower o subs' cs (w.subscribe n (.script i)) := by
  refine ⟨_, tower.modifyRegistry lt (g := fun r => r.add (.script i)) fun r => ?_⟩
  rw [Registry.add, List.filter_append]
  exact List.append_nil _

theorem unsubscribe (tower : Tower o subs cs w) (lt : n < w.nodes.size) (i : Nat) :
    ∃ subs', Tower o subs' cs (w.unsubscribe n (.script i)).2 := by
  refine ⟨_, tower.modifyRegistry lt (g := fun r => (r.remove (.script i)).2) fun r => ?_⟩
  rw [Registry.remove, List.filter_reverse, ← List.erase_filter, List.filter_reverse,
    List.erase_of_not_mem, List.reverse_reverse]
  rw [List.mem_reverse, List.mem_filter]
  exact fun both => Bool.false_ne_true both.2

/-! ## Building -/

theorem ground {name : String} {shelf : Shelf ι α} :
    Tower ⟨name, shelf, .none⟩ (fun _ => ∅) []
      ((empty : Network ι α).addNode name (.origin ⟨name, shelf, .none⟩)).2 where
  size := rfl
  origin := rfl
  layer k c at_k := by cases at_k
  registry n := by
    rw [registry_addNode]
    rfl
  chain n := (if_neg (Nat.not_lt_zero n)).symm
  named n le := ⟨name, by
    rw [addNode, Index.get?_insert, if_pos rfl]
    exact congrArg some (Nat.le_zero.1 le).symm⟩
  inside name' n found := by
    rw [addNode, Index.get?_insert] at found
    split at found
    · exact Nat.le_of_eq (Option.some.inj found).symm
    · cases found
  silent i s at_i := by cases at_i

/-- A new cache over the topmost node, under a name that leads nowhere yet. -/
theorem raise (tower : Tower o subs cs w) {name : String} (sizing : Sizing)
    (fresh : w.names.get? name = none) :
    ∃ subs', Tower o subs' (cs ++ [.empty sizing]) (w.addCache name cs.length sizing) := by
  obtain ⟨size, origin, layer, registry, chain, named, inside, silent⟩ := tower
  let body : Body ι α := .layer ⟨.empty sizing, cs.length, false, 0⟩
  let w₁ := (w.addNode name body).2.subscribe cs.length (.cache w.nodes.size)
  let subs' : NodeId → Registry Subscriber := fun n =>
    if cs.length = n then (subs n).add (.cache w.nodes.size) else subs n
  have length : (cs ++ [Cache.empty sizing]).length = cs.length + 1 := List.length_append
  have old : ∀ k : Nat, k ≤ cs.length → k ≠ w.nodes.size := fun k le => by omega
  have names : ∀ name', w₁.names.get? name' =
      if name' = name then some w.nodes.size else w.names.get? name' :=
    fun _ => Index.get?_insert _ _ _ _
  have grown : Tower o subs' (cs ++ [.empty sizing]) w₁ := by
    refine ⟨?_, ?_, fun k c at_k => ?_, fun n => ?_, fun (n : Nat) => ?_, fun (n : Nat) le => ?_,
      fun name' n found => ?_, silent⟩
    · rw [size_subscribe, size_addNode, size, length]
    · rw [origin?_subscribe, origin?_addNode, if_neg (old 0 (Nat.zero_le _))]
      exact origin
    · rw [layer?_subscribe, layer?_addNode]
      rw [List.getElem?_append] at at_k
      split at at_k
      · rename_i lt
        rw [if_neg (old (k + 1) lt)]
        exact layer k c at_k
      · rename_i ge
        obtain ⟨lt, eq⟩ := List.getElem?_eq_some_iff.1 at_k
        rw [List.length_singleton] at lt
        have last : k = cs.length := by omega
        subst last
        rw [if_pos size.symm, ← eq]
        simp only [Nat.sub_self, List.getElem_cons_zero]
        exact ⟨0, rfl⟩
    · have here : cs.length < (w.addNode name body).2.nodes.size := by
        rw [size_addNode, size]
        omega
      refine (registry_modifyRegistry (g := fun r => r.add (.cache w.nodes.size)) here).trans ?_
      rw [registry_addNode, registry]
    · rw [length]
      have above := chain n
      by_cases top : cs.length = n
      · rw [if_neg (Nat.not_lt.2 (Nat.le_of_eq top))] at above
        simp only [subs', if_pos top, Registry.add]
        rw [List.filter_append, above, if_pos (Nat.lt_succ_of_le (Nat.le_of_eq top.symm)),
          size, top]
        rfl
      · simp only [subs', if_neg top]
        rw [above]
        exact if_congr (show n < cs.length ↔ n < cs.length + 1 by omega) rfl rfl
    · rw [length] at le
      by_cases top : n = cs.length + 1
      · exact ⟨name, by rw [names, if_pos rfl, size, top]⟩
      · obtain ⟨name', found⟩ := named n (by omega)
        refine ⟨name', ?_⟩
        rw [names, if_neg fun same => ?_, found]
        rw [same, fresh] at found
        cases found
    · rw [length, ← size]
      rcases names_addNode body found with new | kept
      · exact Nat.le_of_eq new
      · exact Nat.le_of_lt (size ▸ Nat.lt_succ_of_le (inside name' n kept))
  refine ⟨subs', ?_⟩
  have swept : w.addCache name cs.length sizing = w₁ := grown.sweep_eq
  rwa [swept]

end Tower

end Network

end ReadThrough
