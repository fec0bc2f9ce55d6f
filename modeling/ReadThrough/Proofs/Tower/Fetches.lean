import ReadThrough.Proofs.Network.Descent
import ReadThrough.Proofs.Tower.Calls
import ReadThrough.Proofs.Tower.Frugal
import ReadThrough.Proofs.Tower.Transparency

/-!
# What towers ask of the bottom

A node that stands over a shelf passes on no more than it is asked, as the source that it is:
the way down comes to no node twice, so that a cache on it which has come to know the size
still knows it when the range is asked for.  A write is handed down to the shelf.

* `Network.Informed path w`: the caches on a way know the size.
* `Network.frugal_source`: a node over a shelf is frugal, by induction on the way down.
* `Network.calls_read` and `Network.calls_perform_write`: the calls of one read and one write.
* `Network.frugal_towers`: what reads and writes at the top of a tower ask of the bottom.
-/

namespace ReadThrough

variable {ι α : Type}

/-- The call to the shelf that an operation at any level of a tower is. -/
def Operation.write? : Operation ι α → Option (Call ι α)
  | .updateAt v position => some (.updateAt v position)
  | .update v => some (.update v)
  | _ => none

namespace Network

variable {w w₀ : Network ι α} {n m : NodeId} {o : Origin ι α} {l₀ : Layer ι α}
variable {path : List NodeId} {d d' : Nat}

/-! ## Nodes as frugal sources -/

/-- The caches of these nodes know the size. -/
def Informed (path : List NodeId) (w : Network ι α) : Prop :=
  ∀ k ∈ path, ∀ l, w.layer? k = some l → l.cache.size?.isSome = true

theorem informed_setCache {c : Cache ι α} {path : List NodeId} (fresh : n ∉ path)
    (known : c.size?.isSome = true) (informed : w.Informed path) :
    (w.setCache n c).Informed (n :: path) := by
  intro k mem l here
  rw [setCache, layer?_modifyLayer] at here
  split at here
  · obtain ⟨l', -, rfl⟩ := Option.map_eq_some_iff.1 here
    exact known
  · rename_i other
    rcases List.mem_cons.1 mem with rfl | mem
    · exact absurd rfl other
    · exact informed k mem l here

variable [DecidableEq ι]

/-- A shelf is called for everything that it is asked. -/
theorem source_calls_origin (here : w.origin? n = some o) :
    ((source (d + 1) n).size w).2 = w.record o.name .size ∧
    (∀ start length, ((source (d + 1) n).range start length w).2 =
      w.record o.name (.range start length)) ∧
    ∀ id, ((source (d + 1) n).byId id w).2 = w.record o.name (.byId id) := by
  have node := node?_of_origin? here
  simp only [source, node]
  exact ⟨rfl, fun _ _ => rfl, fun _ => rfl⟩

theorem frugal_ground (here : w₀.origin? n = some o) : (source (d + 1) n).Frugal
    (fun call => (o.name, call)) Network.calls w₀.SameStack (Informed [n]) where
  size w same := by
    have here' := (same.origin n).trans here
    rw [(source_calls_origin here').1]
    refine ⟨same.trans .record, Or.inr ⟨rfl, fun _ _ k mem l layer => ?_⟩⟩
    cases List.mem_singleton.1 mem
    cases (layer?_eq_none (w := w.record o.name .size) here').symm.trans layer
  range start length w same := by
    rw [(source_calls_origin ((same.origin n).trans here)).2.1]
    exact ⟨same.trans .record, [.range start length], rfl, start, length,
      List.Sublist.cons_cons _ (List.nil_sublist _)⟩
  range_settled start length w same _ := by
    rw [(source_calls_origin ((same.origin n).trans here)).2.1]
    exact ⟨[.range start length], rfl, start, length, .refl _⟩
  byId id w same := by
    rw [(source_calls_origin ((same.origin n).trans here)).2.2]
    exact ⟨same.trans .record, [.byId id], rfl, .refl _⟩

/-- A node over a frugal one is frugal, as long as the way down does not come back to it. -/
theorem frugal_over {tag : Call ι α → String × Call ι α} (here : w₀.layer? n = some l₀)
    (fresh : n ∉ path)
    (below : (source d l₀.below).Frugal tag Network.calls w₀.SameStack (Informed path)) :
    (source (d + 1) n).Frugal tag Network.calls w₀.SameStack (Informed (n :: path)) := by
  have cached := below.through
  have at_n : ∀ w, w₀.SameStack w → ∃ l, w.layer? n = some l ∧ l.below = l₀.below := by
    intro w same
    obtain ⟨l, at_n, eq, -⟩ := same.symm.exists_layer here
    exact ⟨l, at_n, eq⟩
  refine ⟨fun w same => ?_, fun start length w same => ?_, fun start length w same informed => ?_,
    fun id w same => ?_⟩
  all_goals
    obtain ⟨l, layer, eq⟩ := at_n w same
    obtain ⟨size, range, byId, -⟩ := source_of_layer (d := d) layer
  · obtain ⟨same', asked⟩ := cached.size (l.cache, w) same
    rw [size, eq, calls_store]
    refine ⟨same'.trans .setCache, asked.imp_right fun ⟨asked, settles⟩ => ⟨asked, ?_⟩⟩
    intro size told
    obtain ⟨known, informed⟩ := settles size told
    exact informed_setCache fresh known informed
  · obtain ⟨same', asked⟩ := cached.range start length (l.cache, w) same
    rw [range, eq, calls_store]
    exact ⟨same'.trans .setCache, asked⟩
  · obtain ⟨known, informed⟩ := List.forall_mem_cons.1 informed
    rw [range, eq, calls_store]
    exact cached.range_settled start length (l.cache, w) same ⟨known l layer, informed⟩
  · obtain ⟨same', asked⟩ := cached.byId id (l.cache, w) same
    rw [byId, eq, calls_store]
    exact ⟨same'.trans .setCache, asked⟩

/-- A node that stands over a shelf is frugal: what counts are the calls to this shelf. -/
theorem frugal_source (found : w₀.bottom? d' n = some (path, m, o)) (deep : path.length ≤ d) :
    (source d n).Frugal (fun call => (o.name, call)) Network.calls w₀.SameStack
      (Informed path) := by
  induction d' generalizing n path d with
  | zero => cases found
  | succ d' ih =>
    have once := nodup_bottom? found
    rcases bottom?_cases found with ⟨here, rfl⟩ | ⟨l, rest, here, rfl, under⟩
    · obtain ⟨d, rfl⟩ := Nat.exists_eq_add_of_le' deep
      exact frugal_ground here
    · obtain ⟨d, rfl⟩ := Nat.exists_eq_add_of_le' (Nat.le_trans (Nat.le_add_left 1 _) deep)
      exact frugal_over here (List.nodup_cons.1 once).1 (ih under (Nat.le_of_succ_le_succ deep))

/-! ## Reads and writes -/

variable [ToString ι]

/-- A read at a cache asks the shelf at the bottom no more than it may. -/
theorem calls_read {name : String} {l : Layer ι α} (found : w.names.get? name = some n)
    (here : w.layer? n = some l) (rests : w.Rests n m o) (q : Query ι) :
    ∃ more : List (Call ι α), (w.execute (.ask name q.operation)).2.calls =
      more.map (fun call => (o.name, call)) ++ w.calls ∧ q.Warrants l.cache more := by
  obtain ⟨d, deep, performed⟩ := operate_of_layer here name q
  rw [← perform_ask found (node?_of_layer? here)] at performed
  have steps : Steps (w.perform (.ask name q.operation)).2.1
      (w.perform (.ask name q.operation)).2.2 []
      (store n (Cache.query (source d l.below) q l.cache w)).2 := by
    rw [performed]
    exact .done
  obtain ⟨path, way⟩ := bottom?_of_rests rests
  rw [(steps.execute (Nat.zero_le _)).1]
  dsimp only
  rw [calls_store]
  rcases bottom?_cases way with ⟨at_n, -⟩ | ⟨l', rest, here', rfl, under⟩
  · rw [origin?_eq_none here] at at_n
    cases at_n
  · cases here.symm.trans here'
    have shorter := Nat.le_of_succ_le (length_bottom?_le way)
    exact Cache.query_frugal (frugal_source under (Nat.le_trans shorter deep)) .refl q l.cache

/-- The first step of a write calls the shelf once. -/
theorem calls_perform_write {name : String} {op : Operation ι α} {call : Call ι α}
    (found : w.names.get? name = some n) (rests : w.Rests n m o) (writes : op.write? = some call) :
    (w.perform (.ask name op)).2.1.calls = (o.name, call) :: w.calls := by
  obtain ⟨node, at_n⟩ := rests.exists_node
  obtain ⟨path, way⟩ := bottom?_of_rests rests
  have straight : ∀ u : Update α, (w.write n name u).2.1.calls = (o.name, u.call) :: w.calls := by
    intro u
    rw [write_eq, way]
    dsimp only
    unfold writeShelf
    dsimp only
    split <;> rfl
  rw [perform_ask found at_n]
  cases op with
  | updateAt v position =>
    cases writes
    exact straight (.place v position)
  | update v =>
    cases writes
    exact straight (.renew v)
  | _ => cases writes

/-- A read at the top of a tower asks the bottom at most once for the size, and after that at
most once for objects, whatever stands at the bottom and whatever the caches hold; a write
calls it once, in the same words, and changes no cache.  In a network all the calls that follow
a write are made by listeners. -/
theorem frugal_towers :
    (∀ (σ : Type) (src : Source σ ι α) (height : Nat) (q : Query ι) (c : Cache ι α)
      (p : Pile (σ × List (Call ι α)) ι α height), ∃ more : List (Call ι α),
      (Cache.query (src.traced.pile height) q c p).2.2.bottom.2 = more ++ p.bottom.2 ∧
        q.Warrants c more) ∧
    (∀ (σ ρ : Type) (writer : Writer σ ρ α) (height : Nat) (u : Update α) (c : Cache ι α)
      (p : Pile (σ × List (Call ι α)) ι α height),
      let updated := Cache.update (writer.traced.pile height) u c p
      updated.1 = (writer u p.bottom.1).1 ∧
        updated.2.2.bottom = ((writer u p.bottom.1).2, u.call :: p.bottom.2) ∧
        updated.2.1 = c ∧ updated.2.2.caches = p.caches) ∧
    ∀ (w : Network ι α) (name : String) (n m : NodeId) (o : Origin ι α),
      w.names.get? name = some n → w.Rests n m o →
      (∀ l, w.layer? n = some l → ∀ q : Query ι, ∃ more : List (Call ι α),
        (w.execute (.ask name q.operation)).2.calls =
          more.map (fun call => (o.name, call)) ++ w.calls ∧ q.Warrants l.cache more) ∧
      ∀ (op : Operation ι α) (call : Call ι α), op.write? = some call →
        (w.execute (.ask name op)).2.calls =
          calledByListeners (w.course (.ask name op)) ++ (o.name, call) :: w.calls := by
  refine ⟨fun σ => Cache.query_pile, fun σ ρ => Cache.update_pile, fun w name n m o found rests =>
    ⟨fun l here => calls_read found here rests, fun op call writes => ?_⟩⟩
  rw [calls_execute, calls_perform_write found rests writes]

/-- In the stack with an object replaced through it, a read of a cached one fetches nothing,
and a read of all of them does so once; without listeners another write makes one call. -/
theorem frugal_stacked : ∃ o l, stacked.names.get? "upper" = some 2 ∧
    stacked.layer? 2 = some l ∧ stacked.Rests 2 0 o ∧
    (∃ more : List (Call Nat Nat), (stacked.execute (.ask "upper" (.get 1))).2.calls =
      more.map (fun call => (o.name, call)) ++ stacked.calls ∧ more.Sublist [.size]) ∧
    (∃ more : List (Call Nat Nat), (stacked.execute (.ask "upper" (.range 0 3))).2.calls =
      more.map (fun call => (o.name, call)) ++ stacked.calls ∧
      ∃ start length, more.Sublist [.range start length, .size]) ∧
    (stacked.execute (.ask "upper" (.updateAt 5 0))).2.calls =
      (o.name, .updateAt 5 0) :: stacked.calls := by
  have named : stacked.names.get? "upper" = some 2 := by decide +kernel
  have upper : (stacked.layer? 2).isSome = true := by decide +kernel
  have way : (stacked.bottom? 3 2).map (fun found => found.2.1) = some 0 := by decide +kernel
  have covers : ((stacked.layer? 2).map fun l => l.cache.coversPosition 1) = some true := by
    decide +kernel
  have quiet : (calledByListeners (stacked.course (.ask "upper" (.updateAt 5 0)))).length = 0 := by
    decide +kernel
  obtain ⟨l, here⟩ := Option.isSome_iff_exists.1 upper
  obtain ⟨⟨path, m, o⟩, found, rfl⟩ := Option.map_eq_some_iff.1 way
  have rests := rests_of_bottom? found
  obtain ⟨reads, writes⟩ := frugal_towers.2.2 stacked "upper" 2 0 o named rests
  obtain ⟨few, one, served⟩ := reads l here (.get 1)
  obtain ⟨more, all, asked⟩ := reads l here (.range 0 3)
  have written := writes (.updateAt 5 0) _ rfl
  rw [List.eq_nil_of_length_eq_zero quiet] at written
  rw [here] at covers
  exact ⟨o, l, named, here, rests, ⟨few, one, served.cached (Option.some.inj covers)⟩,
    ⟨more, all, asked.modest⟩, written⟩

end Network

end ReadThrough
