import ReadThrough.Proofs.Cache.Agreeing
import ReadThrough.Proofs.Network.Editing
import ReadThrough.Proofs.Tower.Commands

/-!
# One cache in a network

In a network with a single cache the cache is registered with the shelf that it stands over, and
nobody else tells it of anything.  So each command does to the two of them what the same step does
to a shelf with a cache in front: an edit of this shelf is heard of before it returns, an edit of
another one is not, and a cache that is attached to another shelf leaves the registry of the old
one and enters that of the new one.

* `Network.Mirrors w name n m f`: the cache of `w` is node `n` and stands over node `m`, both are
  as in `f`, and the cache is registered with `m` and nobody with any other node.
* `Mirrors.announceAll`: what an announcement of the shelf comes to.
* `Mirrors.read`, `Mirrors.update`, `Mirrors.attach`, `Mirrors.deed` and others are the commands.
-/

namespace ReadThrough

variable {ι α β : Type}

/-- The call of a shelf that an update ends in. -/
def Update.deed : Update α → Shelf.Deed ι α
  | .place v position => .updateAt v position
  | .renew v => .update v

variable [DecidableEq ι] [ToString ι]

/-- Each call that edits a shelf is one of the edits that shelves offer. -/
theorem Shelf.Deed.exists_mutator (d : Deed ι α) :
    ∃ (β : Type) (e : Shelf ι α → Edit ι α β), Mutator e ∧ ∀ s, (e s).2 = (d.on s).2 := by
  cases d with
  | push v => exact ⟨_, _, .push v, fun _ => rfl⟩
  | insert position v => exact ⟨_, _, .insert position v, fun _ => rfl⟩
  | removeAt position => exact ⟨_, _, .removeAt position, fun _ => rfl⟩
  | removeId id => exact ⟨_, _, .removeId id, fun _ => rfl⟩
  | replaceAll items => exact ⟨_, _, .replaceAll items, fun _ => rfl⟩
  | updateAt v position => exact ⟨_, _, .updateAt v position, fun _ => rfl⟩
  | update v => exact ⟨_, _, .update v, fun _ => rfl⟩

theorem Shelf.Deed.length_le (d : Deed ι α) (s : Shelf ι α) : (d.on s).2.2.length ≤ 3 := by
  obtain ⟨β, e, mutator, same⟩ := d.exists_mutator
  rw [← same]
  exact mutator.length_le s

/-- The shelf is edited by a call, and the cache handles what it announces. -/
def Fronted.carry (f : Fronted ι α) (d : Shelf.Deed ι α) : Fronted ι α :=
  (f.edit fun s => (.ok (d.on s).1, (d.on s).2)).2

namespace Network

/-- The network has one cache, which has a name and stands over a shelf; they are as in `f`.  All
shelves answer, and the cache is the only subscriber, once, at the shelf below it. -/
structure Mirrors (w : Network ι α) (name : String) (n m : NodeId) (f : Fronted ι α) : Prop where
  named : w.nodeNamed? name = some n
  layer : ∃ busy, w.layer? n = some ⟨f.cache, m, false, busy⟩
  only : ∀ k l, w.layer? k = some l → k = n
  origin : ∃ o, w.origin? m = some o ∧ o.shelf = f.shelf
  calm : ∀ k o, w.origin? k = some o → o.trouble = .none
  registry : ∀ k, w.registry k = if k = m then ⟨[.cache n]⟩ else ∅

variable {w w' w₁ w₂ : Network ι α} {name : String} {n m k : NodeId} {f f₁ : Fronted ι α}
variable {o : Origin ι α} {command : Command ι α} {outcome : Outcome ι α}
variable {agenda : List (Errand ι α)} {moments : List (Moment ι α)}

namespace Mirrors

omit [DecidableEq ι] [ToString ι]

theorem ne_of_origin? (mirrors : w.Mirrors name n m f) (here : w.origin? k = some o) : n ≠ k := by
  rintro rfl
  obtain ⟨busy, there⟩ := mirrors.layer
  rw [layer?_eq_none here] at there
  cases there

theorem ne (mirrors : w.Mirrors name n m f) : n ≠ m :=
  mirrors.origin.elim fun _ here => mirrors.ne_of_origin? here.1

/-- Only nodes and names matter. -/
theorem congr (mirrors : w.Mirrors name n m f) (nodes : w'.nodes = w.nodes)
    (names : w'.names = w.names) : w'.Mirrors name n m f := by
  obtain ⟨named, layer, only, origin, calm, registry⟩ := mirrors
  refine ⟨?_, ?_, fun k l here => only k l ?_, ?_, fun k o here => calm k o ?_,
    fun k => (registry_congr nodes).trans (registry k)⟩
  · rwa [nodeNamed?, names]
  · rwa [layer?_congr nodes]
  · rwa [← layer?_congr nodes]
  · rwa [origin?_congr nodes]
  · rwa [← origin?_congr nodes]

/-- Nobody has to be retired. -/
theorem sweep_eq (mirrors : w.Mirrors name n m f) : w.sweep = w :=
  sweep_of_named fun k l here => ⟨name, mirrors.only k l here ▸ mirrors.named⟩

/-- Put the cache into another state. -/
theorem setLayer (mirrors : w.Mirrors name n m f) (c : Cache ι α) (busy : Nat) :
    (w.setBody n (.layer ⟨c, m, false, busy⟩)).Mirrors name n m { f with cache := c } := by
  obtain ⟨named, ⟨_, here⟩, only, origin, calm, registry⟩ := mirrors
  have lt := lt_size_of_layer? here
  have layer : ∀ k, (w.setBody n (.layer ⟨c, m, false, busy⟩)).layer? k =
      if n = k then some ⟨c, m, false, busy⟩ else w.layer? k := fun k => layer?_setBody _ lt
  refine ⟨named, ⟨busy, by rw [layer, if_pos rfl]⟩, fun k l at_k => ?_,
    by rwa [origin?_setLayer here], fun k o at_k => calm k o (by rwa [← origin?_setLayer here]),
    fun k => registry_setBody.trans (registry k)⟩
  rw [layer] at at_k
  split at at_k
  · exact Eq.symm ‹n = k›
  · exact only k l at_k

/-- Put a shelf into another state. -/
theorem setShelf (mirrors : w.Mirrors name n m f) (here : w.origin? k = some o) (s : Shelf ι α) :
    (w.setBody k (.origin { o with shelf := s })).Mirrors name n m
      { f with shelf := if k = m then s else f.shelf } := by
  obtain ⟨named, layer, only, ⟨o', below, same⟩, calm, registry⟩ := mirrors
  refine ⟨named, ?_, fun j l at_j => only j l ?_, ?_, fun j p at_j => ?_,
    fun j => registry_setBody.trans (registry j)⟩
  · rwa [layer?_setOrigin here]
  · rwa [← layer?_setOrigin here]
  · rw [origin?_setOrigin here]
    split
    · exact ⟨_, rfl, rfl⟩
    · exact ⟨o', below, same⟩
  · rw [origin?_setOrigin here] at at_j
    split at at_j
    · exact Option.some.inj at_j ▸ calm k o here
    · exact calm j p at_j

theorem setCache (mirrors : w.Mirrors name n m f) (c : Cache ι α) :
    (w.setCache n c).Mirrors name n m { f with cache := c } := by
  obtain ⟨busy, here⟩ := mirrors.layer
  rw [Network.setCache, modifyLayer_eq here]
  exact mirrors.setLayer c busy

end Mirrors

/-! ## Announcements -/

omit [DecidableEq ι] [ToString ι] in
/-- Any command has rounds enough for three changes that one cache hears of. -/
theorem le_effort (w : Network ι α) (command : Command ι α) : 16 ≤ w.effort command := by
  rw [effort]
  exact Nat.mul_le_mul (Nat.mul_le_mul_left 8 (Nat.le_add_left 2 _)) (Nat.le_add_left 1 _)

/-- Changes of a node without subscribers are announced in vain. -/
theorem announceAll_unheard (nobody : w.registry k = ∅) (changes : List (Change ι)) :
    Steps w (changes.map (.announce k)) (changes.map fun change => (w, .announce k change)) w := by
  induction changes with
  | nil => exact .done
  | cons change changes ih => exact .step (by rw [advance, nobody]) ih

namespace Mirrors

/-- The cache hears of a change, has nobody to tell, and is done with it. -/
theorem announce (mirrors : w.Mirrors name n m f) (change : Change ι) :
    ∃ moments w', Steps w [.announce m change] moments w' ∧ moments.length = 4 ∧
      w'.Mirrors name n m { f with cache := f.cache.apply change } := by
  obtain ⟨busy, here⟩ := mirrors.layer
  have told := mirrors.setLayer (f.cache.apply change) (busy + 1)
  have settled := told.setLayer (f.cache.apply change) busy
  have there := layer?_setBody (k := n) (.layer ⟨f.cache.apply change, m, false, busy + 1⟩)
    (lt_size_of_layer? here)
  rw [if_pos rfl] at there
  have called : w.advance (.announce m change) = (none, w, [.deliver (.cache n) change]) := by
    rw [advance, mirrors.registry, if_pos rfl]
    rfl
  have heard : w.advance (.deliver (.cache n) change) = (none,
      w.setBody n (.layer ⟨f.cache.apply change, m, false, busy + 1⟩),
      [.announce n change, .settle n]) := by
    rw [advance, deliverToCache, here]
    rfl
  generalize w.setBody n _ = w₁ at told settled there heard
  have passed : w₁.advance (.announce n change) = (none, w₁, []) := by
    rw [advance, told.registry, if_neg told.ne]
    rfl
  have ended : w₁.advance (.settle n) =
      (none, w₁.setBody n (.layer ⟨f.cache.apply change, m, false, busy⟩), []) := by
    rw [advance, modifyLayer_eq there]
    exact congrArg (fun w => (none, w, [])) settled.sweep_eq
  exact ⟨_, _, .step called (.step heard (.step passed (.step ended .done))), rfl, settled⟩

theorem announceAll (mirrors : w.Mirrors name n m f) (changes : List (Change ι)) :
    ∃ moments w', Steps w (changes.map (.announce m)) moments w' ∧
      moments.length = 4 * changes.length ∧
      w'.Mirrors name n m { f with cache := changes.foldl Cache.apply f.cache } := by
  induction changes generalizing w f with
  | nil => exact ⟨[], w, .done, rfl, mirrors⟩
  | cons change changes ih =>
    obtain ⟨m₁, w₁, first, length₁, mirrors₁⟩ := mirrors.announce change
    obtain ⟨m₂, w₂, rest, length₂, mirrors₂⟩ := ih mirrors₁
    refine ⟨_, w₂, first.append rest, ?_, mirrors₂⟩
    rw [List.length_append, length₁, length₂, List.length_cons]
    omega

/-- A command is over when its announcements are, and its nodes are let go of. -/
theorem finish {count : Nat}
    (performed : w.perform command = (outcome, w₁, agenda ++ [.unpin count]))
    (steps : Steps w₁ agenda moments w₂) (few : moments.length ≤ 12)
    (mirrors : w₂.Mirrors name n m f) :
    ∃ w', w.execute command = (outcome, w') ∧ w'.Mirrors name n m f := by
  have unpinned : Mirrors { w₂ with pins := w₂.pins.drop count } name n m f :=
    mirrors.congr rfl rfl
  have last : Steps w₂ [.unpin count] [(w₂, Errand.unpin count)]
      { w₂ with pins := w₂.pins.drop count } :=
    .one (by rw [advance, unpin, unpinned.sweep_eq]) .done
  have whole : Steps (w.perform command).2.1 (w.perform command).2.2
      (moments ++ [(w₂, Errand.unpin count)]) { w₂ with pins := w₂.pins.drop count } := by
    rw [performed]
    exact steps.append last
  have enough : (moments ++ [(w₂, Errand.unpin count)]).length ≤ w.effort command := by
    have rounds := w.le_effort command
    rw [List.length_append, List.length_singleton]
    omega
  exact ⟨_, by rw [(whole.execute enough).1, performed], unpinned⟩

end Mirrors

omit [DecidableEq ι] [ToString ι] in
/-- A new shelf answers, if all others do. -/
theorem calm_addShelf (calm : ∀ k o, w.origin? k = some o → o.trouble = .none) {other : String}
    {shelf : Shelf ι α} (k : NodeId) (o : Origin ι α)
    (here : (w.addNode other (.origin ⟨other, shelf, .none⟩)).2.origin? k = some o) :
    o.trouble = .none := by
  rw [origin?_addNode] at here
  split at here
  · cases here
    rfl
  · exact calm k o here

/-! ## Commands -/

namespace Mirrors

omit [ToString ι] in
/-- A read of the cache asks the shelf below it. -/
theorem agrees_below (c : Cache ι α) (d : Nat) : Source.Agrees (source (d + 1) m) Shelf.source
    fun w (s : Shelf ι α) => w.Mirrors name n m ⟨s, c⟩ := by
  refine ⟨fun w s mirrors => ?_, fun start length w s mirrors => ?_, fun id w s mirrors => ?_,
    fun w s mirrors => ?_⟩
  all_goals
    obtain ⟨o, here, same⟩ := mirrors.origin
    obtain ⟨size, range, byId, identify⟩ :=
      source_of_origin (d := d) here (mirrors.calm m o here)
    change o.shelf = s at same
    subst same
  · rw [size]
    exact ⟨rfl, mirrors.congr rfl rfl⟩
  · rw [range]
    exact ⟨rfl, mirrors.congr rfl rfl⟩
  · rw [byId]
    exact ⟨rfl, mirrors.congr rfl rfl⟩
  · exact identify

theorem read (mirrors : w.Mirrors name n m f) (q : Query ι) :
    ∃ w', w.execute (.ask name q.operation) = (q.outcome (f.query q).1, w') ∧
      w'.Mirrors name n m (f.query q).2 := by
  obtain ⟨busy, here⟩ := mirrors.layer
  obtain ⟨d, deep, operated⟩ := operate_of_layer here name q
  have pos : 0 < w.nodes.size := Nat.zero_lt_of_lt (lt_size_of_layer? here)
  obtain ⟨d, rfl⟩ : ∃ d', d = d' + 1 := ⟨d - 1, by omega⟩
  have performed := (perform_ask mirrors.named (node?_of_layer? here) q.operation).trans operated
  have asked := Cache.query_agrees (agrees_below f.cache d) mirrors q f.cache
  dsimp only at performed
  rw [Fronted.query, Fronted.read]
  revert asked performed
  rcases Cache.query (source (d + 1) m) q f.cache w with ⟨answer, c, w₁⟩
  rcases Cache.query Shelf.source q f.cache f.shelf with ⟨answer', c', s⟩
  rintro performed ⟨_, _, mirrors₁⟩
  exact ⟨_, execute_of_perform performed, mirrors₁.setCache c⟩

theorem clear (mirrors : w.Mirrors name n m f) :
    ∃ w', w.execute (.ask name .clear) = (.done, w') ∧ w'.Mirrors name n m f.clear := by
  obtain ⟨busy, here⟩ := mirrors.layer
  have performed := perform_ask mirrors.named (node?_of_layer? here) .clear
  exact ⟨_, execute_of_perform performed, mirrors.setCache f.cache.clear⟩

/-- A shelf was edited and is about to announce it: the cache hears of it if it stands there. -/
theorem edited (mirrors : w.Mirrors name n m f) (here : w.origin? k = some o)
    (d : Shelf.Deed ι α) {count : Nat}
    (performed : w.perform command =
      (outcome, w₁, (d.on o.shelf).2.2.map (.announce k) ++ [.unpin count]))
    (nodes : w₁.nodes = (w.setBody k (.origin { o with shelf := (d.on o.shelf).2.1 })).nodes)
    (names : w₁.names = w.names) :
    ∃ w', w.execute command = (outcome, w') ∧
      w'.Mirrors name n m (if k = m then f.carry d else f) := by
  have few := d.length_le o.shelf
  have mirrors₁ := (mirrors.setShelf here (d.on o.shelf).2.1).congr nodes names
  by_cases there : k = m
  · subst there
    obtain ⟨o', here', same⟩ := mirrors.origin
    cases here.symm.trans here'
    obtain ⟨moments, w₂, steps, length, mirrors₂⟩ := mirrors₁.announceAll (d.on o.shelf).2.2
    rw [if_pos rfl] at mirrors₂ ⊢
    rw [same] at mirrors₂
    exact finish performed steps (by omega) mirrors₂
  · rw [if_neg there] at mirrors₁ ⊢
    have nobody : w₁.registry k = ∅ := by rw [mirrors₁.registry, if_neg there]
    refine finish performed (announceAll_unheard nobody _) ?_ mirrors₁
    rw [List.length_map]
    omega

theorem deed (mirrors : w.Mirrors name n m f) {shelf : String}
    (named : w.nodeNamed? shelf = some k) (here : w.origin? k = some o) (d : Shelf.Deed ι α) :
    ∃ w', w.execute (.ask shelf d.operation) = ((d.on o.shelf).1, w') ∧
      w'.Mirrors name n m (if k = m then f.carry d else f) := by
  obtain ⟨w₁, performed, nodes, names⟩ := perform_deed named here (mirrors.calm k o here) d
  exact mirrors.edited here d performed nodes names

/-- An update of the cache is one of the shelf below it. -/
theorem update (mirrors : w.Mirrors name n m f) (u : Update α) :
    ∃ w', w.execute (.ask name u.deed.operation) = ((u.deed.on f.shelf).1, w') ∧
      w'.Mirrors name n m (f.carry u.deed) := by
  obtain ⟨busy, there⟩ := mirrors.layer
  obtain ⟨o, here, same⟩ := mirrors.origin
  have pos : 0 < w.nodes.size := Nat.zero_lt_of_lt (lt_size_of_layer? there)
  have bottom : w.bottom? w.depth n = some ([n, m], m, o) := by
    obtain ⟨d, size⟩ : ∃ d, w.nodes.size = d + 1 := ⟨w.nodes.size - 1, by omega⟩
    rw [depth, bottom?, node?_of_layer? there]
    dsimp only
    rw [size, bottom?, node?_of_origin? here]
    rfl
  obtain ⟨w₁, written, nodes, names⟩ := write_spec bottom (mirrors.calm m o here) name u
  have operated : w.perform (.ask name u.deed.operation) = w.write n name u := by
    cases u <;> exact perform_ask mirrors.named (node?_of_layer? there) _
  have effect : u.deed.on o.shelf =
      (.ofExcept (fun _ => .done) (o.shelf.write u).1, (o.shelf.write u).2) := by
    cases u <;> rfl
  have performed : w.perform (.ask name u.deed.operation) = ((u.deed.on o.shelf).1, w₁,
      (u.deed.on o.shelf).2.2.map (.announce m) ++ [.unpin 2]) := by
    rw [operated, written, effect]
    rfl
  have edited := mirrors.edited here u.deed performed (by rw [effect]; exact nodes) names
  rwa [if_pos rfl, same] at edited

/-- The cache leaves the registry of one shelf and enters that of another, or the same one. -/
theorem attach (mirrors : w.Mirrors name n m f) {below : String}
    (named : w.nodeNamed? below = some k) (here : w.origin? k = some o) :
    ∃ w', w.execute (.ask name (.attach below)) = (.done, w') ∧
      w'.Mirrors name n k (f.attach o.shelf) := by
  obtain ⟨busy, there⟩ := mirrors.layer
  have lt : m < w.nodes.size := mirrors.origin.elim fun _ below => lt_size_of_origin? below.1
  have moved : (w.moved n ⟨f.cache, m, false, busy⟩ k).Mirrors name n k (f.attach o.shelf) := by
    refine ⟨mirrors.named, ⟨busy, by rw [layer?_moved there, if_pos rfl]; rfl⟩,
      fun j l at_j => ?_, ⟨o, (origin?_moved there).trans here, rfl⟩,
      fun j p at_j => mirrors.calm j p ((origin?_moved there).symm.trans at_j), fun j => ?_⟩
    · rw [layer?_moved there] at at_j
      split at at_j
      · exact Eq.symm ‹n = j›
      · exact mirrors.only j l at_j
    · have left : (if m = j then ((w.registry j).remove (.cache n)).2 else w.registry j) = ∅ := by
        rw [mirrors.registry]
        split
        · rename_i same
          rw [if_pos same.symm]
          exact congrArg Prod.snd (Registry.remove_add ∅ (Subscriber.cache n))
        · rename_i other
          exact if_neg fun same => other same.symm
      rw [registry_moved lt (lt_size_of_origin? here)]
      dsimp only
      rw [left]
      exact if_congr eq_comm rfl rfl
  have performed : w.perform (.ask name (.attach below)) =
      (.done, (w.moved n ⟨f.cache, m, false, busy⟩ k).pin [n, m, k],
        [Change.contentsChanged].map (.announce n) ++ [.unpin 3]) := by
    rw [perform_ask mirrors.named (node?_of_layer? there)]
    change w.askCache name n _ (.attach below) = _
    rw [askCache, named]
    rfl
  have pinned : ((w.moved n ⟨f.cache, m, false, busy⟩ k).pin [n, m, k]).Mirrors name n k
      (f.attach o.shelf) := moved.congr rfl rfl
  have nobody := pinned.registry n
  rw [if_neg pinned.ne] at nobody
  exact finish performed (announceAll_unheard nobody _) (Nat.le_add_left 1 11) pinned

/-- A shelf of its own does not concern the cache. -/
theorem addShelf (mirrors : w.Mirrors name n m f) {other : String} (free : other ≠ name)
    (items : List α) (identify : α → Option ι) :
    ∃ w', w.execute (.addShelf other items identify) = (.done, w') ∧ w'.Mirrors name n m f := by
  obtain ⟨busy, there⟩ := mirrors.layer
  obtain ⟨o, here, same⟩ := mirrors.origin
  let body : Body ι α := .origin ⟨other, ⟨items, identify⟩, .none⟩
  have grown : (w.addNode other body).2.Mirrors name n m f := by
    refine ⟨?_, ⟨busy, ?_⟩, fun k l at_k => ?_, ⟨o, ?_, same⟩, calm_addShelf mirrors.calm,
      fun k => registry_addNode.trans (mirrors.registry k)⟩
    · rw [nodeNamed?, addNode, Index.get?_insert, if_neg fun eq => free eq.symm]
      exact mirrors.named
    · rw [layer?_addNode, if_neg (Nat.ne_of_lt (lt_size_of_layer? there))]
      exact there
    · rw [layer?_addNode] at at_k
      split at at_k
      · cases at_k
      · exact mirrors.only k l at_k
    · rw [origin?_addNode, if_neg (Nat.ne_of_lt (lt_size_of_origin? here))]
      exact here
  have performed : w.perform (.addShelf other items identify) = (.done, _, []) :=
    congrArg (fun w => (Outcome.done, w, [])) grown.sweep_eq
  exact ⟨_, execute_of_perform performed, grown⟩

/-- A read of a shelf itself does not concern the cache either. -/
theorem look (mirrors : w.Mirrors name n m f) {shelf : String}
    (named : w.nodeNamed? shelf = some k) (here : w.origin? k = some o) (q : Query ι) :
    ∃ w', w.execute (.ask shelf q.operation) = (q.outcome (o.shelf.query q), w') ∧
      w'.Mirrors name n m f := by
  have performed := (perform_ask named (node?_of_origin? here) q.operation).trans
    (operate_of_origin here (mirrors.calm k o here) shelf q)
  exact ⟨_, execute_of_perform performed, mirrors.congr rfl rfl⟩

end Mirrors

end Network

end ReadThrough
