import ReadThrough.Proofs.Network.Reading

/-!
# Keeping a network in step

What a command does to a network, apart from reads: a shelf is edited, a cache is
attached to another node, a node is made, a name is given up.  Each keeps the network
in step, where an edit and an attachment leave errands that tell what has changed.
-/

namespace ReadThrough.Network

variable {ι α : Type} [DecidableEq ι]
variable {w w' : Network ι α} {n m b k : NodeId} {l : Layer ι α} {o o' : Origin ι α}
variable {agenda agenda' : List (Errand ι α)}

/-! ## Shelves -/

omit [DecidableEq ι] in
theorem layer?_setOrigin (here : w.origin? m = some o) :
    (w.setBody m (.origin o')).layer? k = w.layer? k := by
  rw [layer?_setBody _ (lt_size_of_origin? here)]
  split
  · rename_i same
    rw [← same, layer?_eq_none here]
    rfl
  · rfl

omit [DecidableEq ι] in
theorem below?_setOrigin (here : w.origin? m = some o) :
    (w.setBody m (.origin o')).below? k = w.below? k := by
  rw [below?, below?, layer?_setOrigin here]

omit [DecidableEq ι] in
theorem origin?_setOrigin (here : w.origin? m = some o) :
    (w.setBody m (.origin o')).origin? k = if m = k then some o' else w.origin? k :=
  origin?_setBody _ (lt_size_of_origin? here)

omit [DecidableEq ι] in
/-- Nodes rest on the same node as before, with the shelf that this node has now. -/
theorem rests_of_setOrigin (here : w.origin? m = some o) {j : NodeId} {p : Origin ι α}
    (rests : (w.setBody m (.origin o')).Rests n j p) :
    (j ≠ m ∧ w.Rests n j p) ∨ (j = m ∧ p = o' ∧ w.Rests n m o) := by
  induction rests with
  | here at_n =>
    rename_i n p
    rw [origin?_setOrigin here] at at_n
    split at at_n
    · rename_i same
      subst same
      exact Or.inr ⟨rfl, (Option.some.inj at_n).symm, .here here⟩
    · rename_i other
      exact Or.inl ⟨fun same => other same.symm, .here at_n⟩
  | above under _ ih =>
    rw [below?_setOrigin here] at under
    rcases ih with ⟨other, rests⟩ | ⟨same, eq, rests⟩
    · exact Or.inl ⟨other, .above under rests⟩
    · exact Or.inr ⟨same, eq, .above under rests⟩

/-- Replace a shelf: what was right over the old one is right over the new one, or
excused by what is on its way by then. -/
theorem InStep.setOrigin (inStep : w.InStep agenda) (here : w.origin? m = some o)
    (more : ∀ errand ∈ agenda, errand ∈ agenda')
    (within : ∀ n, n ≠ m → w.Rests n m o → ∀ pending' : Change ι → Prop,
      (∀ ch, w.Pending agenda ch n → pending' ch) →
      (∀ ch, Errand.announce m ch ∈ agenda' → pending' ch) →
      (o.shelf.answers fun ch => w.Pending agenda ch n).Within (o'.shelf.answers pending')) :
    (w.setBody m (.origin o')).InStep agenda' := by
  have layer : ∀ k, (w.setBody m (.origin o')).layer? k = w.layer? k :=
    fun k => layer?_setOrigin here
  have pending : ∀ k ch, w.Pending agenda ch k →
      (w.setBody m (.origin o')).Pending agenda' ch k :=
    fun k ch pending => pending.mono (fun k b under => (below?_setOrigin here).trans under) more
  refine ⟨inStep.wired.step (Nat.le_of_eq size_modify.symm) (fun k l at_k => Or.inl ?_)
    fun _ _ found => Or.inl found, fun k l at_k stays => ?_⟩
  · exact ⟨l, (layer k).symm.trans at_k, continues_refl fun mem => by rwa [registry_setBody]⟩
  · rw [layer] at at_k
    refine (inStep.stocked k l at_k stays).mono (answers_within fun j p rests => Or.inl ?_)
    rcases rests_of_setOrigin here rests with ⟨-, rests'⟩ | ⟨rfl, rfl, rests'⟩
    · exact ⟨p, rests', Shelf.answers_mono (pending k)⟩
    · have above : k ≠ j := by
        intro same
        rw [same, layer?_eq_none here] at at_k
        cases at_k
      exact ⟨o, rests', within k above rests' _ (pending k) fun ch told => rests.pending above told⟩

/-- Edit a shelf and announce what changed. -/
theorem InStep.edit (inStep : w.InStep agenda) (here : w.origin? m = some o)
    {s : Shelf ι α} {changes : List (Change ι)} (covers : o.shelf.Covers s changes)
    (distinct : s.Distinct) (told : ∀ ch ∈ changes, Errand.announce m ch ∈ agenda')
    (more : ∀ errand ∈ agenda, errand ∈ agenda') :
    (w.setBody m (.origin { o with shelf := s })).InStep agenda' := by
  refine inStep.setOrigin here more fun n _ rests pending' old new => ?_
  have within := covers.within distinct fun ch => w.Pending agenda ch n
  have looser : (s.answers fun ch => ch ∈ changes ∨ w.Pending agenda ch n).Within
      (s.answers pending') := by
    refine Shelf.answers_mono fun ch either => ?_
    rcases either with mem | pending
    · exact new ch (told ch mem)
    · exact old ch pending
  exact ⟨fun e good => looser.entry e (within.entry e good),
    fun k size => looser.size k (within.size k size)⟩

/-- What goes wrong with the answers of a shelf is no matter of the caches. -/
theorem InStep.trouble (inStep : w.InStep agenda) (here : w.origin? m = some o)
    {t : Trouble α} : (w.setBody m (.origin { o with trouble := t })).InStep agenda :=
  inStep.setOrigin here (fun _ mem => mem) fun _ _ _ _ old _ => Shelf.answers_mono old

/-! ## Attaching a cache -/

/-- Cache `n` with other contents, moved from the node below it to node `b`. -/
def moved (w : Network ι α) (n : NodeId) (l : Layer ι α) (b : NodeId) : Network ι α :=
  let w := w.setBody n (.layer { l with cache := l.cache.clear, below := b })
  (w.unsubscribe l.below (.cache n)).2.subscribe b (.cache n)

omit [DecidableEq ι] in
theorem layer?_moved (here : w.layer? n = some l) :
    (w.moved n l b).layer? k =
      if n = k then some { l with cache := l.cache.clear, below := b } else w.layer? k := by
  rw [moved, layer?_subscribe, layer?_unsubscribe, layer?_setBody _ (lt_size_of_layer? here)]
  rfl

omit [DecidableEq ι] in
theorem origin?_moved (here : w.layer? n = some l) : (w.moved n l b).origin? k = w.origin? k := by
  rw [moved, origin?_subscribe, origin?_unsubscribe, origin?_setLayer here]

omit [DecidableEq ι] in
theorem below?_moved_of_ne (here : w.layer? n = some l) (ne : n ≠ k) :
    (w.moved n l b).below? k = w.below? k := by
  rw [below?, below?, layer?_moved here, if_neg ne]

omit [DecidableEq ι] in
/-- A cache that does not rest on the one that was moved rests on what it rested on,
and nothing on its way to it is lost; any other one is told of the move. -/
theorem rests_of_moved (here : w.layer? n = some l)
    (more : ∀ errand ∈ agenda, errand ∈ agenda')
    (told : Errand.announce n .contentsChanged ∈ agenda')
    (rests : (w.moved n l b).Rests k m o) (ne : k ≠ n) :
    (w.Rests k m o ∧
        ∀ ch, w.Pending agenda ch k → (w.moved n l b).Pending agenda' ch k) ∨
      (w.moved n l b).Pending agenda' .contentsChanged k := by
  induction rests with
  | here at_k =>
    rename_i k o
    rw [origin?_moved here] at at_k
    have bottom : ∀ b', w.below? k ≠ some b' := by
      intro b' under
      obtain ⟨l, layer, -⟩ := Option.map_eq_some_iff.1 under
      rw [layer?_eq_none at_k] at layer
      cases layer
    refine Or.inl ⟨.here at_k, fun ch pending => ?_⟩
    cases pending with
    | deliver under => exact absurd under (bottom _)
    | announce under => exact absurd under (bottom _)
    | pass under => exact absurd under (bottom _)
  | above under rests ih =>
    rename_i k b' m o
    have under' : w.below? k = some b' := (below?_moved_of_ne here ne.symm).symm.trans under
    by_cases same : b' = n
    · rw [same] at under
      exact Or.inr (.announce under told)
    · rcases ih same with ⟨rests, kept⟩ | pending
      · refine Or.inl ⟨.above under' rests, fun ch pending => ?_⟩
        cases pending with
        | deliver _ mem => exact .deliver under (more _ mem)
        | announce under'' mem =>
          cases under''.symm.trans under'
          exact .announce under (more _ mem)
        | pass under'' pending =>
          cases under''.symm.trans under'
          exact .pass under (kept ch pending)
      · exact Or.inr (.pass under pending)

omit [DecidableEq ι] in
@[simp] theorem size_moved : (w.moved n l b).nodes.size = w.nodes.size := by
  rw [moved, size_subscribe, size_unsubscribe, setBody, size_modify]

omit [DecidableEq ι] in
/-- Registries keep all subscribers but the moved one, which is in its new registry. -/
theorem mem_registry_moved (below_lt : l.below < w.nodes.size) (lt : b < w.nodes.size)
    {s : Subscriber}
    (mem : (s ≠ .cache n ∧ s ∈ (w.registry k).members) ∨ (b = k ∧ s = .cache n)) :
    s ∈ ((w.moved n l b).registry k).members := by
  rw [moved, mem_registry_subscribe (by rwa [size_unsubscribe, setBody, size_modify])]
  refine mem.imp_left fun old => ?_
  rw [mem_registry_unsubscribe (by rwa [setBody, size_modify]) old.1, registry_setBody]
  exact old.2

omit [DecidableEq ι] in
/-- A cache may be moved to a node that stays. -/
theorem Wired.moved (wired : w.Wired) (here : w.layer? n = some l) (stays : l.retired = false)
    (lt : b < w.nodes.size) (stays_b : w.Stays b) : (w.moved n l b).Wired := by
  have below_lt := wired.below_lt n l here
  have stays_b' : (w.moved n l b).Stays b := by
    intro l' at_b
    rw [layer?_moved here] at at_b
    split at at_b
    · cases at_b
      exact stays
    · exact stays_b l' at_b
  refine wired.step (Nat.le_of_eq size_moved.symm) (fun k l' at_k => ?_)
    fun _ _ found => Or.inl found
  rw [layer?_moved here] at at_k
  split at at_k
  · rename_i same
    subst same
    cases at_k
    exact Or.inr ⟨Nat.lt_of_lt_of_eq lt size_moved.symm,
      mem_registry_moved below_lt lt (Or.inr ⟨rfl, rfl⟩), stays, stays_b'⟩
  · rename_i other
    have ne : Subscriber.cache k ≠ .cache n :=
      fun same => other (Subscriber.cache.inj same).symm
    exact Or.inl ⟨l', at_k, continues_refl fun mem =>
      mem_registry_moved below_lt lt (Or.inl ⟨ne, mem⟩)⟩

/-- A cache may be moved to a node that stays, if its subscribers are told. -/
theorem InStep.moved (inStep : w.InStep agenda) (here : w.layer? n = some l)
    (stays : l.retired = false) (lt : b < w.nodes.size) (stays_b : w.Stays b)
    (more : ∀ errand ∈ agenda, errand ∈ agenda')
    (told : Errand.announce n .contentsChanged ∈ agenda') : (w.moved n l b).InStep agenda' := by
  refine ⟨inStep.wired.moved here stays lt stays_b, fun k l' at_k stays' => ?_⟩
  rw [layer?_moved here] at at_k
  split at at_k
  · cases at_k
    exact .clear
  · rename_i other
    refine (inStep.stocked k l' at_k stays').mono (answers_within fun m o rests => ?_)
    rcases rests_of_moved here more told rests fun eq => other eq.symm with ⟨old, kept⟩ | pending
    · exact Or.inl ⟨o, old, Shelf.answers_mono kept⟩
    · exact Or.inr ⟨.contentsChanged, pending, rfl⟩

/-! ## New nodes and names -/

omit [DecidableEq ι] in
@[simp] theorem size_addNode {name : String} {body : Body ι α} :
    (w.addNode name body).2.nodes.size = w.nodes.size + 1 :=
  Array.size_push _

omit [DecidableEq ι] in
theorem layer?_addNode {name : String} {body : Body ι α} :
    (w.addNode name body).2.layer? k = if k = w.nodes.size then body.layer? else w.layer? k := by
  rw [layer?_eq, node?_addNode, layer?_eq]
  split <;> rfl

omit [DecidableEq ι] in
theorem origin?_addNode {name : String} {body : Body ι α} :
    (w.addNode name body).2.origin? k =
      if k = w.nodes.size then body.origin? else w.origin? k := by
  rw [origin?_eq, node?_addNode, origin?_eq]
  split <;> rfl

omit [DecidableEq ι] in
@[simp] theorem registry_addNode {name : String} {body : Body ι α} :
    (w.addNode name body).2.registry k = w.registry k := by
  rw [registry_eq, node?_addNode, registry_eq]
  split
  · rename_i new
    rw [node?_eq_none (Nat.le_of_eq new.symm)]
    rfl
  · rfl

omit [DecidableEq ι] in
/-- Nodes that were there rest on what they rested on. -/
theorem rests_of_grown {body : Body ι α} (wired : w.Wired)
    (layer : ∀ k, w'.layer? k = if k = w.nodes.size then body.layer? else w.layer? k)
    (origin : ∀ k, w'.origin? k = if k = w.nodes.size then body.origin? else w.origin? k)
    (rests : w'.Rests k m o) (old : k < w.nodes.size) : w.Rests k m o := by
  induction rests with
  | here at_k =>
    rw [origin, if_neg (Nat.ne_of_lt old)] at at_k
    exact .here at_k
  | above under _ ih =>
    rw [below?, layer, if_neg (Nat.ne_of_lt old)] at under
    obtain ⟨l, here, rfl⟩ := Option.map_eq_some_iff.1 under
    exact .above (below?_eq here) (ih (wired.below_lt _ l here))

omit [DecidableEq ι] in
/-- A new node.  A new cache is subscribed to a node that stays. -/
theorem Wired.grow (wired : w.Wired) (body : Body ι α)
    (size : w'.nodes.size = w.nodes.size + 1)
    (layer : ∀ k, w'.layer? k = if k = w.nodes.size then body.layer? else w.layer? k)
    (registry : ∀ k s, s ∈ (w.registry k).members → s ∈ (w'.registry k).members)
    (names : ∀ name k, w'.names.get? name = some k →
      k = w.nodes.size ∨ w.names.get? name = some k)
    (fresh : ∀ l, body.layer? = some l → l.retired = false ∧ l.below < w.nodes.size ∧
      w.Stays l.below ∧ .cache w.nodes.size ∈ (w'.registry l.below).members) : w'.Wired := by
  have old_layer : ∀ k, k < w.nodes.size → w'.layer? k = w.layer? k := fun k old => by
    rw [layer, if_neg (Nat.ne_of_lt old)]
  have new_layer : w'.layer? w.nodes.size = body.layer? := by rw [layer, if_pos rfl]
  refine wired.step (size ▸ Nat.le_succ _) (fun k l here => ?_) fun name k found => ?_
  · rw [layer] at here
    split at here
    · rename_i same
      subst same
      obtain ⟨stays, lt, stays_b, subscribed⟩ := fresh l here
      refine Or.inr ⟨size ▸ Nat.lt_succ_of_lt lt, subscribed, stays, fun lb under => ?_⟩
      rw [old_layer _ lt] at under
      exact stays_b lb under
    · exact Or.inl ⟨l, here, continues_refl (registry _ _)⟩
  · refine (names name k found).symm.imp_right fun new => ?_
    subst new
    refine ⟨size ▸ Nat.lt_succ_self _, fun l here => ?_⟩
    rw [new_layer] at here
    exact (fresh l here).1

/-- A new cache is empty. -/
theorem InStep.grow (inStep : w.InStep agenda) (body : Body ι α) (wired : w'.Wired)
    (layer : ∀ k, w'.layer? k = if k = w.nodes.size then body.layer? else w.layer? k)
    (origin : ∀ k, w'.origin? k = if k = w.nodes.size then body.origin? else w.origin? k)
    (fresh : ∀ l, body.layer? = some l → ∀ right, l.cache.Stocked right) :
    w'.InStep agenda := by
  refine ⟨wired, fun k l here stays => ?_⟩
  rw [layer] at here
  split at here
  · exact fresh l here _
  · have same : ∀ j, j < w.nodes.size → w'.layer? j = w.layer? j := fun j lt => by
      rw [layer, if_neg (Nat.ne_of_lt lt)]
    refine (inStep.stocked k l here stays).mono (answers_within fun m o rests => Or.inl ?_)
    refine ⟨o, rests_of_grown inStep.wired layer origin rests (lt_size_of_layer? here),
      Shelf.answers_mono fun ch pending => ?_⟩
    refine pending.mono (fun j b under => ?_) fun _ mem => mem
    obtain ⟨l, here, rfl⟩ := Option.map_eq_some_iff.1 under
    exact below?_eq ((same j (lt_size_of_layer? here)).trans here)

omit [DecidableEq ι] in
theorem names_addNode {name name' : String} (body : Body ι α)
    (found : (w.addNode name body).2.names.get? name' = some k) :
    k = w.nodes.size ∨ w.names.get? name' = some k := by
  rw [addNode, Index.get?_insert] at found
  split at found
  · exact Or.inl (Option.some.inj found).symm
  · exact Or.inr found

omit [DecidableEq ι] in
theorem Wired.addNode (wired : w.Wired) {name : String} {body : Body ι α}
    (plain : body.layer? = none) : (w.addNode name body).2.Wired := by
  refine wired.grow body size_addNode (fun k => layer?_addNode)
    (fun k s mem => by rwa [registry_addNode]) (fun name k => names_addNode body) fun l new => ?_
  rw [plain] at new
  cases new

theorem InStep.addNode (inStep : w.InStep agenda) {name : String} {body : Body ι α}
    (plain : body.layer? = none) : (w.addNode name body).2.InStep agenda := by
  refine inStep.grow body (inStep.wired.addNode plain) (fun k => layer?_addNode)
    (fun k => origin?_addNode) fun l new => ?_
  rw [plain] at new
  cases new

/-- A new cache, subscribed to the node below it. -/
def placed (w : Network ι α) (name : String) (b : NodeId) (sizing : Sizing) : Network ι α :=
  (w.addNode name (.layer ⟨.empty sizing, b, false, 0⟩)).2.subscribe b (.cache w.nodes.size)

section

variable {name : String} {sizing : Sizing}

omit [DecidableEq ι]

theorem layer?_placed : (w.placed name b sizing).layer? k =
    if k = w.nodes.size then some ⟨.empty sizing, b, false, 0⟩ else w.layer? k := by
  rw [placed, layer?_subscribe, layer?_addNode]
  rfl

theorem origin?_placed : (w.placed name b sizing).origin? k = w.origin? k := by
  rw [placed, origin?_subscribe, origin?_addNode]
  split
  · rename_i top
    rw [origin?_eq, node?_eq_none (Nat.le_of_eq top.symm)]
    rfl
  · rfl

theorem registry_placed (lt : b < w.nodes.size) : (w.placed name b sizing).registry k =
    if b = k then (w.registry k).add (.cache w.nodes.size) else w.registry k := by
  have exists_b : b < (w.addNode name (.layer ⟨.empty sizing, b, false, 0⟩)).2.nodes.size := by
    rw [size_addNode]
    exact Nat.lt_succ_of_lt lt
  rw [placed, registry_subscribe exists_b, registry_addNode]

theorem Wired.placed (wired : w.Wired) (lt : b < w.nodes.size) (stays : w.Stays b) :
    (w.placed name b sizing).Wired := by
  let body : Body ι α := .layer ⟨.empty sizing, b, false, 0⟩
  refine wired.grow body ?_ (fun k => layer?_placed) (fun k s mem => ?_)
    (fun name' k found => names_addNode body found) fun l new => ?_
  · rw [Network.placed, size_subscribe, size_addNode]
  · rw [registry_placed lt]
    split
    · exact Registry.mem_add.2 (Or.inl mem)
    · exact mem
  · cases new
    refine ⟨rfl, lt, stays, ?_⟩
    rw [registry_placed lt, if_pos rfl]
    exact Registry.mem_add.2 (Or.inr rfl)

end

theorem InStep.addCache (inStep : w.InStep agenda) {name : String} {sizing : Sizing}
    (lt : b < w.nodes.size) (stays : w.Stays b) : (w.addCache name b sizing).InStep agenda := by
  have grown : (w.placed name b sizing).InStep agenda := by
    refine inStep.grow (.layer ⟨.empty sizing, b, false, 0⟩) (inStep.wired.placed lt stays)
      (fun k => layer?_placed) (fun k => ?_) fun l new right => ?_
    · rw [placed, origin?_subscribe, origin?_addNode]
    · cases new
      exact .empty
  exact grown.sweep

theorem InStep.drop (inStep : w.InStep agenda) {name : String} :
    InStep { w with names := w.names.erase name } agenda := by
  refine inStep.rewire rfl (fun _ => rfl) (fun _ => rfl) (fun _ _ mem => mem)
    fun name' k found => ?_
  rw [Index.get?_erase] at found
  split at found
  · cases found
  · exact found

end ReadThrough.Network
