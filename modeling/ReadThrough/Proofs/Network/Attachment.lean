import ReadThrough.Proofs.Network.Links

/-!
# Attached caches

A cache that is not retired is registered with its home, once, and nowhere else; a retired
one is not registered at all.  Caches are attached, moved and let go of, and listeners come and
go, in any order and at any moment; all other subscribers stay where they are, in the same
order.

* `Network.Attached` is the invariant, and `Network.Linked` together with `Network.Wired`.
* `Network.KeepsOthers w w' except`: apart from the cache `except` and from those that got
  another home or lost theirs, the registries have the same subscribers.
* `Network.relinked_perform` and `Network.relinked_advance` are the two kinds of steps.
* `Network.Arises`: what commands and errands can lead to.
-/

namespace ReadThrough

namespace Registry

variable {β : Type} [DecidableEq β] {r : Registry β} {a b : β} {p : β → Bool}

theorem count_add_self : (r.add b).members.count b = r.members.count b + 1 := by
  rw [add, List.count_append, List.count_singleton_self]

theorem count_add_of_ne (ne : a ≠ b) : (r.add b).members.count a = r.members.count a := by
  rw [add, List.count_append, List.count_singleton, if_neg fun eq => ne (beq_iff_eq.1 eq).symm,
    Nat.add_zero]

theorem count_remove_self : (r.remove b).2.members.count b = r.members.count b - 1 := by
  rw [remove, List.count_reverse, List.count_erase_self, List.count_reverse]

theorem count_remove_of_ne (ne : a ≠ b) :
    (r.remove b).2.members.count a = r.members.count a := by
  rw [remove, List.count_reverse, List.count_erase_of_ne ne, List.count_reverse]

omit [DecidableEq β] in
theorem filter_add (out : p b = false) : (r.add b).members.filter p = r.members.filter p := by
  rw [add, List.filter_append, List.filter_cons_of_neg (Bool.eq_false_iff.1 out), List.filter_nil,
    List.append_nil]

theorem filter_remove (out : p b = false) :
    (r.remove b).2.members.filter p = r.members.filter p := by
  by_cases mem : b ∈ r.members
  · obtain ⟨xs, ys, -, split, removed⟩ := exists_remove mem
    rw [removed, split, List.filter_append, List.filter_append,
      List.filter_cons_of_neg (Bool.eq_false_iff.1 out)]
  · rw [remove_absent mem]

end Registry

/-- The command registers or removes a listener. -/
def Command.registers {ι α : Type} : Command ι α → Bool
  | .ask _ (.subscribe _) | .ask _ (.unsubscribe _) => true
  | _ => false

/-- The errand is a command of a listener. -/
def Errand.performs {ι α : Type} : Errand ι α → Bool
  | .perform _ _ => true
  | _ => false

namespace Network

variable {ι α : Type} {w w' w₁ : Network ι α} {n m b k : NodeId} {l : Layer ι α}
variable {o : Origin ι α} {except : Option NodeId} {name : String}

/-! ## The invariant -/

/-- Each cache is registered once with its home, and nowhere else. -/
def Attached (w : Network ι α) : Prop :=
  ∀ n m, (w.registry m).members.count (.cache n) = if w.home? n = some m then 1 else 0

structure Linked (w : Network ι α) : Prop where
  wired : w.Wired
  attached : w.Attached

/-- The registries agree on all listeners, and on the caches other than `except` that have the
home they had. -/
def KeepsOthers (w w' : Network ι α) (except : Option NodeId) : Prop :=
  ∀ p : Subscriber → Bool, (∀ k, p (.cache k) = true → except ≠ some k ∧ w'.home? k = w.home? k) →
    ∀ m, (w'.registry m).members.filter p = (w.registry m).members.filter p

/-- A step that keeps the links in order, and other subscribers where they are. -/
structure Relinked (w w' : Network ι α) (except : Option NodeId) : Prop where
  linked : w'.Linked
  others : w.KeepsOthers w' except

theorem linked_empty : (empty : Network ι α).Linked where
  wired := ⟨fun _ _ here => (by cases here), fun _ _ here => (by cases here),
    fun _ _ here => (by cases here), fun _ _ found => (by cases found)⟩
  attached _ _ := rfl

theorem keepsOthers_of_registry (registry : ∀ m, w'.registry m = w.registry m) :
    w.KeepsOthers w' except :=
  fun _ _ m => by rw [registry]

/-- The cache that is `except` in the second step must be so in the first step, or must have
lost its home for good. -/
theorem KeepsOthers.trans (first : w.KeepsOthers w₁ except) (second : w₁.KeepsOthers w' none)
    (between : ∀ k, except ≠ some k → w'.home? k = w.home? k → w₁.home? k = w.home? k) :
    w.KeepsOthers w' except := by
  intro p kept m
  rw [second p (fun k mem => ?_) m, first p (fun k mem => ?_) m]
  · exact ⟨(kept k mem).1, between k (kept k mem).1 (kept k mem).2⟩
  · refine ⟨nofun, (kept k mem).2.trans ?_⟩
    exact (between k (kept k mem).1 (kept k mem).2).symm

theorem Attached.congr (attached : w.Attached) (home : ∀ k, w'.home? k = w.home? k)
    (count : ∀ k m, (w'.registry m).members.count (.cache k) =
      (w.registry m).members.count (.cache k)) : w'.Attached :=
  fun k m => by rw [count, attached, home]

theorem Linked.relinked_same (linked : w.Linked) (same : w.SameLinks w') :
    w.Relinked w' except where
  linked := ⟨linked.wired.sameLinks same,
    linked.attached.congr same.home? fun k m => by rw [same.registry]⟩
  others := keepsOthers_of_registry same.registry

/-! ## Listeners -/

theorem Linked.subscribe (linked : w.Linked) (lt : n < w.nodes.size) (i : Nat) :
    (w.subscribe n (.script i)).Linked where
  wired := linked.wired.rewire size_subscribe (fun _ => layer?_subscribe)
    (fun _ _ mem => (mem_registry_subscribe lt).2 (Or.inl mem)) fun _ _ found => found
  attached := by
    refine linked.attached.congr (fun k => home?_congr layer?_subscribe) fun k m => ?_
    have other : Subscriber.cache k ≠ .script i := nofun
    rw [registry_subscribe lt]
    split
    · exact Registry.count_add_of_ne other
    · rfl

theorem Linked.unsubscribe (linked : w.Linked) (lt : n < w.nodes.size) (i : Nat) :
    (w.unsubscribe n (.script i)).2.Linked where
  wired := linked.wired.rewire size_unsubscribe (fun _ => layer?_unsubscribe)
    (fun _ _ mem => (mem_registry_unsubscribe lt (by rintro ⟨⟩)).2 mem) fun _ _ found => found
  attached := by
    refine linked.attached.congr (fun k => home?_congr layer?_unsubscribe) fun k m => ?_
    have other : Subscriber.cache k ≠ .script i := nofun
    rw [registry_unsubscribe lt]
    split
    · exact Registry.count_remove_of_ne other
    · rfl

/-! ## Letting go of caches -/

theorem home?_retire (here : w.layer? n = some l) :
    (w.retire n).home? k = if n = k then none else w.home? k := by
  rw [home?, layer?_retire here]
  split
  · rename_i same
    rw [← same, here]
    rfl
  · rfl

theorem Linked.retire (linked : w.Linked) (here : w.layer? n = some l)
    (stays : l.retired = false) (unheld : w.isHeld n = false) :
    w.Relinked (w.retire n) none := by
  have lt := linked.wired.below_lt n l here
  have home := home?_eq here stays
  refine ⟨⟨linked.wired.retire here unheld, fun k m => ?_⟩, fun p kept m => ?_⟩
  · have before := linked.attached k m
    rw [registry_retire here lt, home?_retire here]
    by_cases same : n = k
    · subst same
      have away : (none : Option NodeId) ≠ some m := nofun
      rw [home] at before
      rw [if_pos rfl, if_neg away]
      by_cases at_m : l.below = m
      · rw [if_pos at_m, Registry.count_remove_self, before, if_pos (congrArg some at_m)]
      · rw [if_neg at_m, before, if_neg fun eq => at_m (Option.some.inj eq)]
    · have other : Subscriber.cache k ≠ .cache n := fun eq => same (Subscriber.cache.inj eq).symm
      rw [if_neg same, ← before]
      split
      · exact Registry.count_remove_of_ne other
      · rfl
  · have out : p (.cache n) = false := by
      refine Bool.eq_false_iff.2 fun mem => ?_
      have unmoved := (kept n mem).2
      rw [home?_retire here, if_pos rfl, home] at unmoved
      cases unmoved
    rw [registry_retire here lt]
    split
    · exact Registry.filter_remove out
    · rfl

theorem names_retire : (w.retire n).names = w.names := by
  cases here : w.layer? n with
  | none => rw [retire, here]
  | some l =>
    rw [retire_eq here, names_modifyLayer]
    rfl

theorem releases_retire (here : w.layer? n = some l) : w.Releases (w.retire n) where
  names := names_retire
  home k stays := by
    have layer := layer?_retire (k := k) here
    by_cases same : n = k
    · subst same
      rw [if_pos rfl, here] at layer
      cases stays _ layer
    · rw [if_neg same] at layer
      exact ⟨fun l here => stays l (layer.trans here), home?_congr layer⟩

/-- Retiring caches that nobody holds only takes homes away. -/
theorem Linked.sweepLoop (linked : w.Linked) (rounds : Nat) :
    w.Relinked (sweepLoop rounds w) none ∧ w.Releases (Network.sweepLoop rounds w) := by
  induction rounds generalizing w with
  | zero => exact ⟨linked.relinked_same (.refl w), .refl w⟩
  | succ rounds ih =>
    unfold Network.sweepLoop
    split
    · rename_i n found
      obtain ⟨l, here, stays, unheld⟩ := exists_of_unheld? found
      have first := linked.retire here stays unheld
      have releases := releases_retire here
      obtain ⟨rest, fewer⟩ := ih first.linked
      exact ⟨⟨rest.linked, first.others.trans rest.others fun k _ => releases.home?_between fewer⟩,
        releases.trans fewer⟩
    · exact ⟨linked.relinked_same (.refl w), .refl w⟩

/-- The nodes that are attached caches. -/
def attachedNodes (w : Network ι α) : List NodeId :=
  (List.range w.nodes.size).filter fun k => (w.home? k).isSome

theorem length_attachedNodes_retire (here : w.layer? n = some l) (stays : l.retired = false) :
    (w.retire n).attachedNodes.length < w.attachedNodes.length := by
  have home := home?_eq here stays
  have fewer : (w.retire n).attachedNodes = w.attachedNodes.filter fun k => n ≠ k := by
    rw [attachedNodes, size_retire here, attachedNodes, List.filter_filter]
    refine List.filter_congr fun k _ => ?_
    rw [home?_retire here]
    by_cases same : n = k
    · simp [same]
    · simp [same]
  rw [fewer]
  refine List.length_filter_lt_length_iff_exists.2 ⟨n, List.mem_filter.2 ⟨?_, ?_⟩, by simp⟩
  · exact List.mem_range.2 (lt_size_of_layer? here)
  · rw [home]
    rfl

/-- With rounds enough no cache is left that should be retired. -/
theorem unheld?_sweepLoop {rounds : Nat} (enough : w.attachedNodes.length ≤ rounds) :
    (sweepLoop rounds w).unheld? = none := by
  induction rounds generalizing w with
  | zero =>
    rw [Network.sweepLoop]
    cases found : w.unheld? with
    | none => rfl
    | some n =>
      obtain ⟨l, here, stays, -⟩ := exists_of_unheld? found
      have less := length_attachedNodes_retire here stays
      omega
  | succ rounds ih =>
    unfold Network.sweepLoop
    split
    · rename_i n found
      obtain ⟨l, here, stays, -⟩ := exists_of_unheld? found
      have less := length_attachedNodes_retire here stays
      exact ih (by omega)
    · assumption

theorem isHeld_of_unheld? (all : w.unheld? = none) (here : w.layer? n = some l)
    (stays : l.retired = false) : w.isHeld n = true := by
  have held := List.find?_eq_none.1 all n (List.mem_range.2 (lt_size_of_layer? here))
  rw [here] at held
  simpa [stays] using held

/-- An attached cache is held by something after a sweep. -/
theorem isHeld_sweep (home : w.sweep.home? n = some m) : w.sweep.isHeld n = true := by
  have few : w.attachedNodes.length ≤ w.nodes.size :=
    Nat.le_trans (List.length_filter_le _ _) (Nat.le_of_eq List.length_range)
  obtain ⟨l, here, stays, -⟩ := home?_eq_some_iff.1 home
  exact isHeld_of_unheld? (unheld?_sweepLoop few) here stays

theorem below?_sweepLoop (rounds : Nat) : (sweepLoop rounds w).below? k = w.below? k :=
  sweepLoop_keeps (f := fun w => w.below? k) (fun _ _ => below?_retire) rounds

/-- After a step, caches that nobody holds any more are retired. -/
theorem Relinked.sweep (step : w.Relinked w₁ except)
    (home : ∀ k, except ≠ some k → w₁.home? k = w.home? k) : w.Relinked w₁.sweep except :=
  have swept := (step.linked.sweepLoop _).1
  ⟨swept.linked, step.others.trans swept.others fun k other _ => home k other⟩

/-! ## Attaching caches -/

theorem home?_moved (here : w.layer? n = some l) (stays : l.retired = false) :
    (w.moved n l b).home? k = if n = k then some b else w.home? k := by
  rw [home?, layer?_moved here]
  split
  · rw [Option.bind_some, stays]
    rfl
  · rfl

theorem registry_moved (below_lt : l.below < w.nodes.size) (lt : b < w.nodes.size) :
    (w.moved n l b).registry k =
      let left := if l.below = k then ((w.registry k).remove (.cache n)).2 else w.registry k
      if b = k then left.add (.cache n) else left := by
  rw [moved, registry_subscribe (by rwa [size_unsubscribe, setBody, size_modify]),
    registry_unsubscribe (by rwa [setBody, size_modify]), registry_setBody]

theorem Linked.moved (linked : w.Linked) (here : w.layer? n = some l) (stays : l.retired = false)
    (lt : b < w.nodes.size) (stays_b : w.Stays b) : w.Relinked (w.moved n l b) (some n) := by
  have below_lt := linked.wired.below_lt n l here
  have home := home?_eq here stays
  refine ⟨⟨linked.wired.moved here stays lt stays_b, fun k m => ?_⟩, fun p kept m => ?_⟩
  · have before := linked.attached k m
    rw [registry_moved below_lt lt, home?_moved here stays]
    by_cases same : n = k
    · subst same
      have left : (if l.below = m then ((w.registry m).remove (.cache n)).2
          else w.registry m).members.count (.cache n) = 0 := by
        rw [home] at before
        by_cases at_m : l.below = m
        · rw [if_pos at_m, Registry.count_remove_self, before, if_pos (congrArg some at_m)]
        · rw [if_neg at_m, before, if_neg fun eq => at_m (Option.some.inj eq)]
      dsimp only
      rw [if_pos rfl]
      by_cases to_m : b = m
      · rw [if_pos to_m, if_pos (congrArg some to_m), Registry.count_add_self, left]
      · rw [if_neg to_m, if_neg fun eq => to_m (Option.some.inj eq), left]
    · have other : Subscriber.cache k ≠ .cache n := fun eq => same (Subscriber.cache.inj eq).symm
      have left : (if l.below = m then ((w.registry m).remove (.cache n)).2
          else w.registry m).members.count (.cache k) =
            (w.registry m).members.count (.cache k) := by
        split
        · exact Registry.count_remove_of_ne other
        · rfl
      rw [if_neg same, ← before, ← left]
      dsimp only
      split
      · exact Registry.count_add_of_ne other
      · rfl
  · have out : p (.cache n) = false := Bool.eq_false_iff.2 fun mem => (kept n mem).1 rfl
    have left : (if l.below = m then ((w.registry m).remove (.cache n)).2
        else w.registry m).members.filter p = (w.registry m).members.filter p := by
      split
      · exact Registry.filter_remove out
      · rfl
    rw [registry_moved below_lt lt, ← left]
    dsimp only
    split
    · exact Registry.filter_add out
    · rfl

theorem home?_placed {sizing : Sizing} : (w.placed name b sizing).home? k =
    if k = w.nodes.size then some b else w.home? k := by
  rw [home?, layer?_placed]
  split <;> rfl

theorem home?_fresh : w.home? w.nodes.size = none := by
  refine home?_of_absent ?_
  rw [layer?_eq, node?_eq_none (Nat.le_refl _)]
  rfl

theorem Linked.placed (linked : w.Linked) {sizing : Sizing} (lt : b < w.nodes.size)
    (stays : w.Stays b) : w.Relinked (w.placed name b sizing) (some w.nodes.size) := by
  refine ⟨⟨linked.wired.placed lt stays, fun k m => ?_⟩, fun p kept m => ?_⟩
  · have before := linked.attached k m
    rw [registry_placed lt, home?_placed]
    by_cases new : k = w.nodes.size
    · have away : (none : Option NodeId) ≠ some m := nofun
      subst new
      rw [home?_fresh, if_neg away] at before
      rw [if_pos rfl]
      by_cases to_m : b = m
      · rw [if_pos to_m, if_pos (congrArg some to_m), Registry.count_add_self, before]
      · rw [if_neg to_m, if_neg fun eq => to_m (Option.some.inj eq), before]
    · have other : Subscriber.cache k ≠ .cache w.nodes.size :=
        fun eq => new (Subscriber.cache.inj eq)
      rw [if_neg new, ← before]
      split
      · exact Registry.count_add_of_ne other
      · rfl
  · have out : p (.cache w.nodes.size) = false :=
      Bool.eq_false_iff.2 fun mem => (kept _ mem).1 rfl
    rw [registry_placed lt]
    split
    · exact Registry.filter_add out
    · rfl

theorem home?_addNode {body : Body ι α} (plain : body.layer? = none) :
    (w.addNode name body).2.home? k = w.home? k := by
  rw [home?, layer?_addNode]
  split
  · rename_i new
    rw [new, home?_fresh, plain]
    rfl
  · rfl

theorem Linked.addNode (linked : w.Linked) {body : Body ι α} (plain : body.layer? = none) :
    w.Relinked (w.addNode name body).2 none where
  linked := ⟨linked.wired.addNode plain, linked.attached.congr (fun k => home?_addNode plain)
    fun k m => by rw [registry_addNode]⟩
  others := keepsOthers_of_registry fun m => registry_addNode

theorem Linked.drop (linked : w.Linked) (name : String) :
    w.Relinked { w with names := w.names.erase name } none where
  linked := by
    refine ⟨linked.wired.rewire rfl (fun _ => rfl) (fun _ _ mem => mem) fun name' k found => ?_,
      linked.attached⟩
    rw [Index.get?_erase] at found
    split at found
    · cases found
    · exact found
  others := keepsOthers_of_registry fun _ => rfl

/-! ## Operations -/

theorem sameLinks_edit {β : Type} {f : β → Outcome ι α} {e : Edit ι α β} {pinned : List NodeId}
    (here : w.origin? n = some o) : w.SameLinks (w.edit n o f e pinned).2.1 :=
  (SameLinks.setOrigin here).trans (.of_eq rfl rfl)

variable [DecidableEq ι]

theorem sameLinks_write [ToString ι] (name : String) (u : Update α) :
    w.SameLinks (w.write n name u).2.1 := by
  rw [write_eq]
  split
  · exact .refl w
  · rename_i path m o found
    have here : (w.record o.name u.call).origin? m = some o := (rests_of_bottom? found).origin?
    have recorded : w.SameLinks (w.record o.name u.call) := .of_eq rfl rfl
    unfold writeShelf
    dsimp only
    split
    · exact recorded
    · exact recorded.trans (sameLinks_edit here)

theorem sameLinks_askShelf (here : w.origin? n = some o) (op : Operation ι α) :
    w.SameLinks (w.askShelf name n o op).2.1 := by
  cases op with
  | push v => exact sameLinks_edit here
  | insert position v => exact sameLinks_edit here
  | removeAt position => exact sameLinks_edit here
  | removeId id => exact sameLinks_edit here
  | replaceAll items => exact sameLinks_edit here
  | trouble t => exact .setOrigin here
  | _ => exact .refl w

/-- The cache that an operation at node `n` attaches elsewhere. -/
def moverAt (n : NodeId) : Operation ι α → Option NodeId
  | .attach _ => some n
  | _ => none

theorem Linked.askCache (linked : w.Linked) (here : w.layer? n = some l)
    (stays : l.retired = false) (op : Operation ι α) :
    w.Relinked (w.askCache name n l op).2.1 (moverAt n op) := by
  have same : w.Relinked w (moverAt n op) := linked.relinked_same (.refl w)
  cases op with
  | clear => exact linked.relinked_same (.setCache _)
  | sizeBelow => exact linked.relinked_same ((follows_sameLinks.source _ _).size w)
  | attach below =>
    rw [Network.askCache]
    split
    · rename_i b found
      obtain ⟨lt, stays_b⟩ := linked.wired.named _ b found
      have moved := linked.moved here stays lt stays_b
      have pinned : (w.moved n l b).SameLinks (w.attach n l b).2.1 := .of_eq rfl rfl
      have kept : (w.moved n l b).Relinked (w.attach n l b).2.1 none :=
        moved.linked.relinked_same pinned
      exact ⟨kept.linked, moved.others.trans kept.others fun k _ unmoved =>
        (pinned.home? k).symm.trans unmoved⟩
    · exact same
  | _ => exact same

variable [ToString ι]

theorem Linked.operate (linked : w.Linked) (stays : w.Stays n) {node : Node ι α}
    (at_n : w.node? n = some node) {op : Operation ι α} (subscribes : ∀ s, op ≠ .subscribe s)
    (unsubscribes : ∀ s, op ≠ .unsubscribe s) :
    w.Relinked (w.operate name n node op).2.1 (moverAt n op) := by
  have same : ∀ w', w.SameLinks w' → w.Relinked w' (moverAt n op) :=
    fun w' => linked.relinked_same
  unfold Network.operate
  split
  · exact absurd rfl (subscribes _)
  · exact absurd rfl (unsubscribes _)
  · exact same _ (.of_eq rfl rfl)
  · exact same _ (.refl w)
  · exact same _ (.refl w)
  · exact same _ (.refl w)
  · exact same _ ((follows_sameLinks.source _ _).size w)
  · exact same _ (follows_sameLinks.readAt w n _)
  · exact same _ ((follows_sameLinks.source _ _).range _ _ w)
  · exact same _ ((follows_sameLinks.source _ _).byId _ w)
  · exact same _ (sameLinks_write name _)
  · exact same _ (sameLinks_write name _)
  · exact same _ (.refl w)
  · split
    · rename_i o body
      refine same _ (sameLinks_askShelf ?_ op)
      rw [origin?_eq, at_n, Option.bind_some, body]
      rfl
    · rename_i l body
      have here : w.layer? n = some l := by
        rw [layer?_eq, at_n, Option.bind_some, body]
        rfl
      exact linked.askCache here (stays l here) op
    · exact same _ (.refl w)

/-! ## Commands -/

omit [DecidableEq ι] [ToString ι] in
/-- The cache that a command attaches anew or elsewhere. -/
def mover? (w : Network ι α) : Command ι α → Option NodeId
  | .addCache _ _ _ _ => some w.nodes.size
  | .ask name (.attach _) => w.nodeNamed? name
  | _ => none

/-- What a command does to the links, unless it registers or removes a listener. -/
theorem Linked.relinked_perform (linked : w.Linked) {c : Command ι α}
    (silent : c.registers = false) : w.Relinked (w.perform c).2.1 (w.mover? c) := by
  have same : ∀ w', w.SameLinks w' → w.Relinked w' (w.mover? c) :=
    fun w' => linked.relinked_same
  cases c with
  | addShelf name items identify =>
    exact (linked.addNode rfl).sweep fun k _ => home?_addNode rfl
  | addCache name below capacity chunk =>
    rw [perform]
    split
    · exact same _ (.refl w)
    · exact same _ (.refl w)
    · rename_i sizing b _ found
      obtain ⟨lt, stays⟩ := linked.wired.named _ b found
      exact (linked.placed lt stays).sweep fun k other =>
        home?_placed.trans (if_neg fun new => other (congrArg some new.symm))
  | addRelay name => exact (linked.addNode rfl).sweep fun k _ => home?_addNode rfl
  | addScript name run times failing => exact same _ (.of_eq rfl rfl)
  | drop name => exact (linked.drop name).sweep fun _ _ => rfl
  | ask name op =>
    rw [perform]
    split
    · exact same _ (.refl w)
    · rename_i n found
      split
      · rename_i node at_n
        have step : w.Relinked (w.operate name n node op).2.1 (moverAt n op) :=
          linked.operate (linked.wired.named _ n found).2 at_n
            (by rintro s rfl; cases silent) (by rintro s rfl; cases silent)
        cases op with
        | attach below =>
          rw [mover?, found]
          exact step
        | _ => exact step
      · exact same _ (.refl w)

/-- A cache that is attached to another node has this as its home. -/
theorem home?_attach (linked : w.Linked) {below : String} (named : w.nodeNamed? name = some n)
    (here : w.layer? n = some l) (found : w.nodeNamed? below = some b) :
    (w.perform (.ask name (.attach below))).2.1.home? n = some b := by
  have stays := (linked.wired.named _ n named).2 l here
  have at_n := node?_of_layer? here
  have attached : (w.perform (.ask name (.attach below))).2.1 = (w.attach n l b).2.1 := by
    rw [perform, named]
    dsimp only
    rw [at_n]
    dsimp only
    simp only [operate, askCache, found]
  have pinned : (w.moved n l b).SameLinks (w.attach n l b).2.1 := .of_eq rfl rfl
  rw [attached, pinned.home?, home?_moved here stays, if_pos rfl]

/-- A new cache has a name and a home. -/
theorem home?_addCache (linked : w.Linked) {below : String} {capacity chunk : Nat}
    {sizing : Sizing} (sized : Sizing.ofCounts capacity chunk = .ok sizing)
    (found : w.nodeNamed? below = some b) :
    let w' := (w.perform (.addCache name below capacity chunk)).2.1
    w'.nodeNamed? name = some w.nodes.size ∧ w'.home? w.nodes.size = some b := by
  intro w'
  obtain ⟨lt, stays⟩ := linked.wired.named _ b found
  have added : w' = (w.placed name b sizing).sweep := by
    change (w.perform (.addCache name below capacity chunk)).2.1 = _
    rw [perform, sized, found]
    rfl
  have placed : w.Relinked (w.placed name b sizing) (some w.nodes.size) := linked.placed lt stays
  obtain ⟨swept, releases⟩ := placed.linked.sweepLoop (w.placed name b sizing).nodes.size
  have below : (w.placed name b sizing).sweep.below? w.nodes.size = _ := below?_sweepLoop _
  have named : w'.nodeNamed? name = some w.nodes.size := by
    rw [added, nodeNamed?, sweep, releases.names, Network.placed, subscribe, modify, addNode,
      Index.get?_insert, if_pos rfl]
  refine ⟨named, ?_⟩
  have at_b : (w.placed name b sizing).below? w.nodes.size = some b := by
    rw [below?, layer?_placed, if_pos rfl]
    rfl
  obtain ⟨l, here, at_b⟩ := Option.map_eq_some_iff.1 (below.trans at_b)
  rw [added] at named ⊢
  have stays := (swept.linked.wired.named name _ named).2 l here
  exact (home?_eq here stays).trans (congrArg some at_b)

theorem Linked.perform (linked : w.Linked) (c : Command ι α) : (w.perform c).2.1.Linked := by
  cases registers : c.registers with
  | false => exact (linked.relinked_perform registers).linked
  | true =>
    cases c with
    | ask name op =>
      rw [Network.perform]
      split
      · exact linked
      · rename_i n found
        have lt := (linked.wired.named _ n found).1
        split
        · cases op with
          | subscribe s =>
            rw [Network.operate]
            split
            · exact linked.subscribe lt _
            · exact linked
          | unsubscribe s =>
            rw [Network.operate]
            split
            · exact linked.unsubscribe lt _
            · exact linked
          | _ => cases registers
        · exact linked
    | _ => cases registers

/-! ## Errands -/

/-- Any other errand than the command of a listener leaves the links alone, and then possibly
retires caches that nobody holds. -/
theorem sameLinks_advance {errand : Errand ι α} (silent : errand.performs = false) :
    ∃ w₁, w.SameLinks w₁ ∧
      ((w.advance errand).2.1 = w₁ ∨ (w.advance errand).2.1 = w₁.sweep) := by
  cases errand with
  | announce n change => exact ⟨w, .refl w, Or.inl rfl⟩
  | deliver recipient change =>
    refine ⟨_, ?_, Or.inl rfl⟩
    cases recipient with
    | cache n =>
      rw [advance, deliverToCache]
      split
      · exact .refl w
      · rename_i l here
        split
        · exact .refl w
        · rename_i present
          have called : w.SameLinks (w.modifyLayer n fun l =>
              { l with cache := l.cache.apply change, busy := l.busy + 1 }) :=
            .modifyLayer (fun _ => rfl) (fun _ => rfl) fun l' here' _ =>
              Option.some.inj (here.symm.trans here') ▸ Bool.eq_false_iff.2 present
          rwa [modifyLayer_eq here] at called
    | script i =>
      rw [advance, deliverToScript]
      split
      · exact .refl w
      · dsimp only
        split
        · exact .of_eq rfl rfl
        · split <;> exact .of_eq rfl rfl
  | perform script command => cases silent
  | note entry => exact ⟨w.note entry, .of_eq rfl rfl, Or.inl rfl⟩
  | settle n =>
    refine ⟨_, ?_, Or.inr rfl⟩
    refine .modifyLayer (fun _ => rfl) (fun _ => rfl) fun l _ present => ?_
    rw [Layer.isGone, Bool.and_eq_false_iff, beq_eq_false_iff_ne] at present ⊢
    refine present.imp_right fun busy idle => busy ?_
    rw [idle]
  | unpin count => exact ⟨{ w with pins := w.pins.drop count }, .of_eq rfl rfl, Or.inr rfl⟩

theorem Linked.relinked_advance (linked : w.Linked) {errand : Errand ι α}
    (silent : errand.performs = false) : w.Relinked (w.advance errand).2.1 none := by
  obtain ⟨w₁, same, rfl | swept⟩ := sameLinks_advance (w := w) silent
  · exact linked.relinked_same same
  · rw [swept]
    exact (linked.relinked_same same).sweep fun k _ => same.home? k

/-- Such an errand only takes homes away. -/
theorem Linked.releases_advance (linked : w.Linked) {errand : Errand ι α}
    (silent : errand.performs = false) : w.Releases (w.advance errand).2.1 := by
  obtain ⟨w₁, same, rfl | swept⟩ := sameLinks_advance (w := w) silent
  · exact .of_sameLinks same
  · have step : w.Relinked w₁ none := linked.relinked_same same
    rw [swept]
    exact (Releases.of_sameLinks same).trans (step.linked.sweepLoop _).2

theorem Linked.advance (linked : w.Linked) (errand : Errand ι α) :
    (w.advance errand).2.1.Linked := by
  cases performs : errand.performs with
  | false => exact (linked.relinked_advance performs).linked
  | true =>
    cases errand with
    | perform script command => exact linked.perform command
    | _ => cases performs

/-- What commands and errands lead to, in whatever order and however listeners fail. -/
inductive Arises : Network ι α → Prop
  | empty : Arises empty
  | perform {w : Network ι α} (c : Command ι α) : Arises w → Arises (w.perform c).2.1
  | advance {w : Network ι α} (errand : Errand ι α) : Arises w → Arises (w.advance errand).2.1

theorem Arises.linked (arises : w.Arises) : w.Linked := by
  induction arises with
  | empty => exact linked_empty
  | perform c _ ih => exact ih.perform c
  | advance errand _ ih => exact ih.advance errand

theorem Arises.cleanUp (arises : w.Arises) (errands : List (Errand ι α)) :
    (w.cleanUp errands).Arises := by
  rw [Network.cleanUp]
  induction errands.filter Errand.isCleanup generalizing w with
  | nil => exact arises
  | cons errand errands ih => exact ih (arises.advance errand)

theorem Arises.drain (arises : w.Arises) (rounds : Nat) (agenda : List (Errand ι α)) :
    (drain rounds w agenda).2.Arises := by
  induction rounds generalizing w agenda with
  | zero => exact arises
  | succ rounds ih =>
    cases agenda with
    | nil => exact arises
    | cons errand agenda =>
      have next := arises.advance errand
      rw [Network.drain]
      split
      · rename_i step
        rw [step] at next
        exact ih next _
      · rename_i step
        rw [step] at next
        exact next.cleanUp _

theorem Arises.execute (arises : w.Arises) (c : Command ι α) : (w.execute c).2.Arises := by
  have drained := (arises.perform c).drain (w.effort c) (w.perform c).2.2
  rw [Network.execute]
  dsimp only
  split
  · rename_i step
    rwa [step] at drained
  · rename_i step
    rwa [step] at drained

theorem Arises.executeAll (arises : w.Arises) (cs : List (Command ι α)) :
    (cs.foldl (fun w c => (w.execute c).2) w).Arises := by
  induction cs generalizing w with
  | nil => exact arises
  | cons c cs ih => exact ih (arises.execute c)

end Network

end ReadThrough
