import ReadThrough.Proofs.Network.Stack

/-!
# Networks in step

`Network.InStep w agenda` is what holds between any two steps of a network.

* A cache that is not retired hears of the node below it, and that node is not
  retired either; names lead to nodes that are not.
* What a cache holds is right, as far as the changes on their way to it allow.

`Network.Wired.step` is the argument about the first of these for any step: it is enough
that each cache continues as it was or is put in its place.  Retiring caches that nobody
holds keeps a network in step, and so does changing the state of one cache.
-/

namespace ReadThrough

namespace Network

variable {ι α : Type} {w w' : Network ι α} {n m k : NodeId} {l : Layer ι α}
variable {f : Layer ι α → Layer ι α} {agenda agenda' : List (Errand ι α)}

/-- The node is not a retired cache. -/
def Stays (w : Network ι α) (n : NodeId) : Prop :=
  ∀ l, w.layer? n = some l → l.retired = false

/-- Who subscribes to whom, and which caches are held. -/
structure Wired (w : Network ι α) : Prop where
  below_lt : ∀ n l, w.layer? n = some l → l.below < w.nodes.size
  registered : ∀ n l, w.layer? n = some l → l.retired = false →
    .cache n ∈ (w.registry l.below).members
  /-- A cache holds the node below it until it is gone. -/
  holds : ∀ n l, w.layer? n = some l → l.isGone = false → w.Stays l.below
  named : ∀ name n, w.names.get? name = some n → n < w.nodes.size ∧ w.Stays n

theorem Layer.isGone_of_retired (stays : l.retired = false) : l.isGone = false := by
  rw [Layer.isGone, stays, Bool.false_and]

theorem Wired.below_stays (wired : w.Wired) (here : w.layer? n = some l)
    (stays : l.retired = false) : w.Stays l.below :=
  wired.holds n l here (Layer.isGone_of_retired stays)

variable [DecidableEq ι]

/-- The network is wired, and what its caches hold is right. -/
structure InStep (w : Network ι α) (agenda : List (Errand ι α)) : Prop where
  wired : w.Wired
  stocked : ∀ n l, w.layer? n = some l → l.retired = false →
    l.cache.Stocked (w.answers agenda n)

theorem inStep_empty : (empty : Network ι α).InStep [] where
  wired := ⟨fun _ _ here => (by cases here), fun _ _ here => (by cases here),
    fun _ _ here => (by cases here), fun _ _ found => (by cases found)⟩
  stocked _ _ here := by cases here

/-! ## The same stacks -/

theorem answers_congr (below : ∀ k, w'.below? k = w.below? k)
    (origin : ∀ k, w'.origin? k = w.origin? k) :
    (w.answers agenda n).Within (w'.answers agenda n) := by
  refine answers_within fun m o rests =>
    Or.inl ⟨o, ?_, Shelf.answers_mono fun ch pending => ?_⟩
  · exact rests.congr (fun k => (below k).symm) fun k => (origin k).symm
  · exact pending.mono (fun k b under => (below k).trans under) fun _ mem => mem

/-- No change on its way to a cache may get lost. -/
theorem InStep.withAgenda (inStep : w.InStep agenda)
    (more : ∀ k l ch, w.layer? k = some l → l.retired = false → w.Pending agenda ch k →
      w.Pending agenda' ch k) : w.InStep agenda' where
  wired := inStep.wired
  stocked k l here stays := by
    refine (inStep.stocked k l here stays).mono
      (answers_within fun m o rests => Or.inl ⟨o, rests, ?_⟩)
    exact Shelf.answers_mono fun ch => more k l ch here stays

theorem InStep.append (inStep : w.InStep agenda) (errands : List (Errand ι α)) :
    w.InStep (errands ++ agenda) :=
  inStep.withAgenda fun _ _ _ _ _ pending =>
    pending.mono (fun _ _ under => under) fun _ mem => List.mem_append_right _ mem

/-! ## What holds a cache -/

omit [DecidableEq ι] in
theorem isHeld_of_named {name : String} (found : w.names.get? name = some n) :
    w.isHeld n = true := by
  have mem : (name, n) ∈ w.names.pairs := (Index.mem_pairs_iff _ _ _).2 found
  have named : (w.names.pairs.any fun p => p.2 == n) = true :=
    List.any_eq_true.2 ⟨_, mem, beq_self_eq_true n⟩
  rw [isHeld, named, Bool.true_or, Bool.true_or]

omit [DecidableEq ι] in
/-- Nobody has to be retired where every cache has a name. -/
theorem sweep_of_named
    (named : ∀ n l, w.layer? n = some l → ∃ name, w.names.get? name = some n) : w.sweep = w := by
  have held : w.unheld? = none := by
    refine List.find?_eq_none.2 fun n _ => ?_
    cases here : w.layer? n with
    | none => exact Bool.false_ne_true
    | some l =>
      obtain ⟨name, found⟩ := named n l here
      simp only [isHeld_of_named found, Bool.not_true, Bool.and_false]
      exact Bool.false_ne_true
  rw [sweep]
  cases w.nodes.size with
  | zero => rfl
  | succ rounds => rw [sweepLoop, held]

omit [DecidableEq ι] in
theorem isHeld_of_below (here : w.layer? k = some l) (stays : l.isGone = false) :
    w.isHeld l.below = true := by
  rw [layer?_eq] at here
  obtain ⟨⟨body, r⟩, at_k, is_l⟩ := Option.bind_eq_some_iff.1 here
  obtain ⟨lt, at_k⟩ := Array.getElem?_eq_some_iff.1 at_k
  cases body with
  | layer l' =>
    cases is_l
    rw [isHeld, Bool.or_eq_true]
    refine Or.inr (Array.any_eq_true.2 ⟨k, lt, ?_⟩)
    rw [at_k]
    simp [stays]
  | origin o => cases is_l
  | relay => cases is_l

/-! ## Steps in general -/

/-- The cache stands over the same node as before, stays in its registry while it is not
retired, and is neither retired while it is held nor taken back once it was. -/
structure Continues (w w' : Network ι α) (k : NodeId) (l l' : Layer ι α) : Prop where
  below : l'.below = l.below
  stayed : l'.retired = false → l.retired = false
  present : l'.isGone = false → l.isGone = false
  stays : l.retired = false → w.isHeld k = true → l'.retired = false
  registry : l'.retired = false → .cache k ∈ (w.registry l.below).members →
    .cache k ∈ (w'.registry l.below).members

/-- The cache is subscribed to a node that stays, and stays itself. -/
structure Placed (w : Network ι α) (k : NodeId) (l : Layer ι α) : Prop where
  below_lt : l.below < w.nodes.size
  registered : .cache k ∈ (w.registry l.below).members
  stays : l.retired = false
  below_stays : w.Stays l.below

omit [DecidableEq ι] in
theorem continues_refl (registry : .cache k ∈ (w.registry l.below).members →
    .cache k ∈ (w'.registry l.below).members) : Continues w w' k l l :=
  ⟨rfl, fun stays => stays, fun present => present, fun stays _ => stays, fun _ => registry⟩

omit [DecidableEq ι] in
/-- A network is wired if each of its caches is, or was and continues to be. -/
theorem Wired.step (wired : w.Wired) (size : w.nodes.size ≤ w'.nodes.size)
    (caches : ∀ k l', w'.layer? k = some l' →
      (∃ l, w.layer? k = some l ∧ Continues w w' k l l') ∨ w'.Placed k l')
    (names : ∀ name k, w'.names.get? name = some k →
      w.names.get? name = some k ∨ (k < w'.nodes.size ∧ w'.Stays k)) : w'.Wired := by
  have stays : ∀ k, w.Stays k → w.isHeld k = true → w'.Stays k := by
    intro k stays held l' here'
    rcases caches k l' here' with ⟨l, here, continues⟩ | placed
    · exact continues.stays (stays l here) held
    · exact placed.stays
  refine ⟨fun k l' here' => ?_, fun k l' here' stays' => ?_, fun k l' here' present => ?_,
    fun name k found => ?_⟩
  · rcases caches k l' here' with ⟨l, here, continues⟩ | placed
    · exact continues.below ▸ Nat.lt_of_lt_of_le (wired.below_lt k l here) size
    · exact placed.below_lt
  · rcases caches k l' here' with ⟨l, here, continues⟩ | placed
    · rw [continues.below]
      exact continues.registry stays' (wired.registered k l here (continues.stayed stays'))
    · exact placed.registered
  · rcases caches k l' here' with ⟨l, here, continues⟩ | placed
    · have present := continues.present present
      rw [continues.below]
      exact stays _ (wired.holds k l here present) (isHeld_of_below here present)
    · exact placed.below_stays
  · rcases names name k found with found | fresh
    · obtain ⟨lt, stays_k⟩ := wired.named name k found
      exact ⟨Nat.lt_of_lt_of_le lt size, stays k stays_k (isHeld_of_named found)⟩
    · exact fresh

omit [DecidableEq ι] in
theorem Wired.rewire (wired : w.Wired) (size : w'.nodes.size = w.nodes.size)
    (layer : ∀ k, w'.layer? k = w.layer? k)
    (registry : ∀ k c, .cache c ∈ (w.registry k).members → .cache c ∈ (w'.registry k).members)
    (names : ∀ name k, w'.names.get? name = some k → w.names.get? name = some k) : w'.Wired :=
  wired.step (Nat.le_of_eq size.symm)
    (fun k l here => Or.inl ⟨l, (layer k).symm.trans here, continues_refl (registry _ _)⟩)
    fun name k found => Or.inl (names name k found)

/-- A network with the same caches and shelves, whose caches are still subscribed. -/
theorem InStep.rewire (inStep : w.InStep agenda) (size : w'.nodes.size = w.nodes.size)
    (layer : ∀ k, w'.layer? k = w.layer? k) (origin : ∀ k, w'.origin? k = w.origin? k)
    (registry : ∀ k c, .cache c ∈ (w.registry k).members → .cache c ∈ (w'.registry k).members)
    (names : ∀ name k, w'.names.get? name = some k → w.names.get? name = some k) :
    w'.InStep agenda := by
  have below : ∀ k, w'.below? k = w.below? k := fun k => by rw [below?, below?, layer k]
  refine ⟨inStep.wired.rewire size layer registry names, fun k l here stays => ?_⟩
  rw [layer] at here
  exact (inStep.stocked k l here stays).mono (answers_congr below origin)

/-- Only nodes and names matter. -/
theorem InStep.congr (inStep : w.InStep agenda) (nodes : w'.nodes = w.nodes)
    (names : w'.names = w.names) : w'.InStep agenda := by
  refine inStep.rewire (by rw [nodes]) (fun k => layer?_congr nodes)
    (fun k => origin?_congr nodes) (fun k c mem => ?_) fun name k found => ?_
  · rwa [registry_congr nodes]
  · rwa [names] at found

/-! ## Changing a cache -/

/-- Change one cache.  What every cache holds then must be right. -/
theorem Wired.modifyLayer (wired : w.Wired) (below : ∀ l, (f l).below = l.below)
    (retired : ∀ l, (f l).retired = l.retired)
    (gone : ∀ l, w.layer? n = some l → (f l).isGone = false → l.isGone = false)
    (stocked : ∀ k l, w.layer? k = some l → l.retired = false →
      (if n = k then f l else l).cache.Stocked (w.answers agenda k)) :
    (w.modifyLayer n f).InStep agenda := by
  -- a cache after the change, and as it was before
  have before : ∀ k l', (w.modifyLayer n f).layer? k = some l' →
      ∃ l, w.layer? k = some l ∧ l' = if n = k then f l else l := by
    intro k l' here
    rw [layer?_modifyLayer] at here
    split at here
    · rename_i same
      obtain ⟨l, at_k, rfl⟩ := Option.map_eq_some_iff.1 here
      exact ⟨l, at_k, (if_pos same).symm⟩
    · rename_i other
      exact ⟨l', here, (if_neg other).symm⟩
  have below? : ∀ k, (w.modifyLayer n f).below? k = w.below? k := by
    intro k
    rw [Network.below?, Network.below?, layer?_modifyLayer]
    split
    · rw [Option.map_map]
      exact congrArg (Option.map · _) (funext below)
    · rfl
  refine ⟨wired.step (Nat.le_of_eq size_modifyLayer.symm) (fun k l' here => Or.inl ?_)
    fun name k found => Or.inl ?_, fun k l' here stays => ?_⟩
  · obtain ⟨l, at_k, rfl⟩ := before k l' here
    refine ⟨l, at_k, ?_⟩
    split
    · rename_i same
      refine ⟨below l, fun stays => (retired l).symm.trans stays, gone l (same ▸ at_k),
        fun stays _ => (retired l).trans stays, fun _ mem => ?_⟩
      rwa [registry_modifyLayer]
    · exact continues_refl fun mem => by rwa [registry_modifyLayer]
  · rwa [names_modifyLayer] at found
  · obtain ⟨l, at_k, rfl⟩ := before k l' here
    have stays : l.retired = false := by
      split at stays
      · exact (retired l).symm.trans stays
      · exact stays
    exact (stocked k l at_k stays).mono (answers_congr below? fun _ => origin?_modifyLayer)

/-! ## Retiring -/

section

omit [DecidableEq ι]

theorem retire_eq (here : w.layer? n = some l) : w.retire n =
    (w.unsubscribe l.below (.cache n)).2.modifyLayer n fun l => { l with retired := true } := by
  rw [retire, here]

theorem layer?_retire (here : w.layer? n = some l) : (w.retire n).layer? k =
    if n = k then (w.layer? k).map fun l => { l with retired := true } else w.layer? k := by
  rw [retire_eq here, layer?_modifyLayer, layer?_unsubscribe]

theorem below?_retire : (w.retire n).below? k = w.below? k := by
  cases here : w.layer? n with
  | none => rw [retire, here]
  | some l =>
    rw [below?, below?, layer?_retire here]
    split
    · rw [Option.map_map]
      rfl
    · rfl

theorem origin?_retire : (w.retire n).origin? k = w.origin? k := by
  cases here : w.layer? n with
  | none => rw [retire, here]
  | some l => rw [retire_eq here, origin?_modifyLayer, origin?_unsubscribe]

/-- What no cache changes by leaving is as it was when all have left that nobody holds. -/
theorem sweepLoop_keeps {β : Type} {f : Network ι α → β}
    (kept : ∀ (w : Network ι α) n, f (w.retire n) = f w) (rounds : Nat) :
    f (sweepLoop rounds w) = f w := by
  induction rounds generalizing w with
  | zero => rfl
  | succ rounds ih =>
    unfold sweepLoop
    split
    · exact ih.trans (kept _ _)
    · rfl

theorem size_retire (here : w.layer? n = some l) :
    (w.retire n).nodes.size = w.nodes.size := by
  rw [retire_eq here, size_modifyLayer, size_unsubscribe]

theorem registry_retire (here : w.layer? n = some l) (below_lt : l.below < w.nodes.size) :
    (w.retire n).registry k =
      if l.below = k then ((w.registry k).remove (.cache n)).2 else w.registry k := by
  rw [retire_eq here, registry_modifyLayer, registry_unsubscribe below_lt]

/-- A cache that is not held may be retired: no other one reads from it. -/
theorem Wired.retire (wired : w.Wired) (here : w.layer? n = some l)
    (unheld : w.isHeld n = false) : (w.retire n).Wired := by
  have registry : ∀ j k, k ≠ n → .cache k ∈ (w.registry j).members →
      .cache k ∈ ((w.retire n).registry j).members := by
    intro j k ne mem
    rw [registry_retire here (wired.below_lt n l here)]
    split
    · exact (Registry.mem_remove_of_ne fun same => ne (Subscriber.cache.inj same)).2 mem
    · exact mem
  refine wired.step (Nat.le_of_eq (size_retire here).symm) (fun k l' here' => Or.inl ?_)
    fun name k found => Or.inl ?_
  · rw [layer?_retire here] at here'
    split at here'
    · rename_i same
      subst same
      obtain ⟨l, at_n, rfl⟩ := Option.map_eq_some_iff.1 here'
      refine ⟨l, at_n, rfl, fun stays => (by cases stays), fun present => ?_,
        fun _ held => absurd (unheld.symm.trans held) Bool.false_ne_true,
        fun stays => (by cases stays)⟩
      rw [Layer.isGone, Bool.true_and] at present
      rw [Layer.isGone, present, Bool.and_false]
    · rename_i ne
      exact ⟨l', here', continues_refl (registry _ k fun same => ne same.symm)⟩
  · rwa [retire_eq here, names_modifyLayer] at found

end

theorem InStep.retire (inStep : w.InStep agenda) (here : w.layer? n = some l)
    (unheld : w.isHeld n = false) : (w.retire n).InStep agenda := by
  refine ⟨inStep.wired.retire here unheld, fun k l' here' stays => ?_⟩
  rw [layer?_retire here] at here'
  split at here'
  · obtain ⟨l, -, rfl⟩ := Option.map_eq_some_iff.1 here'
    cases stays
  · exact (inStep.stocked k l' here' stays).mono (answers_congr (fun _ => below?_retire)
      fun _ => origin?_retire)

omit [DecidableEq ι] in
/-- What should be retired is a cache that is neither retired nor held. -/
theorem exists_of_unheld? (found : w.unheld? = some n) :
    ∃ l, w.layer? n = some l ∧ l.retired = false ∧ w.isHeld n = false := by
  have unheld := List.find?_some found
  split at unheld
  · rename_i l here
    rw [Bool.and_eq_true, Bool.not_eq_true', Bool.not_eq_true'] at unheld
    exact ⟨l, here, unheld⟩
  · cases unheld

theorem InStep.sweepLoop (inStep : w.InStep agenda) (rounds : Nat) :
    (sweepLoop rounds w).InStep agenda := by
  induction rounds generalizing w with
  | zero => exact inStep
  | succ rounds ih =>
    unfold Network.sweepLoop
    split
    · rename_i n found
      obtain ⟨l, here, -, unheld⟩ := exists_of_unheld? found
      exact ih (inStep.retire here unheld)
    · exact inStep

theorem InStep.sweep (inStep : w.InStep agenda) : w.sweep.InStep agenda :=
  inStep.sweepLoop _

end Network

end ReadThrough
