import ReadThrough.Proofs.Cache.Asking
import ReadThrough.Proofs.Network.Writing

/-!
# Links between nodes

A live cache has one node as its home, which it reads from and whose announcements it hears.
Most of what happens in a network leaves all links alone: the registries, the homes of caches
and the names.

* `Network.home?` is the node that a cache is attached to, unless it was retired.
* `Network.Follows next`: reads lead only to networks that come `next`; what is recorded and
  what caches are filled with decide this.
* `Network.SameLinks`: two networks have the same links.
* `Network.Releases`: they have, apart from caches that were let go of in between.
-/

namespace ReadThrough.Network

variable {ι α : Type}

/-! ## Where reads lead -/

/-- A relation that holds when a call is recorded, and when a cache is put back. -/
structure Follows (next : Network ι α → Network ι α → Prop) : Prop where
  refl : ∀ w, next w w
  trans : ∀ {w w' w''}, next w w' → next w' w'' → next w w''
  record : ∀ w name call, next w (w.record name call)
  setCache : ∀ w n c, next w (w.setCache n c)

namespace Follows

variable {next : Network ι α → Network ι α → Prop}

theorem store {β : Type} {w : Network ι α} {n : NodeId} {r : β × Cache ι α × Network ι α}
    (follows : Follows next) (read : next w r.2.2) : next w (Network.store n r).2 :=
  follows.trans read (follows.setCache _ _ _)

variable [DecidableEq ι]

/-- Asking a node does no more than to record calls and to fill caches. -/
theorem source (follows : Follows next) (d : Nat) (n : NodeId) :
    (Network.source d n).Follows next := by
  induction d generalizing n with
  | zero => exact ⟨follows.refl, follows.trans, follows.refl, fun _ _ => follows.refl,
      fun _ => follows.refl⟩
  | succ d ih =>
    refine ⟨follows.refl, follows.trans, fun w => ?_, fun start length w => ?_, fun id w => ?_⟩
    all_goals
      rw [Network.source]
      dsimp only
      rcases w.node? n with _ | ⟨o | l | _, r⟩
      · exact follows.refl w
      · exact follows.record w _ _
      · refine follows.store ?_
        first
          | exact (ih l.below).through.size (l.cache, w)
          | exact (ih l.below).through.range start length (l.cache, w)
          | exact (ih l.below).through.byId id (l.cache, w)
      · exact follows.refl w

theorem readAt (follows : Follows next) (w : Network ι α) (n : NodeId) (position : Nat) :
    next w (w.readAt n position).2 := by
  unfold Network.readAt
  split
  · exact follows.record w _ _
  · exact follows.store ((follows.source _ _).asksRange (Cache.get_asks _ position _ _).1)
  · exact follows.refl w

end Follows

/-! ## Homes -/

variable {w w' w₁ : Network ι α} {n m b k : NodeId} {l : Layer ι α} {o o' : Origin ι α}
variable {f : Layer ι α → Layer ι α}

/-- The node that a cache is attached to, unless it was retired. -/
def home? (w : Network ι α) (n : NodeId) : Option NodeId :=
  (w.layer? n).bind fun l => if l.retired then none else some l.below

theorem home?_eq_some_iff :
    w.home? n = some m ↔ ∃ l, w.layer? n = some l ∧ l.retired = false ∧ l.below = m := by
  rw [home?, Option.bind_eq_some_iff]
  refine exists_congr fun l => and_congr_right fun _ => ?_
  cases l.retired with
  | true => exact ⟨fun eq => (by cases eq), fun both => (by cases both.1)⟩
  | false => exact ⟨fun eq => ⟨rfl, Option.some.inj eq⟩, fun both => congrArg some both.2⟩

theorem home?_eq (here : w.layer? n = some l) (stays : l.retired = false) :
    w.home? n = some l.below :=
  home?_eq_some_iff.2 ⟨l, here, stays, rfl⟩

theorem home?_of_retired (here : w.layer? n = some l) (retired : l.retired = true) :
    w.home? n = none := by
  rw [home?, here, Option.bind_some, retired]
  rfl

theorem home?_of_absent (absent : w.layer? n = none) : w.home? n = none := by
  rw [home?, absent]
  rfl

theorem home?_congr (layer : w'.layer? n = w.layer? n) : w'.home? n = w.home? n := by
  rw [home?, home?, layer]

/-- Who reads from whom, who hears of whom, and the names are the same.  No cache that was gone
is there again. -/
structure SameLinks (w w' : Network ι α) : Prop where
  size : w'.nodes.size = w.nodes.size
  names : w'.names = w.names
  registry : ∀ k, w'.registry k = w.registry k
  layer : ∀ k, (w'.layer? k).map (fun l => (l.below, l.retired)) =
    (w.layer? k).map fun l => (l.below, l.retired)
  present : ∀ k l l', w.layer? k = some l → w'.layer? k = some l' → l'.isGone = false →
    l.isGone = false

namespace SameLinks

theorem refl (w : Network ι α) : w.SameLinks w :=
  ⟨rfl, rfl, fun _ => rfl, fun _ => rfl, fun _ _ _ here here' present =>
    Option.some.inj (here.symm.trans here') ▸ present⟩

theorem exists_layer (same : w.SameLinks w') {l' : Layer ι α} (here' : w'.layer? k = some l') :
    ∃ l, w.layer? k = some l ∧ l'.below = l.below ∧ l'.retired = l.retired ∧
      (l'.isGone = false → l.isGone = false) := by
  have eq := same.layer k
  rw [here'] at eq
  obtain ⟨l, here, eq⟩ := Option.map_eq_some_iff.1 eq.symm
  obtain ⟨below, retired⟩ := Prod.mk.inj eq
  exact ⟨l, here, below.symm, retired.symm, same.present k l l' here here'⟩

theorem trans (first : w.SameLinks w₁) (second : w₁.SameLinks w') : w.SameLinks w' where
  size := second.size.trans first.size
  names := second.names.trans first.names
  registry k := (second.registry k).trans (first.registry k)
  layer k := (second.layer k).trans (first.layer k)
  present k l l' here here' present := by
    obtain ⟨l₁, here₁, -, -, present₁⟩ := second.exists_layer here'
    exact first.present k l l₁ here here₁ (present₁ present)

theorem home? (same : w.SameLinks w') (k : NodeId) : w'.home? k = w.home? k := by
  have of_meta : ∀ w : Network ι α, w.home? k =
      ((w.layer? k).map fun l => (l.below, l.retired)).bind fun p =>
        if p.2 then none else some p.1 := by
    intro w
    rw [Network.home?, Option.bind_map]
    rfl
  rw [of_meta w', same.layer, ← of_meta w]

/-- Only the nodes and the names matter. -/
theorem of_eq (nodes : w'.nodes = w.nodes) (names : w'.names = w.names) : w.SameLinks w' := by
  refine ⟨by rw [nodes], names, fun k => registry_congr nodes,
    fun k => by rw [layer?_congr nodes], fun k l l' here here' => ?_⟩
  rw [layer?_congr nodes, here] at here'
  exact fun present => Option.some.inj here' ▸ present

theorem modifyLayer (below : ∀ l, (f l).below = l.below) (retired : ∀ l, (f l).retired = l.retired)
    (present : ∀ l, w.layer? n = some l → (f l).isGone = false → l.isGone = false) :
    w.SameLinks (w.modifyLayer n f) := by
  refine ⟨size_modifyLayer, names_modifyLayer, fun _ => registry_modifyLayer, fun k => ?_,
    fun k l l' here here' => ?_⟩
  · rw [layer?_modifyLayer]
    split
    · rw [Option.map_map]
      exact congrArg (Option.map · _) (funext fun l => Prod.ext (below l) (retired l))
    · rfl
  · rw [layer?_modifyLayer, here] at here'
    split at here'
    · rename_i same
      cases here'
      exact present l (same ▸ here)
    · cases here'
      exact fun present => present

theorem setCache (c : Cache ι α) : w.SameLinks (w.setCache n c) :=
  modifyLayer (fun _ => rfl) (fun _ => rfl) fun _ _ present => present

theorem setOrigin (here : w.origin? n = some o) : w.SameLinks (w.setBody n (.origin o')) := by
  refine ⟨size_modify, rfl, fun _ => registry_setBody, fun k => ?_, fun k l l' at_k at_k' => ?_⟩
  · rw [layer?_setOrigin here]
  · rw [layer?_setOrigin here, at_k] at at_k'
    exact fun present => Option.some.inj at_k' ▸ present

end SameLinks

theorem follows_sameLinks : Follows (ι := ι) (α := α) SameLinks where
  refl := SameLinks.refl
  trans := SameLinks.trans
  record _ _ _ := .of_eq rfl rfl
  setCache _ _ c := .setCache c

/-- A network with the same links is wired in the same way. -/
theorem Wired.sameLinks (wired : w.Wired) (same : w.SameLinks w') : w'.Wired := by
  refine wired.step (Nat.le_of_eq same.size.symm) (fun k l' here' => ?_) fun name k found => ?_
  · obtain ⟨l, here, below, retired, present⟩ := same.exists_layer here'
    refine Or.inl ⟨l, here, below, fun stays => retired ▸ stays, present,
      fun stays _ => retired.trans stays, fun _ mem => ?_⟩
    rwa [same.registry]
  · rw [same.names] at found
    exact Or.inl found

/-! ## Fewer links -/

/-- What is not retired has the home it had; the names are the same. -/
structure Releases (w w' : Network ι α) : Prop where
  names : w'.names = w.names
  home : ∀ k, w'.Stays k → w.Stays k ∧ w'.home? k = w.home? k

namespace Releases

theorem refl (w : Network ι α) : w.Releases w := ⟨rfl, fun _ stays => ⟨stays, rfl⟩⟩

theorem trans (first : w.Releases w₁) (second : w₁.Releases w') : w.Releases w' where
  names := second.names.trans first.names
  home k stays := by
    obtain ⟨stays₁, home₁⟩ := second.home k stays
    obtain ⟨stays, home⟩ := first.home k stays₁
    exact ⟨stays, home₁.trans home⟩

theorem of_sameLinks (same : w.SameLinks w') : w.Releases w' where
  names := same.names
  home k stays := by
    refine ⟨fun l here => ?_, same.home? k⟩
    have eq := same.layer k
    rw [here] at eq
    obtain ⟨l', here', eq⟩ := Option.map_eq_some_iff.1 eq
    exact (Prod.mk.inj eq).2.symm.trans (stays l' here')

/-- A cache keeps its home or loses it. -/
theorem home? (releases : w.Releases w') (k : NodeId) :
    w'.home? k = w.home? k ∨ w'.home? k = none := by
  by_cases stays : w'.Stays k
  · exact Or.inl (releases.home k stays).2
  · obtain ⟨l, here, retired⟩ : ∃ l, w'.layer? k = some l ∧ l.retired = true := by
      simpa [Stays] using stays
    exact Or.inr (home?_of_retired here retired)

theorem home?_of_some (releases : w.Releases w') (home : w'.home? k = some m) :
    w.home? k = some m := by
  rcases releases.home? k with same | lost
  · exact same.symm.trans home
  · rw [home] at lost
    cases lost

/-- A home that is lost does not come back. -/
theorem home?_between (first : w.Releases w₁) (second : w₁.Releases w')
    (unmoved : w'.home? k = w.home? k) : w₁.home? k = w.home? k := by
  rcases first.home? k with same | lost
  · exact same
  · rcases second.home? k with same | gone
    · exact same.symm.trans unmoved
    · exact lost.trans (gone.symm.trans unmoved)

end Releases

end ReadThrough.Network
