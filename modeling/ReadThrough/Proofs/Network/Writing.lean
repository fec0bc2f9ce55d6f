import ReadThrough.Proofs.Network.Upkeep

/-!
# Writing to the bottom of a stack

An update is handed down from cache to cache, and none of them keeps anything of it.  So it
comes to the shelf at the bottom in one step, and leaves every cache as it was; whatever else
becomes of the caches is for the announcements of the shelf to bring about.

* `Network.setCache_self`: a cache that is put back as it was.
* `Network.writer_eq` and `Network.write_eq`: the way down at once.
-/

namespace ReadThrough.Network

variable {ι α : Type} {w : Network ι α} {n m k : NodeId} {l : Layer ι α} {o : Origin ι α}
variable {u : Update α}

theorem modify_eq_self {f : Node ι α → Node ι α}
    (same : ∀ node, w.node? n = some node → f node = node) : w.modify n f = w := by
  have nodes : w.nodes.modify n f = w.nodes := by
    refine Array.ext_getElem? fun k => ?_
    rw [Array.getElem?_modify]
    split
    · rename_i at_n
      subst at_n
      cases here : w.nodes[n]? with
      | none => rfl
      | some node => exact congrArg some (same node here)
    · rfl
  rw [modify, nodes]

theorem setCache_self (here : w.layer? n = some l) : w.setCache n l.cache = w := by
  rw [setCache, modifyLayer_eq here, setBody]
  refine modify_eq_self fun node at_n => ?_
  cases (node?_of_layer? here).symm.trans at_n
  rfl

variable [DecidableEq ι] [ToString ι]

/-- An update of a shelf is not one of a cache. -/
theorem layer?_writeShelf (here : w.origin? m = some o) (pinned : List NodeId) :
    (w.writeShelf m o u pinned).2.1.layer? k = w.layer? k := by
  unfold writeShelf
  dsimp only
  split
  · rfl
  · exact layer?_setOrigin (w := w.record o.name u.call) here

/-- All the nodes on the way down are at work with the update, the upper ones first. -/
theorem writer_eq (name : String) (depth : Nat) (above : List NodeId) (n : NodeId)
    (u : Update α) (w : Network ι α) :
    writer name depth above n u w =
      match w.bottom? depth n with
      | none => ((.misdirected name, []), w)
      | some (path, m, o) =>
        let (outcome, w, errands) := w.writeShelf m o u (above ++ path)
        ((outcome, errands), w) := by
  induction depth generalizing above n with
  | zero => rfl
  | succ depth ih =>
    rcases at_n : w.node? n with _ | ⟨o | l | _, r⟩
    · simp only [writer, bottom?, at_n]
    · simp only [writer, bottom?, at_n]
    · have here : w.layer? n = some l := by
        rw [layer?_eq, at_n]
        rfl
      simp only [writer, bottom?, at_n, store, Cache.update, ih]
      cases found : w.bottom? depth l.below with
      | none => exact congrArg (Prod.mk _) (setCache_self here)
      | some way =>
        obtain ⟨path, m, o⟩ := way
        have kept := layer?_writeShelf (k := n) (u := u) (rests_of_bottom? found).origin?
          (above ++ n :: path)
        simp only [Option.map_some, List.append_assoc, List.singleton_append]
        exact congrArg (Prod.mk _) (setCache_self (kept.trans here))
    · simp only [writer, bottom?, at_n]

/-- An update of any node is one of the shelf at the bottom. -/
theorem write_eq (w : Network ι α) (n : NodeId) (name : String) (u : Update α) :
    w.write n name u =
      match w.bottom? w.depth n with
      | none => w.reply (.misdirected name)
      | some (path, m, o) => w.writeShelf m o u path := by
  rw [write, writer_eq]
  cases w.bottom? w.depth n <;> rfl

end ReadThrough.Network
