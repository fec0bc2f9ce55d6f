import ReadThrough.Proofs.Network.Writing

/-!
# Carrying out commands in a network in step

Whatever a command does in its first step, the network is in step with the errands
that it leaves before those already there.

* `Network.Kept agenda performed`: this is so for a command that was performed while
  `agenda` was still to be done, provided that the shelves are lawful after it.
* `Network.kept_perform`: it is so for every command.
-/

namespace ReadThrough.Network

variable {ι α β : Type} [DecidableEq ι]
variable {w : Network ι α} {n m b : NodeId} {l : Layer ι α} {o : Origin ι α}
variable {agenda : List (Errand ι α)} {name : String}

/-- The network is in step after the first step of a command. -/
def Kept (agenda : List (Errand ι α)) (performed : Performed ι α) : Prop :=
  performed.2.1.Lawful → performed.2.1.InStep (performed.2.2 ++ agenda)

theorem kept_reply (inStep : w.InStep agenda) (outcome : Outcome ι α) :
    Kept agenda (w.reply outcome) :=
  fun _ => inStep

theorem kept_answer {r : Except Fault β × Network ι α} (inStep : r.2.InStep agenda)
    (f : β → Outcome ι α) : Kept agenda (answer f r) :=
  fun _ => inStep

omit [DecidableEq ι] in
/-- What is announced is on the agenda from then on. -/
theorem told_announcing {changes : List (Change ι)} {change : Change ι}
    (mem : change ∈ changes) (count : Nat) :
    .announce n change ∈ (changes.map (.announce n) ++ [.unpin count]) ++ agenda :=
  List.mem_append_left _ (List.mem_append_left _ (List.mem_map_of_mem mem))

theorem kept_announcing {changes : List (Change ι)} {pinned : List NodeId}
    (inStep : w.InStep ((changes.map (.announce n) ++ [.unpin pinned.length]) ++ agenda))
    (outcome : Outcome ι α) : Kept agenda (w.announcing outcome n changes pinned) :=
  fun _ => inStep.congr rfl rfl

theorem kept_edit (inStep : w.InStep agenda) (here : w.origin? m = some o) {f : β → Outcome ι α}
    {e : Edit ι α β} {pinned : List NodeId} (covers : o.shelf.Covers e.2.1 e.2.2) :
    Kept agenda (w.edit m o f e pinned) := by
  intro lawful'
  have at_m : (w.setBody m (.origin { o with shelf := e.2.1 })).origin? m =
      some { o with shelf := e.2.1 } := by
    rw [origin?_setOrigin here, if_pos rfl]
  have edited := inStep.edit here covers (lawful' m _ at_m).distinct
    (fun ch mem => told_announcing mem pinned.length)
    fun _ mem => List.mem_append_right _ mem
  exact edited.congr rfl rfl

theorem kept_write [ToString ι] (inStep : w.InStep agenda) (u : Update α) :
    Kept agenda (w.write n name u) := by
  rw [write_eq]
  split
  · exact kept_reply inStep _
  · rename_i path m o found
    have here : (w.record o.name u.call).origin? m = some o := (rests_of_bottom? found).origin?
    have recorded : (w.record o.name u.call).InStep agenda := inStep.congr rfl rfl
    unfold writeShelf
    dsimp only
    split
    · exact kept_reply recorded _
    · exact kept_edit recorded here Shelf.covers_write

theorem kept_attach (inStep : w.InStep agenda) (here : w.layer? n = some l)
    (stays : l.retired = false) (lt : b < w.nodes.size) (stays_b : w.Stays b) :
    Kept agenda (w.attach n l b) := by
  intro _
  have attached := inStep.moved here stays lt stays_b
    (fun _ mem => List.mem_append_right ([.announce n .contentsChanged, .unpin 3]) mem)
    List.mem_cons_self
  exact attached.congr rfl rfl

/-! ## Operations -/

theorem kept_askShelf (inStep : w.InStep agenda) (here : w.origin? n = some o)
    (operation : Operation ι α) : Kept agenda (w.askShelf name n o operation) := by
  unfold askShelf
  split
  · exact kept_reply inStep _
  · exact kept_edit inStep here Shelf.covers_push
  · exact kept_edit inStep here Shelf.covers_insert
  · exact kept_edit inStep here Shelf.covers_removeAt
  · exact kept_edit inStep here Shelf.covers_removeId
  · exact kept_edit inStep here Shelf.covers_replaceAll
  · exact kept_reply inStep _
  · exact kept_reply (inStep.trouble here) _
  · exact kept_reply inStep _

/-- A cache may be emptied at any time. -/
theorem InStep.clear (inStep : w.InStep agenda) {c : Cache ι α} :
    (w.setCache n c.clear).InStep agenda := by
  refine inStep.wired.modifyLayer (fun _ => rfl) (fun _ => rfl) (fun _ _ stays => stays) ?_
  intro k l here stays
  split
  · exact .clear
  · exact inStep.stocked k l here stays

theorem kept_askCache (inStep : w.InStep agenda) (lawful : w.Lawful)
    (here : w.layer? n = some l) (stays : l.retired = false) (operation : Operation ι α) :
    Kept agenda (w.askCache name n l operation) := by
  unfold askCache
  split
  · exact kept_reply inStep _
  · exact kept_reply inStep _
  · exact kept_reply inStep.clear _
  · exact kept_reply inStep _
  · exact kept_reply inStep _
  · exact kept_reply inStep _
  · split
    · rename_i b found
      obtain ⟨lt, stays_b⟩ := inStep.wired.named _ b found
      exact kept_attach inStep here stays lt stays_b
    · exact kept_reply inStep _
  · exact kept_answer (inStep.size lawful (inStep.wired.below_stays here stays)) _
  · exact kept_reply inStep _

theorem InStep.subscribe (inStep : w.InStep agenda) (lt : n < w.nodes.size) {s : Subscriber} :
    (w.subscribe n s).InStep agenda :=
  inStep.rewire size_subscribe (fun _ => layer?_subscribe) (fun _ => origin?_subscribe)
    (fun _ _ mem => (mem_registry_subscribe lt).2 (Or.inl mem)) fun _ _ found => found

/-- A listener may leave a registry; the caches stay in it. -/
theorem InStep.unsubscribe (inStep : w.InStep agenda) (lt : n < w.nodes.size) {i : Nat} :
    (w.unsubscribe n (.script i)).2.InStep agenda :=
  inStep.rewire size_unsubscribe (fun _ => layer?_unsubscribe) (fun _ => origin?_unsubscribe)
    (fun _ _ mem => (mem_registry_unsubscribe lt (by intro eq; cases eq)).2 mem)
    fun _ _ found => found

variable [ToString ι]

theorem kept_operate (inStep : w.InStep agenda) (lawful : w.Lawful) (stays : w.Stays n)
    {node : Node ι α} (at_n : w.node? n = some node) (operation : Operation ι α) :
    Kept agenda (w.operate name n node operation) := by
  have lt : n < w.nodes.size := (Array.getElem?_eq_some_iff.1 at_n).1
  unfold operate
  split
  · split
    · exact kept_reply (inStep.subscribe lt) _
    · exact kept_reply inStep _
  · split
    · exact kept_reply (inStep.unsubscribe lt) _
    · exact kept_reply inStep _
  · exact kept_announcing (inStep.append _) _
  · exact kept_reply inStep _
  · exact kept_reply inStep _
  · exact kept_reply inStep _
  · exact kept_answer (inStep.size lawful stays) _
  · exact kept_answer (inStep.readAt lawful stays _) _
  · exact kept_answer (inStep.range lawful stays _ _) _
  · exact kept_answer (inStep.byId lawful stays _) _
  · exact kept_write inStep _
  · exact kept_write inStep _
  · exact kept_reply inStep _
  · split
    · rename_i o body
      refine kept_askShelf inStep ?_ _
      rw [origin?_eq, at_n, Option.bind_some, body]
      rfl
    · rename_i l body
      have here : w.layer? n = some l := by
        rw [layer?_eq, at_n, Option.bind_some, body]
        rfl
      exact kept_askCache inStep lawful here (stays l here) _
    · exact kept_reply inStep _

/-! ## Commands -/

theorem kept_perform (inStep : w.InStep agenda) (lawful : w.Lawful) (c : Command ι α) :
    Kept agenda (w.perform c) := by
  unfold perform
  split
  · exact kept_reply (inStep.addNode rfl).sweep _
  · split
    · exact kept_reply inStep _
    · exact kept_reply inStep _
    · rename_i sizing b _ found
      obtain ⟨lt, stays⟩ := inStep.wired.named _ b found
      exact kept_reply (inStep.addCache lt stays) _
  · exact kept_reply (inStep.addNode rfl).sweep _
  · exact fun _ => inStep.congr rfl rfl
  · exact kept_reply inStep.drop.sweep _
  · split
    · exact kept_reply inStep _
    · rename_i n found
      split
      · rename_i node at_n
        exact kept_operate inStep lawful (inStep.wired.named _ n found).2 at_n _
      · exact kept_reply inStep _

end ReadThrough.Network
