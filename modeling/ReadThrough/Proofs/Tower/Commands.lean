import ReadThrough.Proofs.Tower.Reading
import ReadThrough.Proofs.Tower.Telling

/-!
# Commands given to a tower

An operation at a level of a tower either edits the shelf, from whichever level it is
called, or leaves the shelf alone and announces nothing.

* `Operation.isCalm`: the operation announces nothing that has not happened, leaves the
  stack as it stands, and lets nothing go wrong.
* `Operation.edit? s n`: the edit of the shelf `s` that an operation at level `n` is.
* `Upright.quiet` and `Tower.operate`: the first step of an operation.
* `Upright.ask`: what a command does in an upright tower, up to the end of its agenda.
-/

namespace ReadThrough

variable {ι α β : Type}

/-- The operation is neither an announcement of one's own, nor a change of what a cache
is attached to, nor of what goes wrong. -/
def Operation.isCalm : Operation ι α → Bool
  | announce _ | attach _ | trouble _ => false
  | _ => true

variable [DecidableEq ι] [ToString ι]

/-- The shelf after an operation at level `n` that is an edit, and what it announces.
Caches have but two of the edits. -/
def Operation.edit? (s : Shelf ι α) : Nat → Operation ι α → Option (Shelf ι α × List (Change ι))
  | _, .updateAt v position => some (s.updateAt v position).2
  | _, .update v => some (s.update v).2
  | 0, .push v => some (s.push v).2
  | 0, .insert position v => some (s.insert position v).2
  | 0, .removeAt position => some (s.removeAt position).2
  | 0, .removeId id => some (s.removeId id).2
  | 0, .replaceAll values => some (s.replaceAll values).2
  | _, _ => none

variable {s : Shelf ι α} {changes : List (Change ι)} {op : Operation ι α} {n : Nat}

theorem Operation.exists_mutator {edited : Shelf ι α × List (Change ι)}
    (edit : op.edit? s n = some edited) :
    ∃ (β : Type) (e : Shelf ι α → Edit ι α β), Shelf.Mutator e ∧ (e s).2 = edited := by
  unfold Operation.edit? at edit
  split at edit
  · exact ⟨_, _, .updateAt _ _, Option.some.inj edit⟩
  · exact ⟨_, _, .update _, Option.some.inj edit⟩
  · exact ⟨_, _, .push _, Option.some.inj edit⟩
  · exact ⟨_, _, .insert _ _, Option.some.inj edit⟩
  · exact ⟨_, _, .removeAt _, Option.some.inj edit⟩
  · exact ⟨_, _, .removeId _, Option.some.inj edit⟩
  · exact ⟨_, _, .replaceAll _, Option.some.inj edit⟩
  · cases edit

omit [ToString ι] in
theorem Shelf.length_replacement {position : Nat} {old? new? : Option ι} :
    (replacement position old? new?).length ≤ 3 := by
  unfold replacement
  cases old? <;> cases new? <;> dsimp only
  case some.some =>
    split
    · exact Nat.le_add_left 1 2
    · exact Nat.le_refl 3
  all_goals simp

/-- An edit announces three changes at most. -/
theorem Shelf.Mutator.length_le {e : Shelf ι α → Edit ι α β} (mutator : Mutator e) (s : Shelf ι α) :
    (e s).2.2.length ≤ 3 := by
  cases mutator with
  | push v => exact Nat.le_add_left 1 2
  | insert position v =>
    dsimp only [Shelf.insert]
    split <;> simp
  | removeAt position =>
    dsimp only [Shelf.removeAt]
    split <;> simp
  | removeId id =>
    dsimp only [Shelf.removeId]
    split <;> simp
  | replaceAll values => exact Nat.le_add_left 1 2
  | updateAt v position =>
    dsimp only [Shelf.updateAt]
    split
    · exact length_replacement
    · exact Nat.zero_le 3
  | update v =>
    dsimp only [Shelf.update]
    split
    · exact Nat.zero_le 3
    · split <;> simp

/-! ## Operations that leave the shelf alone -/

namespace Network

variable {w w' : Network ι α} {h k d : Nat} {o : Origin ι α} {l : Layer ι α} {c : Cache ι α}
variable {node : Node ι α} {name : String}

/-- Nothing is left to be done, and the tower is upright. -/
def Quiet (o : Origin ι α) (h : Nat) (performed : Performed ι α) : Prop :=
  performed.2.2 = [] ∧ performed.2.1.Upright o h

namespace Upright

omit [ToString ι] in
theorem reply (upright : w.Upright o h) (outcome : Outcome ι α) : Quiet o h (w.reply outcome) :=
  ⟨rfl, upright⟩

theorem askShelf (upright : w.Upright o h) (calm : op.isCalm = true)
    (unedited : op.edit? o.shelf 0 = none) : Quiet o h (w.askShelf name 0 o op) := by
  unfold Network.askShelf
  split
  · exact upright.reply _
  · cases unedited
  · cases unedited
  · cases unedited
  · cases unedited
  · cases unedited
  · exact upright.reply _
  · cases calm
  · exact upright.reply _

omit [ToString ι] in
theorem askCache (upright : w.Upright o h) (sound : o.Sound) (lt : k < h)
    (here : w.layer? (k + 1) = some l) (calm : op.isCalm = true) :
    Quiet o h (w.askCache name (k + 1) l op) := by
  obtain ⟨c, busy, here', stocked⟩ := upright.layer? lt
  cases here.symm.trans here'
  unfold Network.askCache
  split
  · exact upright.reply _
  · exact upright.reply _
  · exact ⟨rfl, upright.setCache .clear⟩
  · exact upright.reply _
  · exact upright.reply _
  · exact upright.reply _
  · cases calm
  · have size : k < w.nodes.size := Nat.lt_of_succ_lt (lt_size_of_layer? here)
    have faithful := source_faithful sound (Nat.le_of_lt lt) (Nat.lt_succ_of_lt size)
    exact ⟨rfl, (faithful.truthful.size w upright).1⟩
  · exact upright.reply _

omit [ToString ι] in
theorem subscribe (upright : w.Upright o h) (lt : n < w.nodes.size) (i : Nat) :
    (w.subscribe n (.script i)).Upright o h := by
  obtain ⟨subs, cs, tower, rest⟩ := upright
  obtain ⟨subs', tower'⟩ := tower.subscribe lt i
  exact ⟨subs', cs, tower', rest⟩

omit [ToString ι] in
theorem unsubscribe (upright : w.Upright o h) (lt : n < w.nodes.size) (i : Nat) :
    (w.unsubscribe n (.script i)).2.Upright o h := by
  obtain ⟨subs, cs, tower, rest⟩ := upright
  obtain ⟨subs', tower'⟩ := tower.unsubscribe lt i
  exact ⟨subs', cs, tower', rest⟩

theorem read (upright : w.Upright o h) (sound : o.Sound) (le : n ≤ h)
    (at_n : w.node? n = some node) (name : String) (q : Query ι) :
    Quiet o h (w.operate name n node q.operation) := by
  obtain ⟨w', performed, upright'⟩ := upright.operate sound le at_n name q
  rw [performed]
  exact ⟨rfl, upright'⟩

/-- An operation that edits nothing announces nothing. -/
theorem quiet (upright : w.Upright o h) (sound : o.Sound) (le : n ≤ h)
    (at_n : w.node? n = some node) (name : String) (calm : op.isCalm = true)
    (unedited : op.edit? o.shelf n = none) : Quiet o h (w.operate name n node op) := by
  have lt : n < w.nodes.size := (Array.getElem?_eq_some_iff.1 at_n).1
  unfold Network.operate
  split
  · split
    · exact (upright.subscribe lt _).reply _
    · exact upright.reply _
  · split
    · exact (upright.unsubscribe lt _).reply _
    · exact upright.reply _
  · cases calm
  · exact upright.reply _
  · exact upright.reply _
  · exact upright.reply _
  · exact upright.read sound le at_n name .size
  · exact upright.read sound le at_n name (.get _)
  · exact upright.read sound le at_n name (.range _ _)
  · exact upright.read sound le at_n name (.byId _)
  · cases unedited
  · cases unedited
  · exact upright.reply _
  · cases n with
    | zero =>
      cases (node?_of_origin? upright.origin?).symm.trans at_n
      exact upright.askShelf calm unedited
    | succ k =>
      obtain ⟨c, busy, here, -⟩ := upright.layer? le
      cases (node?_of_layer? here).symm.trans at_n
      exact upright.askCache sound le here calm

end Upright

/-! ## Edits -/

/-- The shelf is edited, and the changes are about to be announced. -/
structure Edited (o : Origin ι α) (subs : NodeId → Registry Subscriber) (cs : List (Cache ι α))
    (edited : Shelf ι α × List (Change ι)) (performed : Performed ι α) : Prop where
  tower : Tower { o with shelf := edited.1 } subs cs performed.2.1
  agenda : ∃ count, performed.2.2 = edited.2.map (.announce 0) ++ [.unpin count]

namespace Tower

variable {subs : NodeId → Registry Subscriber} {cs : List (Cache ι α)}

omit [DecidableEq ι] [ToString ι] in
theorem bottom? (tower : Tower o subs cs w) (le : n ≤ cs.length) (deep : n < d) :
    ∃ path, w.bottom? d n = some (path, 0, o) := by
  induction n generalizing d with
  | zero =>
    obtain ⟨d, rfl⟩ : ∃ d', d = d' + 1 := ⟨d - 1, by omega⟩
    rw [Network.bottom?, node?_of_origin? tower.origin]
    exact ⟨_, rfl⟩
  | succ k ih =>
    obtain ⟨d, rfl⟩ : ∃ d', d = d' + 1 := ⟨d - 1, by omega⟩
    obtain ⟨busy, here⟩ := tower.layer k _ (List.getElem?_eq_getElem le)
    obtain ⟨path, found⟩ := ih (by omega) (Nat.lt_of_succ_lt_succ deep)
    rw [Network.bottom?, node?_of_layer? here]
    dsimp only
    rw [found]
    exact ⟨_, rfl⟩

omit [DecidableEq ι] [ToString ι] in
theorem edit (tower : Tower o subs cs w) (f : β → Outcome ι α) (e : Edit ι α β)
    (pinned : List NodeId) : Edited o subs cs e.2 (w.edit 0 o f e pinned) := by
  have edited : Tower { o with shelf := e.2.1 } subs cs (w.setBody 0 (.origin _)) :=
    tower.setOrigin
  exact ⟨edited.congr rfl rfl edited.silent, _, rfl⟩

theorem write (tower : Tower o subs cs w) (calm : o.trouble = .none) (le : n ≤ cs.length)
    (u : Update α) : Edited o subs cs (o.shelf.write u).2 (w.write n name u) := by
  have size := tower.size
  obtain ⟨path, found⟩ := tower.bottom? (d := w.depth) le (by rw [depth]; omega)
  have recorded : Tower o subs cs (w.record o.name u.call) := tower.congr rfl rfl tower.silent
  rw [write_eq, found]
  dsimp only
  rw [writeShelf, calm]
  exact recorded.edit _ _ path

/-- An operation that edits the shelf does so from any level. -/
theorem operate (tower : Tower o subs cs w) (calm : o.trouble = .none) (le : n ≤ cs.length)
    (at_n : w.node? n = some node) (name : String) {edited : Shelf ι α × List (Change ι)}
    (edit : op.edit? o.shelf n = some edited) :
    Edited o subs cs edited (w.operate name n node op) := by
  unfold Operation.edit? at edit
  split at edit
  · rename_i v position
    cases edit
    exact tower.write calm le (.place v position)
  · rename_i v
    cases edit
    exact tower.write calm le (.renew v)
  all_goals cases edit
  all_goals
    cases (node?_of_origin? tower.origin).symm.trans at_n
    exact tower.edit _ _ _

end Tower

/-! ## Whole commands -/

omit [ToString ι] in
theorem foldl_handle (cs : List (Cache ι α)) :
    changes.foldl handle cs = cs.map fun c => changes.foldl Cache.apply c := by
  induction changes generalizing cs with
  | nil => exact (List.map_id cs).symm
  | cons change changes ih =>
    rw [List.foldl_cons, ih, handle, List.map_map]
    rfl

/-- A command is carried out to the end of its agenda and leaves the shelf `edited.1`;
meanwhile the shelf announces `edited.2`, and every cache is told of each change once. -/
structure Carried (o : Origin ι α) (h : Nat) (w : Network ι α) (command : Command ι α)
    (edited : Shelf ι α × List (Change ι)) : Prop where
  steps : Steps (w.perform command).2.1 (w.perform command).2.2 (w.course command)
    (w.execute command).2
  fires : announcedBy 0 (w.course command) = edited.2
  tells : toldCaches (w.course command) = telling edited.2 w.caches
  handled : edited.2 ≠ [] → (w.execute command).2.caches = edited.2.foldl handle w.caches
  origin : (w.execute command).2.origin? 0 = some { o with shelf := edited.1 }
  upright : edited.1.Lawful → (w.execute command).2.Upright { o with shelf := edited.1 } h

variable {command : Command ι α}

/-- A command that leaves nothing to be done. -/
theorem Quiet.carried (quiet : Quiet o h (w.perform command)) :
    Carried o h w command (o.shelf, []) := by
  obtain ⟨agenda, upright⟩ := quiet
  have steps : Steps (w.perform command).2.1 (w.perform command).2.2 []
      (w.perform command).2.1 := by
    rw [agenda]
    exact .done
  obtain ⟨ended, passed⟩ := steps.execute (Nat.zero_le _)
  refine ⟨?_, ?_, ?_, fun some => absurd rfl some, ?_, fun _ => ?_⟩
  all_goals simp only [ended, passed]
  · exact steps
  · rfl
  · rfl
  · exact upright.origin?
  · exact upright

/-- An edit that is announced. -/
theorem Edited.carried {subs : NodeId → Registry Subscriber} {cs : List (Cache ι α)}
    {edited : Shelf ι α × List (Change ι)} (performed : Edited o subs cs edited (w.perform command))
    (tower : Tower o subs cs w) (stocked : ∀ c ∈ cs, c.Stocked (o.shelf.answers fun _ => False))
    (covers : o.shelf.Covers edited.1 edited.2) (few : edited.2.length ≤ 3) :
    Carried o cs.length w command edited := by
  obtain ⟨count, agenda⟩ := performed.agenda
  obtain ⟨moments, w', leads, length⟩ := performed.tower.announcing edited.2 count
  have steps : Steps (w.perform command).2.1 (w.perform command).2.2 moments w' := by
    rw [agenda]
    exact leads.steps
  have rounds : moments.length ≤ w.effort command := by
    have enough := tower.enough command
    have most := Nat.mul_le_mul_right (errands subs 0 cs.length) few
    omega
  obtain ⟨ended, passed⟩ := steps.execute rounds
  have upright : edited.1.Lawful → w'.Upright { o with shelf := edited.1 } cs.length := by
    refine fun lawful => ⟨subs, _, leads.tower, ?_, fun c' mem => ?_⟩
    · rw [foldl_handle, List.length_map]
    · rw [foldl_handle] at mem
      obtain ⟨c, old, rfl⟩ := List.mem_map.1 mem
      exact ((stocked c old).mono (covers.within lawful.distinct fun _ => False)).announcedAll
  refine ⟨?_, ?_, ?_, fun _ => ?_, ?_, ?_⟩
  all_goals simp only [ended, passed]
  · exact steps
  · exact leads.fired
  · rw [leads.told, tower.caches_eq]
  · rw [leads.tower.caches_eq, tower.caches_eq]
  · exact leads.tower.origin
  · exact upright

omit [DecidableEq ι] [ToString ι] in
theorem Tower.exists_node {subs : NodeId → Registry Subscriber} {cs : List (Cache ι α)}
    (tower : Tower o subs cs w) (le : n ≤ cs.length) : ∃ node, w.node? n = some node :=
  ⟨_, Array.getElem?_eq_getElem (tower.size ▸ Nat.lt_succ_of_le le)⟩

theorem perform_ask (found : w.names.get? name = some n) (at_n : w.node? n = some node)
    (op : Operation ι α) : w.perform (.ask name op) = w.operate name n node op := by
  rw [perform, nodeNamed?, found]
  dsimp only
  rw [at_n]

end Network

/-- The shelf after an operation at level `n`, and what it announces meanwhile. -/
def Operation.effect (op : Operation ι α) (s : Shelf ι α) (n : Nat) : Shelf ι α × List (Change ι) :=
  (op.edit? s n).getD (s, [])

namespace Network

variable {w w' : Network ι α} {h : Nat} {o : Origin ι α} {name : String}

/-- What a calm operation does to an upright tower. -/
theorem Upright.ask (upright : w.Upright o h) (sound : o.Sound) (found : w.names.get? name = some n)
    (calm : op.isCalm = true) : Carried o h w (.ask name op) (op.effect o.shelf n) := by
  obtain ⟨subs, cs, tower, rfl, stocked⟩ := upright
  have le := tower.inside name n found
  obtain ⟨node, at_n⟩ := tower.exists_node le
  have performed := perform_ask found at_n op
  unfold Operation.effect
  cases edit : op.edit? o.shelf n with
  | none =>
    have upright : w.Upright o cs.length := ⟨subs, cs, tower, rfl, stocked⟩
    have quiet := upright.quiet sound le at_n name calm edit
    rw [← performed] at quiet
    exact quiet.carried
  | some edited =>
    have operated := tower.operate sound.calm le at_n name edit
    rw [← performed] at operated
    obtain ⟨β, e, mutator, same⟩ := Operation.exists_mutator edit
    have covers := mutator.covers o.shelf
    have few := mutator.length_le o.shelf
    rw [same] at covers few
    exact operated.carried tower stocked covers few

/-- What a read answers in an upright tower. -/
theorem Upright.answer (upright : w.Upright o h) (sound : o.Sound)
    (found : w.names.get? name = some n) (q : Query ι) :
    (w.execute (.ask name q.operation)).1 = q.outcome (o.shelf.query q) := by
  obtain ⟨subs, cs, tower, rfl, stocked⟩ := upright
  have le := tower.inside name n found
  obtain ⟨node, at_n⟩ := tower.exists_node le
  obtain ⟨w', read, -⟩ := Upright.operate ⟨subs, cs, tower, rfl, stocked⟩ sound le at_n name q
  have performed := (perform_ask found at_n q.operation).trans read
  rw [execute_of_perform performed]

end Network

end ReadThrough
