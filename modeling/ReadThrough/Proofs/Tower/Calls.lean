import ReadThrough.Proofs.Network.Links
import ReadThrough.Proofs.Tower.Itinerary

/-!
# Calls to shelves

A network keeps a record of the calls to its shelves.  The record only grows, and it grows
with the first step of a command and with the commands that listeners perform in its course:
announcing and delivering a change, and letting caches go, call no shelf.

* `Source.Recording src calls`: asking the source only adds to a record.
* `Network.calls_perform`: so does the first step of every command.
* `Network.madeBy`, `Network.calledByListeners`: what the commands of listeners add.
* `Network.calls_execute`: these are all the calls after the first step.
-/

namespace ReadThrough

variable {σ κ ι α : Type}

/-! ## Records of sources -/

/-- Asking the source only adds to the record, which has the latest entry first. -/
structure Source.Recording (src : Source σ ι α) (calls : σ → List κ) : Prop where
  size : ∀ s, calls s <:+ calls (src.size s).2
  range : ∀ start length s, calls s <:+ calls (src.range start length s).2
  byId : ∀ id s, calls s <:+ calls (src.byId id s).2

namespace Network

variable {w w' : Network ι α} {n m : NodeId} {o : Origin ι α} {l : Layer ι α}

/-! ## What calls no shelf -/

@[simp] theorem calls_modifyLayer {f : Layer ι α → Layer ι α} :
    (w.modifyLayer n f).calls = w.calls := by
  unfold modifyLayer
  split <;> rfl

@[simp] theorem calls_store {β : Type} {r : β × Cache ι α × Network ι α} :
    (store n r).2.calls = r.2.2.calls := calls_modifyLayer

theorem calls_retire : (w.retire n).calls = w.calls := by
  unfold retire
  split
  · exact calls_modifyLayer
  · rfl

theorem calls_sweepLoop (rounds : Nat) : (sweepLoop rounds w).calls = w.calls :=
  sweepLoop_keeps (f := fun w => w.calls) (fun _ _ => calls_retire) rounds

@[simp] theorem calls_sweep : w.sweep.calls = w.calls := calls_sweepLoop _

/-! ## The first step of a command -/

variable [DecidableEq ι]

theorem calls_write [ToString ι] (name : String) (u : Update α) :
    w.calls <:+ (w.write n name u).2.1.calls := by
  rw [write_eq]
  split
  · exact List.suffix_rfl
  · unfold writeShelf
    dsimp only
    split <;> exact List.suffix_cons _ _


omit [DecidableEq ι] in
theorem follows_calls : Follows (ι := ι) (α := α) fun w w' => w.calls <:+ w'.calls where
  refl _ := List.suffix_rfl
  trans first second := first.trans second
  record _ _ _ := List.suffix_cons _ _
  setCache _ _ c := calls_modifyLayer (f := fun l => { l with cache := c }) ▸ List.suffix_rfl

theorem recording_source (d : Nat) (n : NodeId) :
    (source d n).Recording (Network.calls (ι := ι) (α := α)) :=
  have follows := follows_calls.source d n
  ⟨follows.size, follows.range, follows.byId⟩

theorem calls_readAt (position : Nat) : w.calls <:+ (w.readAt n position).2.calls :=
  follows_calls.readAt w n position

theorem calls_askShelf (name : String) (op : Operation ι α) :
    w.calls <:+ (w.askShelf name n o op).2.1.calls := by
  cases op <;> exact List.suffix_rfl

theorem calls_askCache (name : String) (op : Operation ι α) :
    w.calls <:+ (w.askCache name n l op).2.1.calls := by
  cases op with
  | clear =>
    have same : (w.setCache n l.cache.clear).calls = w.calls := calls_modifyLayer
    exact same ▸ List.suffix_rfl
  | attach below =>
    unfold askCache
    dsimp only
    split <;> exact List.suffix_rfl
  | sizeBelow => exact (recording_source _ _).size w
  | _ => exact List.suffix_rfl

variable [ToString ι]

theorem calls_operate (name : String) (node : Node ι α) (op : Operation ι α) :
    w.calls <:+ (w.operate name n node op).2.1.calls := by
  unfold operate
  split
  · split <;> exact List.suffix_rfl
  · split <;> exact List.suffix_rfl
  · exact List.suffix_rfl
  · exact List.suffix_rfl
  · exact List.suffix_rfl
  · exact List.suffix_rfl
  · exact (recording_source _ _).size w
  · exact calls_readAt _
  · exact (recording_source _ _).range _ _ w
  · exact (recording_source _ _).byId _ w
  · exact calls_write name _
  · exact calls_write name _
  · exact List.suffix_rfl
  · split
    · exact calls_askShelf name op
    · exact calls_askCache name op
    · exact List.suffix_rfl

/-- The first step of a command only adds to the record. -/
theorem calls_perform (command : Command ι α) : w.calls <:+ (w.perform command).2.1.calls := by
  have swept : ∀ w' : Network ι α, w'.calls = w.calls → w.calls <:+ w'.sweep.calls := by
    intro w' same
    simp only [calls_sweep, same, List.suffix_refl]
  cases command with
  | addShelf name items identify => exact swept _ rfl
  | addCache name below capacity chunk =>
    rw [perform]
    split
    · exact List.suffix_rfl
    · exact List.suffix_rfl
    · exact swept _ rfl
  | addRelay name => exact swept _ rfl
  | addScript name run times failing => exact List.suffix_rfl
  | drop name => exact swept _ rfl
  | ask name op =>
    rw [perform]
    split
    · exact List.suffix_rfl
    · split
      · exact calls_operate name _ op
      · exact List.suffix_rfl

/-! ## What follows -/

/-- The calls that are made if the errand is the command of a listener, the latest first. -/
def madeBy : Moment ι α → List (String × Call ι α)
  | (w, .perform _ command) =>
    let calls := (w.perform command).2.1.calls
    calls.take (calls.length - w.calls.length)
  | _ => []

/-- The calls that the commands of listeners make, the latest first. -/
def calledByListeners (moments : List (Moment ι α)) : List (String × Call ι α) :=
  moments.reverse.flatMap madeBy

theorem calledByListeners_cons (moment : Moment ι α) (moments : List (Moment ι α)) :
    calledByListeners (moment :: moments) = calledByListeners moments ++ madeBy moment := by
  rw [calledByListeners, List.reverse_cons, List.flatMap_append, List.flatMap_singleton]
  rfl

/-- Only the commands of listeners call shelves. -/
theorem calls_advance (errand : Errand ι α) :
    (w.advance errand).2.1.calls = madeBy (w, errand) ++ w.calls := by
  cases errand with
  | announce n change => rfl
  | deliver recipient change =>
    cases recipient with
    | cache n =>
      rw [advance, deliverToCache]
      split
      · rfl
      · split <;> rfl
    | script i =>
      rw [advance, deliverToScript]
      split
      · rfl
      · dsimp only
        split
        · rfl
        · split <;> rfl
  | perform script command =>
    have grown := List.suffix_iff_eq_drop.1 (calls_perform (w := w) command)
    calc (w.perform command).2.1.calls
        = madeBy (w, .perform script command) ++ (w.perform command).2.1.calls.drop
            ((w.perform command).2.1.calls.length - w.calls.length) :=
          (List.take_append_drop _ _).symm
      _ = madeBy (w, .perform script command) ++ w.calls := by rw [← grown]
  | note entry => rfl
  | settle n =>
    rw [advance]
    exact calls_sweep.trans calls_modifyLayer
  | unpin count =>
    rw [advance]
    exact calls_sweep

/-- What is done after a listener has failed calls no shelf. -/
theorem calls_cleanUp (errands : List (Errand ι α)) : (w.cleanUp errands).calls = w.calls := by
  refine cleanUp_keeps (fun w errand cleans => ?_) errands
  have silent : madeBy (w, errand) = [] := by
    cases errand with
    | perform script command => cases cleans
    | _ => rfl
  rw [calls_advance, silent, List.nil_append]

theorem calls_drain (rounds : Nat) (agenda : List (Errand ι α)) : (drain rounds w agenda).2.calls =
    calledByListeners (itinerary rounds w agenda) ++ w.calls := by
  induction rounds generalizing w agenda with
  | zero => rfl
  | succ rounds ih =>
    cases agenda with
    | nil => rfl
    | cons errand agenda =>
      have step := calls_advance (w := w) errand
      unfold drain itinerary
      rw [calledByListeners_cons, List.append_assoc, ← step]
      split
      · rename_i w₁ more advanced
        rw [advanced]
        exact ih _
      · rename_i message w₁ more advanced
        rw [advanced]
        exact calls_cleanUp _

/-- After the first step of a command, all calls are made by listeners. -/
theorem calls_execute (command : Command ι α) : (w.execute command).2.calls =
    calledByListeners (w.course command) ++ (w.perform command).2.1.calls := by
  have same : (drain (w.effort command) (w.perform command).2.1 (w.perform command).2.2).2.calls =
      calledByListeners (w.course command) ++ (w.perform command).2.1.calls := calls_drain _ _
  rw [← same, execute]
  dsimp only
  split <;> rename_i drained <;> rw [drained]

end Network

end ReadThrough
