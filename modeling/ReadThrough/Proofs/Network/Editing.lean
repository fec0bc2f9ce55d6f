import ReadThrough.Proofs.Network.Meddling
import ReadThrough.Proofs.Shelf.Deeds
import ReadThrough.Proofs.Tower.Reading

/-!
# Editing a shelf, and announcing it

A shelf in a network is edited at once, before anything is announced.  So whoever is called
because of the edit reads the shelf as it is after it, unless a listener that was called before
has meddled with it; and if the edit is refused, nothing is announced.

* `Network.Reads w n s`: reads of node `n` are answered from the shelf `s`.
* `Network.perform_deed`: the first step of a call that edits a shelf.
* `Network.Announced` says how an agenda goes on from there.
* `Network.edits_whole_or_not` is about every shelf, every call, and whatever listeners do.
-/

namespace ReadThrough.Network

variable {ι α β : Type} [DecidableEq ι] [ToString ι]
variable {react : Reaction ι α} {w w₁ : Network ι α} {n m : NodeId} {name : String} {o : Origin ι α}
variable {s : Shelf ι α} {changes : List (Change ι)} {agenda : List (Errand ι α)}
variable {moments : List (Moment ι α)} {ending : Ending ι α}

/-- Whoever reads at node `n` gets what is on this shelf. -/
def Reads (w : Network ι α) (n : NodeId) (s : Shelf ι α) : Prop :=
  ∃ node, w.node? n = some node ∧ ∀ name,
    (w.operate name n node .items).1 = .objects s.items ∧
      ∀ q : Query ι, (w.operate name n node q.operation).1 = q.outcome (s.query q)

theorem reads_of_origin? (here : w.origin? n = some o) (calm : o.trouble = .none) :
    w.Reads n o.shelf := by
  refine ⟨_, node?_of_origin? here, fun name => ⟨rfl, fun q => ?_⟩⟩
  rw [operate_of_origin here calm]

/-! ## The first step -/

omit [DecidableEq ι] [ToString ι] in
/-- The shelf is another one at once, and nothing else is. -/
theorem edit_spec (w : Network ι α) (f : β → Outcome ι α) (e : Edit ι α β) (pinned : List NodeId) :
    ∃ w₁, w.edit n o f e pinned =
        (.ofExcept f e.1, w₁, e.2.2.map (.announce n) ++ [.unpin pinned.length]) ∧
      w₁.nodes = (w.setBody n (.origin { o with shelf := e.2.1 })).nodes ∧ w₁.names = w.names :=
  ⟨_, rfl, rfl, rfl⟩

/-- Writing to a stack is an edit of the shelf at the bottom, which is recorded like a read. -/
theorem write_spec {path : List NodeId} (bottom : w.bottom? w.depth n = some (path, m, o))
    (calm : o.trouble = .none) (name : String) (u : Update α) :
    ∃ w₁, w.write n name u = (.ofExcept (fun _ => .done) (o.shelf.write u).1, w₁,
        (o.shelf.write u).2.2.map (.announce m) ++ [.unpin path.length]) ∧
      w₁.nodes = (w.setBody m (.origin { o with shelf := (o.shelf.write u).2.1 })).nodes ∧
      w₁.names = w.names := by
  have arrived : w.write n name u =
      (w.record o.name u.call).edit m o (fun _ => .done) (o.shelf.write u) path := by
    rw [write_eq, bottom]
    dsimp only
    rw [writeShelf, calm]
    rfl
  rw [arrived]
  exact edit_spec (w.record o.name u.call) _ _ path

/-- A call edits the shelf, and leaves to be announced what the edit announces. -/
theorem perform_deed (named : w.nodeNamed? name = some n) (here : w.origin? n = some o)
    (calm : o.trouble = .none) (d : Shelf.Deed ι α) :
    ∃ w₁, w.perform (.ask name d.operation) = ((d.on o.shelf).1, w₁,
        (d.on o.shelf).2.2.map (.announce n) ++ [.unpin 1]) ∧
      w₁.nodes = (w.setBody n (.origin { o with shelf := (d.on o.shelf).2.1 })).nodes ∧
      w₁.names = w.names := by
  have asked : w.perform (.ask name d.operation) =
      w.operate name n ⟨.origin o, w.registry n⟩ d.operation := by
    rw [perform, named]
    dsimp only
    rw [node?_of_origin? here]
  have bottom : w.bottom? w.depth n = some ([n], n, o) := by
    rw [depth, bottom?, node?_of_origin? here]
  rw [asked]
  cases d with
  | push v => exact edit_spec w .number _ [n]
  | insert position v => exact edit_spec w (fun _ => .done) _ [n]
  | removeAt position => exact edit_spec w .object _ [n]
  | removeId id => exact edit_spec w .object? _ [n]
  | replaceAll items => exact edit_spec w (fun _ => .done) _ [n]
  | updateAt v position => exact write_spec bottom calm name (.place v position)
  | update v => exact write_spec bottom calm name (.renew v)

/-! ## What follows -/

/-- The changes of node `n` are announced in turn from `w₁` on, each once and in order unless a
listener fails.  Whoever is called because of them reads the shelf `s` at the node, unless a
listener has meddled with it before. -/
structure Announced (react : Reaction ι α) (n : NodeId) (s : Shelf ι α)
    (changes : List (Change ι)) (w₁ : Network ι α) (moments : List (Moment ι α))
    (ending : Ending ι α) : Prop where
  turns : ∃ segments rest between, moments = segments.flatten ++ rest ∧
    InTurn react w₁ (changes.map (.announce n)) segments between ∧
    callsOf segments = (changes.map (.announce n)).take segments.length ∧
    (between.1 = none → segments.length = changes.length)
  observed : ∀ before w₂ errand after, moments = before ++ (w₂, errand) :: after →
    w₂.Reads n s ∨ Meddled react Errand.isListeners (·.origin? n) before
  kept : ending.2.Reads n s ∨ Meddled react Errand.isListeners (·.origin? n) moments

theorem Plays.announced (here : w₁.origin? n = some o) (calm : o.trouble = .none)
    (plays : Plays react w₁ (changes.map (.announce n) ++ agenda) moments ending) :
    Announced react n o.shelf changes w₁ moments ending := by
  obtain ⟨observed, kept⟩ :=
    plays.undisturbed (f := fun w => w.origin? n) fun _ _ => origin?_advanceBy
  obtain ⟨segments, rest, between, split, turns, -⟩ := plays.inTurn
  obtain ⟨made, all, -⟩ := turns.callsOf_eq
  refine ⟨⟨segments, rest, between, split, turns, made, fun finished => ?_⟩,
    fun before w₂ errand after at_errand => ?_, ?_⟩
  · rw [all finished, List.length_map]
  · exact (observed before w₂ errand after at_errand).imp_left fun same =>
      reads_of_origin? (same.trans here) calm
  · exact kept.imp_left fun same => reads_of_origin? (same.trans here) calm

/-- A call that edits a shelf is refused, and then nothing is changed or announced; or it is
carried out, in one step, and then the changes that were made are announced.  If it gives a
fault, or nothing, it was refused.  What is done after a listener has failed takes nothing of
this back. -/
theorem edits_whole_or_not (w : Network ι α) {name : String} {n : NodeId} {o : Origin ι α}
    (named : w.nodeNamed? name = some n) (here : w.origin? n = some o) (calm : o.trouble = .none)
    (d : Shelf.Deed ι α) :
    let result := d.on o.shelf
    (d.Refused o.shelf result.1 ∧ result.2 = (o.shelf, []) ∨
      d.Carried o.shelf result.1 result.2.1 result.2.2) ∧
    (((∃ fault, result.1 = .failed fault) ∨ result.1 = .object? none) →
      result.2 = (o.shelf, [])) ∧
    ∃ w₁, w.perform (.ask name d.operation) =
        (result.1, w₁, result.2.2.map (.announce n) ++ [.unpin 1]) ∧
      w₁.Reads n result.2.1 ∧ (∀ m, w₁.registry m = w.registry m) ∧
      ∀ (react : Reaction ι α) agenda moments ending,
        Plays react w₁ (result.2.2.map (.announce n) ++ .unpin 1 :: agenda) moments ending →
        Announced react n result.2.1 result.2.2 w₁ moments ending ∧
        ∀ errands, (ending.2.cleanUp errands).origin? n = ending.2.origin? n := by
  obtain ⟨w₁, performed, nodes, -⟩ := perform_deed named here calm d
  have edited : w₁.origin? n = some { o with shelf := (d.on o.shelf).2.1 } := by
    rw [origin?_congr nodes, origin?_setOrigin here, if_pos rfl]
  have registry : ∀ m, w₁.registry m = w.registry m := fun m =>
    (registry_congr nodes).trans registry_setBody
  refine ⟨Shelf.Deed.refused_or_carried o.shelf d, Shelf.Deed.eq_of_failed, w₁, performed,
    reads_of_origin? edited calm, registry, fun react agenda moments ending plays => ?_⟩
  exact ⟨plays.announced edited calm, fun errands => origin?_cleanUp errands⟩

/-- One object that has no identity, and two that share theirs; a listener reads all of them
whenever it is called. -/
def mixed : Network Nat Nat :=
  [.addShelf "shelf" [0, 7, 7] (fun v => if v = 0 then none else some v),
    .addScript "reader" [.ask "shelf" .items] 9 false,
    .ask "shelf" (.subscribe "reader")].foldl (fun w c => (w.execute c).2) empty

/-- Each object list that a listener read, the latest first. -/
def readings (w : Network Nat Nat) : List (List Nat) :=
  w.log.filterMap fun
    | .performed _ _ (.objects values) => some values
    | _ => none

/-- An object with the identity 5 has no place to go to, since there is none to replace; the first
object of all is replaced although it has no identity, and the listener reads the new list at each
of the two announcements. -/
theorem edits_whole_or_not_mixed :
    let s : Shelf Nat Nat := ⟨[0, 7, 7], fun v => if v = 0 then none else some v⟩
    ((Shelf.Deed.update 5).on s).2 = (s, []) ∧
    ∃ w₁ moments, ∃ ending : Ending Nat Nat,
      Plays deliverToScript w₁
        ([.objectChanged 8, .rangeChanged 0 0].map (.announce 0) ++ [.unpin 1]) moments ending ∧
      Announced deliverToScript 0 (s.withItems [8, 7, 7]) [.objectChanged 8, .rangeChanged 0 0]
        w₁ moments ending ∧
      ending.1 = none ∧ readings ending.2 = [[8, 7, 7], [8, 7, 7]] := by
  intro s
  have named : mixed.nodeNamed? "shelf" = some 0 := by decide +kernel
  have here : mixed.origin? 0 = some ⟨"shelf", s, .none⟩ := rfl
  obtain ⟨-, unchanged, -⟩ := edits_whole_or_not mixed named here rfl (.update 5)
  obtain ⟨-, -, w₁, performed, -, -, announces⟩ :=
    edits_whole_or_not mixed named here rfl (.updateAt 8 0)
  have edited : (mixed.perform (.ask "shelf" (.updateAt 8 0))).2.1 = w₁ :=
    congrArg (fun performed => performed.2.1) performed
  have checked : ((play? deliverToScript 20 (mixed.perform (.ask "shelf" (.updateAt 8 0))).2.1
      ([.objectChanged 8, .rangeChanged 0 0].map (.announce 0) ++ [.unpin 1])).any fun played =>
        played.2.1 == none && readings played.2.2 == [[8, 7, 7], [8, 7, 7]]) = true := by
    decide +kernel
  simp only [Option.any_eq_true, Bool.and_eq_true, beq_iff_eq] at checked
  obtain ⟨⟨moments, ending⟩, played, finished, read⟩ := checked
  rw [edited] at played
  have plays := plays_of_play? played
  exact ⟨unchanged (Or.inl ⟨_, rfl⟩), w₁, moments, ending, plays,
    (announces deliverToScript [] moments ending plays).1, finished, read⟩

end ReadThrough.Network
