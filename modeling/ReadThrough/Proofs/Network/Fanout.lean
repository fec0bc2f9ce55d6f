import ReadThrough.Proofs.Network.Subscriptions

/-!
# Fan-out

An announcement calls the subscribers that the node has when it starts: each registration once,
the latest first.  All that a call brings about, further announcements of the same node
included, is done before the next call, and each call finds the network as the one before left
it.  If a listener fails, the older registrations are not called any more.

This does not depend on what listeners do.  So an agenda is carried out here with any reaction
of listeners in place of `Network.deliverToScript`: it may change the network in any way, leave
any errands, and fail.

* `Network.Plays react w agenda moments ending`: the agenda leads through these moments to this
  ending, at which nothing of it is left or a listener has failed.
* `Plays.split`: an agenda of two parts is carried out part by part.
* `Network.InTurn` are calls that are carried out one after the other.
* `Network.fan_out`: this is what follows every announcement.
* `Plays.drain` and `Network.play?` tie this to the reactions of scripts, and compute it.
-/

namespace ReadThrough

variable {ι α : Type}

namespace Network

/-- What a listener does when it is called, instead of what its script says. -/
abbrev Reaction (ι α : Type) : Type := Network ι α → Nat → Change ι → Advanced ι α

/-- How the carrying out of an agenda ends: with the message of a listener that failed or
without, and with this network. -/
abbrev Ending (ι α : Type) : Type := Option String × Network ι α

/-- The calls that begin these segments of moments. -/
def callsOf (segments : List (List (Moment ι α))) : List (Errand ι α) :=
  segments.filterMap fun segment => segment.head?.map (·.2)

variable [DecidableEq ι] [ToString ι]

/-- Take a step of an errand, with listeners that react in this way. -/
def advanceBy (react : Reaction ι α) (w : Network ι α) : Errand ι α → Advanced ι α
  | .deliver (.script i) change => react w i change
  | errand => w.advance errand

theorem advanceBy_deliverToScript (w : Network ι α) (errand : Errand ι α) :
    advanceBy deliverToScript w errand = w.advance errand := by
  cases errand with
  | deliver recipient change => cases recipient <;> rfl
  | _ => rfl

/-- The agenda leads through these moments to this ending. -/
inductive Plays (react : Reaction ι α) :
    Network ι α → List (Errand ι α) → List (Moment ι α) → Ending ι α → Prop
  | done {w : Network ι α} : Plays react w [] [] (none, w)
  | step {w w₁ : Network ι α} {errand : Errand ι α} {more agenda : List (Errand ι α)}
    {moments : List (Moment ι α)} {ending : Ending ι α} :
    advanceBy react w errand = (none, w₁, more) →
    Plays react w₁ (more ++ agenda) moments ending →
    Plays react w (errand :: agenda) ((w, errand) :: moments) ending
  | fail {w w₁ : Network ι α} {errand : Errand ι α} {more agenda : List (Errand ι α)}
    {message : String} : advanceBy react w errand = (some message, w₁, more) →
    Plays react w (errand :: agenda) [(w, errand)] (some message, w₁)

/-- The calls are carried out one after the other, each in the network that the one before left:
up to the last one, or to one at which a listener fails.  There is a segment of moments for each
call that is made; it holds all that the call leads to.  After a failure nothing else is done. -/
inductive InTurn (react : Reaction ι α) :
    Network ι α → List (Errand ι α) → List (List (Moment ι α)) → Ending ι α → Prop
  | done {w : Network ι α} : InTurn react w [] [] (none, w)
  | next {w w₁ : Network ι α} {call : Errand ι α} {calls : List (Errand ι α)}
    {segment : List (Moment ι α)} {segments : List (List (Moment ι α))} {ending : Ending ι α} :
    Plays react w [call] segment (none, w₁) → InTurn react w₁ calls segments ending →
    InTurn react w (call :: calls) (segment :: segments) ending
  | broken {w w₁ : Network ι α} {call : Errand ι α} {calls : List (Errand ι α)}
    {segment : List (Moment ι α)} {message : String} :
    Plays react w [call] segment (some message, w₁) →
    InTurn react w (call :: calls) [segment] (some message, w₁)

variable {react : Reaction ι α} {w w₁ w' : Network ι α} {errand : Errand ι α}
variable {agenda agenda' calls more : List (Errand ι α)} {moments moments' : List (Moment ι α)}
variable {ending : Ending ι α} {m : NodeId} {change : Change ι}

/-! ## One part after the other -/

/-- An agenda of two parts is carried out part by part, unless the first one fails. -/
theorem Plays.split (plays : Plays react w (agenda ++ agenda') moments ending) :
    (∃ first rest w₁, moments = first ++ rest ∧ Plays react w agenda first (none, w₁) ∧
      Plays react w₁ agenda' rest ending) ∨
    (ending.1.isSome ∧ Plays react w agenda moments ending) := by
  generalize whole : agenda ++ agenda' = both at plays
  induction plays generalizing agenda with
  | @done w =>
    obtain ⟨rfl, rfl⟩ := List.append_eq_nil_iff.1 whole
    exact Or.inl ⟨[], [], w, rfl, .done, .done⟩
  | @step w w₁ errand more both moments ending advanced played ih =>
    cases agenda with
    | nil =>
      cases whole
      exact Or.inl ⟨[], _, w, rfl, .done, .step advanced played⟩
    | cons first agenda =>
      cases whole
      rcases ih (List.append_assoc more agenda agenda') with
        ⟨segment, rest, w₂, rfl, now, later⟩ | ⟨failed, now⟩
      · exact Or.inl ⟨_ :: segment, rest, w₂, rfl, .step advanced now, later⟩
      · exact Or.inr ⟨failed, .step advanced now⟩
  | @fail w w₁ errand more both message advanced =>
    cases agenda with
    | nil =>
      cases whole
      exact Or.inl ⟨[], _, w, rfl, .done, .fail advanced⟩
    | cons first agenda =>
      cases whole
      exact Or.inr ⟨rfl, .fail advanced⟩

/-- Calls at the front of an agenda are carried out in turn, and then the rest of it, unless one
of them fails. -/
theorem Plays.inTurn (plays : Plays react w (calls ++ agenda) moments ending) :
    ∃ segments rest between, moments = segments.flatten ++ rest ∧
      InTurn react w calls segments between ∧
      if between.1.isSome then rest = [] ∧ ending = between
      else Plays react between.2 agenda rest ending := by
  induction calls generalizing w moments with
  | nil => exact ⟨[], moments, (none, w), rfl, .done, plays⟩
  | cons call calls ih =>
    have whole : Plays react w ([call] ++ (calls ++ agenda)) moments ending := plays
    rcases whole.split with ⟨segment, rest, w₁, rfl, now, later⟩ | ⟨failed, now⟩
    · obtain ⟨segments, rest, between, rfl, turns, after⟩ := ih later
      refine ⟨segment :: segments, rest, between, ?_, .next now turns, after⟩
      rw [List.flatten_cons, List.append_assoc]
    · obtain ⟨_ | message, w₁⟩ := ending
      · cases failed
      · exact ⟨[moments], [], _, by simp, .broken now, rfl, rfl⟩

/-- Each moment is the first one of what is left of the agenda. -/
theorem Plays.suffix (plays : Plays react w agenda moments ending)
    {before after : List (Moment ι α)} (at_errand : moments = before ++ (w₁, errand) :: after) :
    ∃ agenda', Plays react w₁ (errand :: agenda') ((w₁, errand) :: after) ending := by
  induction plays generalizing before with
  | done => cases before <;> cases at_errand
  | @step w w' errand' more agenda moments ending advanced rest ih =>
    cases before with
    | nil =>
      cases at_errand
      exact ⟨agenda, .step advanced rest⟩
    | cons moment before =>
      rw [List.cons_append, List.cons.injEq] at at_errand
      exact ih at_errand.2
  | @fail w w' errand' more agenda message advanced =>
    cases before with
    | nil =>
      cases at_errand
      exact ⟨agenda, .fail advanced⟩
    | cons moment before =>
      rw [List.cons_append, List.cons.injEq] at at_errand
      cases before <;> cases at_errand.2

/-! ## Calls in turn -/

/-- A call is the first moment of its segment. -/
theorem Plays.head?_eq (plays : Plays react w [errand] moments ending) :
    moments.head? = some (w, errand) := by
  cases plays <;> rfl

/-- Calls are made in order, each once; all of them unless a listener fails. -/
theorem InTurn.callsOf_eq {segments : List (List (Moment ι α))}
    (turns : InTurn react w calls segments ending) :
    callsOf segments = calls.take segments.length ∧
      (ending.1 = none → segments.length = calls.length) ∧
      (ending.1 ≠ none → 0 < segments.length ∧ segments.length ≤ calls.length) := by
  induction turns with
  | done => exact ⟨rfl, fun _ => rfl, fun failed => absurd rfl failed⟩
  | next plays _ ih =>
    obtain ⟨made, all, some⟩ := ih
    refine ⟨?_, fun finished => congrArg (· + 1) (all finished), fun failed =>
      ⟨Nat.succ_pos _, Nat.succ_le_succ (some failed).2⟩⟩
    rw [List.length_cons, List.take_succ_cons, ← made, callsOf,
      List.filterMap_cons_some (by rw [plays.head?_eq]; rfl)]
    rfl
  | broken plays =>
    refine ⟨?_, fun finished => (by cases finished), fun _ =>
      ⟨Nat.one_pos, Nat.succ_le_succ (Nat.zero_le _)⟩⟩
    rw [List.length_singleton, List.take_succ_cons, List.take_zero, callsOf,
      List.filterMap_cons_some (by rw [plays.head?_eq]; rfl)]
    rfl

/-! ## What scripts do -/

/-- With rounds enough, `drain` goes through these moments.  After a failure it only does what
has to be done nevertheless. -/
theorem Plays.drain (plays : Plays deliverToScript w agenda moments ending) {rounds : Nat}
    (enough : moments.length ≤ rounds) :
    itinerary rounds w agenda = moments ∧ ∃ errands, (ending.1 = none → errands = []) ∧
      drain rounds w agenda = (ending.1, ending.2.cleanUp errands) := by
  induction plays generalizing rounds with
  | done => cases rounds <;> exact ⟨rfl, [], fun _ => rfl, rfl⟩
  | @step w w₁ errand more agenda moments ending advanced _ ih =>
    rw [advanceBy_deliverToScript] at advanced
    obtain ⟨rounds, rfl⟩ : ∃ r, rounds = r + 1 :=
      ⟨rounds - 1, by rw [List.length_cons] at enough; omega⟩
    obtain ⟨passed, errands, drained⟩ := ih (Nat.le_of_succ_le_succ enough)
    simp only [Network.drain, itinerary, advanced]
    exact ⟨congrArg _ passed, errands, drained⟩
  | @fail w w₁ errand more agenda message advanced =>
    rw [advanceBy_deliverToScript] at advanced
    obtain ⟨rounds, rfl⟩ : ∃ r, rounds = r + 1 :=
      ⟨rounds - 1, by rw [List.length_singleton] at enough; omega⟩
    refine ⟨?_, more ++ agenda, fun failed => (by cases failed), ?_⟩
    · rw [itinerary, advanced]
    · rw [Network.drain, advanced]

/-- What a listener makes of the registrations of listeners stays until another one is called or
a command of one is carried out. -/
theorem listeners_advanceBy (silent : errand.performs = false)
    (other : ∀ i change, errand ≠ .deliver (.script i) change) :
    (advanceBy react w errand).2.1.listeners m = w.listeners m := by
  have same : advanceBy react w errand = w.advance errand := by
    cases errand with
    | deliver recipient change =>
      cases recipient with
      | cache n => rfl
      | script i => exact absurd rfl (other i change)
    | _ => rfl
  rw [same]
  exact listeners_of_silent silent

/-- After an announcement its calls are carried out in turn, and then what else is on the agenda. -/
theorem Plays.after_announce (plays : Plays react w (.announce m change :: agenda) moments ending) :
    ∃ segments rest between, moments = (w, .announce m change) :: (segments.flatten ++ rest) ∧
      InTurn react w ((w.registry m).members.reverse.map (.deliver · change)) segments between ∧
      if between.1.isSome then rest = [] ∧ ending = between
      else Plays react between.2 agenda rest ending := by
  cases plays with
  | step advanced plays =>
    cases advanced
    obtain ⟨segments, rest, between, rfl, turns, afterwards⟩ := plays.inTurn
    exact ⟨segments, rest, between, rfl, turns, afterwards⟩
  | fail advanced => cases advanced

/-- How announcements reach those who are registered, whatever listeners do: they are called in
turn, as many of them as there are until one fails, also where one announcement is made in the
middle of another.  Scripts are such listeners, and what is done after one of them has failed
leaves listeners registered as they are.  All that listeners make of the registrations is kept,
and taking a registration back undoes the latest one of the subscriber. -/
theorem fan_out :
    (∀ (react : Reaction ι α) w m change agenda moments ending,
      Plays react w (.announce m change :: agenda) moments ending →
      let calls := (w.registry m).members.reverse.map fun s => (.deliver s change : Errand ι α)
      ∃ segments rest between, moments = (w, .announce m change) :: (segments.flatten ++ rest) ∧
        InTurn react w calls segments between ∧
        callsOf segments = calls.take segments.length ∧
        if between.1.isSome then
          0 < segments.length ∧ segments.length ≤ calls.length ∧ rest = [] ∧ ending = between
        else segments.length = calls.length ∧ Plays react between.2 agenda rest ending) ∧
    (∀ (react : Reaction ι α) w agenda moments ending, Plays react w agenda moments ending →
      ∀ before w₁ errand after, moments = before ++ (w₁, errand) :: after →
      ∃ agenda', Plays react w₁ (errand :: agenda') ((w₁, errand) :: after) ending) ∧
    (∀ (w : Network ι α) agenda moments ending rounds,
      Plays deliverToScript w agenda moments ending → moments.length ≤ rounds →
      itinerary rounds w agenda = moments ∧ (drain rounds w agenda).1 = ending.1 ∧
        (ending.1 = none → (drain rounds w agenda).2 = ending.2) ∧
        ∀ m, (drain rounds w agenda).2.listeners m = ending.2.listeners m) ∧
    (∀ (react : Reaction ι α) w errand m, errand.performs = false →
      (∀ i change, errand ≠ .deliver (.script i) change) →
      (advanceBy react w errand).2.1.listeners m = w.listeners m) ∧
    (∀ (w : Network ι α) rounds agenda m, w.Arises → (drain rounds w agenda).2.listeners m =
      (itinerary rounds w agenda).foldl (relisted m) (w.listeners m)) ∧
    (∀ (r : Registry Subscriber) s, s ∈ r.members → ∃ older newer, s ∉ newer ∧
      r.members = older ++ s :: newer ∧ r.remove s = (true, ⟨older ++ newer⟩)) ∧
    (∀ (r : Registry Subscriber) s, s ∉ r.members → r.remove s = (false, r)) ∧
    ∀ (r : Registry Subscriber) s,
      (r.add s).members = r.members ++ [s] ∧ (r.add s).remove s = (true, r) := by
  refine ⟨fun react w m change agenda moments ending plays => ?_,
    fun react w agenda moments ending plays before w₁ errand after at_errand =>
      plays.suffix at_errand,
    fun w agenda moments ending rounds plays enough => ?_,
    fun react w errand m silent other => listeners_advanceBy silent other,
    fun w rounds agenda m arises => arises.linked.listeners_drain rounds agenda,
    fun r s mem => Registry.exists_remove mem, fun r s absent => Registry.remove_absent absent,
    fun r s => ⟨rfl, Registry.remove_add r s⟩⟩
  · obtain ⟨segments, rest, between, split, turns, afterwards⟩ := plays.after_announce
    obtain ⟨made, all, some⟩ := turns.callsOf_eq
    refine ⟨segments, rest, between, split, turns, made, ?_⟩
    split
    · rename_i failed
      rw [if_pos failed] at afterwards
      have broken : between.1 ≠ none := Option.isSome_iff_ne_none.1 failed
      exact ⟨(some broken).1, (some broken).2, afterwards⟩
    · rename_i finished
      rw [if_neg finished] at afterwards
      exact ⟨all (Option.not_isSome_iff_eq_none.1 finished), afterwards⟩
  · obtain ⟨passed, errands, clean, drained⟩ := plays.drain enough
    rw [drained]
    refine ⟨passed, rfl, fun finished => ?_, fun m => listeners_cleanUp errands⟩
    rw [clean finished]
    rfl

/-- The moments of an agenda and its ending, if it takes at most `rounds` steps. -/
def play? (react : Reaction ι α) :
    Nat → Network ι α → List (Errand ι α) → Option (List (Moment ι α) × Ending ι α)
  | _, w, [] => some ([], none, w)
  | 0, _, _ :: _ => none
  | rounds + 1, w, errand :: agenda =>
    match advanceBy react w errand with
    | (none, w₁, more) => (play? react rounds w₁ (more ++ agenda)).map fun played =>
      ((w, errand) :: played.1, played.2)
    | (some message, w₁, _) => some ([(w, errand)], some message, w₁)

theorem plays_of_play? {rounds : Nat}
    (played : play? react rounds w agenda = some (moments, ending)) :
    Plays react w agenda moments ending := by
  induction rounds generalizing w agenda moments with
  | zero =>
    cases agenda with
    | nil =>
      cases played
      exact .done
    | cons errand agenda => cases played
  | succ rounds ih =>
    cases agenda with
    | nil =>
      cases played
      exact .done
    | cons errand agenda =>
      rw [play?] at played
      split at played
      · rename_i advanced
        obtain ⟨⟨moments, ending⟩, rest, eq⟩ := Option.map_eq_some_iff.1 played
        cases eq
        exact .step advanced (ih rest)
      · rename_i advanced
        cases played
        exact .fail advanced

/-- Listeners of a relay: while one of them is called, it registers another one once more, removes
one that is still to be called, and announces something itself. -/
def desk (failing : Bool) : Network Nat Nat :=
  [.addRelay "desk", .addScript "old" [] 0 false, .addScript "leaving" [] 0 failing,
    .addScript "busy" [.ask "desk" (.subscribe "old"), .ask "desk" (.unsubscribe "leaving"),
      .ask "desk" (.announce (.objectAdded 7))] 1 false,
    .ask "desk" (.subscribe "old"), .ask "desk" (.subscribe "leaving"),
    .ask "desk" (.subscribe "old"), .ask "desk" (.subscribe "busy")].foldl
    (fun w c => (w.execute c).2) empty

/-- A call of one of these listeners. -/
def calling (i : Nat) : Errand Nat Nat := .deliver (.script i) .contentsChanged

/-- The one that was removed meanwhile is called, and if it fails, no other one after it. -/
theorem fan_out_desk :
    (∃ segments, ∃ ending : Ending Nat Nat, Plays deliverToScript (desk false)
        [.announce 0 .contentsChanged]
        ((desk false, .announce 0 .contentsChanged) :: segments.flatten) ending ∧
      callsOf segments = [calling 2, calling 0, calling 1, calling 0] ∧ ending.1 = none ∧
      (ending.2.registry 0).members = [.script 0, .script 0, .script 2, .script 0]) ∧
    ∃ segments, ∃ ending : Ending Nat Nat, Plays deliverToScript (desk true)
        [.announce 0 .contentsChanged]
        ((desk true, .announce 0 .contentsChanged) :: segments.flatten) ending ∧
      callsOf segments = [calling 2, calling 0, calling 1, calling 0].take segments.length ∧
      InTurn deliverToScript (desk true) [calling 2, calling 0, calling 1, calling 0] segments
        ending ∧
      ending.1 = some "listener leaving" ∧
      (ending.2.registry 0).members = [.script 0, .script 0, .script 2, .script 0] := by
  have played : ∀ failing, ∃ moments, ∃ ending : Ending Nat Nat,
      Plays deliverToScript (desk failing) [.announce 0 .contentsChanged] moments ending ∧
      ending.1 = (if failing then some "listener leaving" else none) ∧
      (ending.2.registry 0).members = [.script 0, .script 0, .script 2, .script 0] := by
    intro failing
    have checked : ((play? deliverToScript 17 (desk failing) [.announce 0 .contentsChanged]).any
        fun played => played.2.1 == (if failing then some "listener leaving" else none) &&
          decide ((played.2.2.registry 0).members =
            [.script 0, .script 0, .script 2, .script 0])) = true := by
      cases failing <;> decide +kernel
    simp only [Option.any_eq_true, Bool.and_eq_true, beq_iff_eq, decide_eq_true_eq] at checked
    obtain ⟨⟨moments, ending⟩, played, failed, kept⟩ := checked
    exact ⟨moments, ending, plays_of_play? played, failed, kept⟩
  have registered : ∀ failing, ((desk failing).registry 0).members =
      [.script 0, .script 1, .script 0, .script 2] := by
    intro failing
    cases failing <;> decide +kernel
  constructor
  · obtain ⟨moments, ending, plays, finished, kept⟩ := played false
    obtain ⟨segments, rest, between, rfl, -, made, afterwards⟩ := fan_out.1 _ _ _ _ _ _ _ plays
    rw [registered] at made afterwards
    split at afterwards
    · rename_i failed
      obtain ⟨-, -, -, rfl⟩ := afterwards
      rw [finished] at failed
      cases failed
    · obtain ⟨all, nothing⟩ := afterwards
      rw [all] at made
      cases nothing
      rw [List.append_nil] at plays
      exact ⟨segments, _, plays, made, finished, kept⟩
  · obtain ⟨moments, ending, plays, failed, kept⟩ := played true
    obtain ⟨segments, rest, between, rfl, turns, made, afterwards⟩ :=
      fan_out.1 _ _ _ _ _ _ _ plays
    rw [registered] at made turns afterwards
    split at afterwards
    · obtain ⟨-, -, rfl, rfl⟩ := afterwards
      rw [List.append_nil] at plays
      exact ⟨segments, _, plays, made, turns, failed, kept⟩
    · obtain ⟨-, nothing⟩ := afterwards
      cases nothing
      cases failed

end Network

end ReadThrough
