import ReadThrough.Proofs.Cache.Handling
import ReadThrough.Proofs.Network.Meddling

/-!
# Handling a change, and relaying it

A cache that is told a change handles it in one step.  Only then it announces the same change,
once, to those who listen to the cache.  So all of them find the cache as it is when it has
handled the change, unless one that was called before has meddled with it; and nothing of it is
taken back if one of them fails.

* `Network.Relayed` says how an agenda goes on from the announcement of the cache.
* `Network.relays_once_handled` is about every state of a cache, every network around it, and
  whatever listeners do.
-/

namespace ReadThrough.Network

variable {ι α : Type} [DecidableEq ι] [ToString ι]
variable {react : Reaction ι α} {w w₁ : Network ι α} {n : NodeId} {l : Layer ι α}
variable {change : Change ι} {agenda : List (Errand ι α)} {moments : List (Moment ι α)}
variable {ending : Ending ι α}

/-- The calls that a change of node `n` leads to: each registration once, the latest first. -/
def callsAt (w : Network ι α) (n : NodeId) (change : Change ι) : List (Errand ι α) :=
  (w.registry n).members.reverse.map (.deliver · change)

/-- The calls of those who listen to a cache are carried out in turn from `w₁` on, up to one that
fails, and then what else is on the agenda.  Each of them finds the cache like `c`, unless
something meddled with it after that. -/
structure Relayed (react : Reaction ι α) (n : NodeId) (c : Cache ι α)
    (calls agenda : List (Errand ι α)) (w₁ : Network ι α) (segments : List (List (Moment ι α)))
    (rest : List (Moment ι α)) (between ending : Ending ι α) : Prop where
  turns : InTurn react w₁ calls segments between
  made : callsOf segments = calls.take segments.length
  finished : between.1 = none → segments.length = calls.length ∧
    Plays react between.2 (.settle n :: agenda) rest ending
  failed : between.1 ≠ none → 0 < segments.length ∧ segments.length ≤ calls.length ∧
    rest = [] ∧ ending = between
  observed : ∀ before w₂ errand after,
    segments.flatten ++ rest = before ++ (w₂, errand) :: after →
    w₂.cache? n = some c ∨ Meddled react (Errand.touches n) (·.cache? n) before
  kept : ending.2.cache? n = some c ∨
    Meddled react (Errand.touches n) (·.cache? n) (segments.flatten ++ rest)

/-- A cache that is not gone handles a change at once, and is to announce it next. -/
theorem advance_deliver (here : w.layer? n = some l) (present : l.isGone = false)
    (change : Change ι) : ∃ w₁,
      w.advance (.deliver (.cache n) change) = (none, w₁, [.announce n change, .settle n]) ∧
      w₁.cache? n = some (l.cache.apply change) ∧ ∀ m, w₁.registry m = w.registry m := by
  refine ⟨w.setBody n (.layer { l with cache := l.cache.apply change, busy := l.busy + 1 }),
    ?_, ?_, fun m => registry_setBody⟩
  · rw [advance, deliverToCache, here]
    dsimp only
    rw [present]
    rfl
  · rw [cache?, layer?_setBody _ (lt_size_of_layer? here), if_pos rfl]
    rfl

/-- After an announcement of a cache, its calls are carried out in turn. -/
theorem Plays.relayed {c : Cache ι α} (here : w₁.cache? n = some c)
    (plays : Plays react w₁ (.announce n change :: .settle n :: agenda) moments ending) :
    ∃ segments rest between, moments = (w₁, .announce n change) :: (segments.flatten ++ rest) ∧
      Relayed react n c (w₁.callsAt n change) agenda w₁ segments rest between ending := by
  cases plays with
  | fail advanced => cases advanced
  | step advanced plays =>
    cases advanced
    obtain ⟨observed, kept⟩ :=
      plays.undisturbed (f := fun w => w.cache? n) fun _ _ => cache?_advanceBy
    obtain ⟨segments, rest, between, rfl, turns, afterwards⟩ := plays.inTurn
    obtain ⟨made, all, some⟩ := turns.callsOf_eq
    rw [here] at observed kept
    refine ⟨segments, rest, between, rfl, turns, made, fun finished => ⟨all finished, ?_⟩,
      fun failed => ?_, observed, kept⟩
    · rwa [if_neg (Option.not_isSome_iff_eq_none.2 finished)] at afterwards
    · rw [if_pos (Option.isSome_iff_ne_none.2 failed)] at afterwards
      exact ⟨(some failed).1, (some failed).2, afterwards⟩

/-- What a change does to a cache, and what becomes of the change.  However the cache was used
before, it handles the change, in a network in one step.  Only then the change is announced, once
and as it is, to those who listen to the cache.  What is done after a listener has failed, if
listeners do what their scripts say, takes nothing of this back. -/
theorem relays_once_handled {sizing : Sizing} {c : Cache ι α} (reachable : c.Reachable sizing)
    (change : Change ι) :
    c.Handled change (c.apply change) ∧
    (∀ (react : Reaction ι α) w n l agenda moments ending, w.layer? n = some l → l.cache = c →
      l.isGone = false → Plays react w (.deliver (.cache n) change :: agenda) moments ending →
      ∃ w₁ segments rest between,
        w.advance (.deliver (.cache n) change) =
          (none, w₁, [.announce n change, .settle n]) ∧
        w₁.cache? n = some (c.apply change) ∧
        moments = (w, .deliver (.cache n) change) :: (w₁, .announce n change) ::
          (segments.flatten ++ rest) ∧
        Relayed react n (c.apply change) (w.callsAt n change) agenda w₁ segments rest between
          ending) ∧
    ∀ (w : Network ι α) agenda moments ending rounds,
      Plays deliverToScript w agenda moments ending → moments.length ≤ rounds →
      itinerary rounds w agenda = moments ∧ (drain rounds w agenda).1 = ending.1 ∧
        ∀ n, (drain rounds w agenda).2.cache? n = ending.2.cache? n := by
  refine ⟨reachable.handled change, ?_, ?_⟩
  · rintro react w n l agenda moments ending here rfl present plays
    obtain ⟨w₁, advanced, handled, registry⟩ := advance_deliver here present change
    cases plays with
    | fail failed =>
      rw [advanceBy_eq rfl, advanced] at failed
      cases failed
    | step advanced' plays =>
      rw [advanceBy_eq rfl, advanced] at advanced'
      cases advanced'
      obtain ⟨segments, rest, between, rfl, relayed⟩ := plays.relayed handled
      rw [callsAt, registry] at relayed
      exact ⟨w₁, segments, rest, between, advanced, handled, rfl, relayed⟩
  · intro w agenda moments ending rounds plays enough
    obtain ⟨passed, errands, -, drained⟩ := plays.drain enough
    rw [drained]
    exact ⟨passed, rfl, fun n => cache?_cleanUp errands⟩

/-- Objects that were read by their positions. -/
def shown : Cache Nat Nat :=
  (Cache.query Shelf.source (.range 0 3) (.empty .standard)
    (⟨[4, 5, 6], some⟩ : Shelf Nat Nat)).2.1

/-- The cache over its shelf, with three listeners: the one that is called first only listens, the
next one reads an object again, and the last one fails. -/
def attended : Network Nat Nat :=
  ([.addShelf "shelf" [4, 5, 6] some, .addCache "cache" "shelf" 1000 50,
    .addScript "failing" [] 0 true, .addScript "reader" [.ask "cache" (.get 0)] 1 false,
    .addScript "ear" [] 0 false, .ask "cache" (.subscribe "failing"),
    .ask "cache" (.subscribe "reader"), .ask "cache" (.subscribe "ear")].foldl
    (fun w c => (w.execute c).2) empty).setCache 1 shown

/-- An object that changed is gone before the first one listens, and stays so while the second one
changes the order of the others, and although the third one fails. -/
theorem relays_once_handled_attended :
    (shown.apply (.rangeChanged 2 1)).table.entries = shown.table.entries ∧
    (shown.apply (.objectChanged 5)).stats = shown.stats.invalidate 1 ∧
    ∃ w₁ segments rest, ∃ between ending : Ending Nat Nat,
      Plays deliverToScript attended [.deliver (.cache 1) (.objectChanged 5)]
        ((attended, .deliver (.cache 1) (.objectChanged 5)) ::
          (w₁, .announce 1 (.objectChanged 5)) :: (segments.flatten ++ rest)) ending ∧
      w₁.cache? 1 = some (shown.apply (.objectChanged 5)) ∧
      Relayed deliverToScript 1 (shown.apply (.objectChanged 5))
        ([2, 1, 0].map fun i => .deliver (.script i) (.objectChanged 5)) [] w₁ segments rest
        between ending ∧
      ending.1 = some "listener failing" ∧
      (ending.2.cache? 1).map (·.table.entries.map (·.id)) = some [4, 6] ∧
      (shown.apply (.objectChanged 5)).table.entries.map (·.id) = [6, 4] := by
  have reachable : shown.Reachable .standard := .query _ _ _ .empty
  obtain ⟨unmoved, -⟩ := relays_once_handled reachable (.rangeChanged 2 1)
  obtain ⟨handled, relays, -⟩ := relays_once_handled reachable (.objectChanged 5)
  have checked : ((play? deliverToScript 9 attended
      [.deliver (.cache 1) (.objectChanged 5)]).any fun played =>
        played.2.1 == some "listener failing" &&
          (played.2.2.cache? 1).map (·.table.entries.map (·.id)) == some [4, 6]) = true := by
    decide +kernel
  simp only [Option.any_eq_true, Bool.and_eq_true, beq_iff_eq] at checked
  obtain ⟨⟨moments, ending⟩, played, failed, left⟩ := checked
  have plays := plays_of_play? played
  obtain ⟨l, here, same⟩ : ∃ l, attended.layer? 1 = some l ∧ l.cache = shown := ⟨_, rfl, rfl⟩
  have present : (attended.layer? 1).all (fun l => !l.isGone) = true := by decide +kernel
  rw [here, Option.all_some, Bool.not_eq_true'] at present
  obtain ⟨w₁, segments, rest, between, -, at_once, rfl, relayed⟩ :=
    relays deliverToScript attended 1 l [] _ _ here same present plays
  have calls : attended.callsAt 1 (.objectChanged 5) =
      [2, 1, 0].map fun i => .deliver (.script i) (.objectChanged 5) := by
    have registered : (attended.registry 1).members = [.script 0, .script 1, .script 2] := by
      decide +kernel
    rw [callsAt, registered]
    rfl
  rw [calls] at relayed
  refine ⟨?_, ?_, w₁, segments, rest, between, ending, plays, at_once, relayed, failed, left, ?_⟩
  · rw [unmoved.entries]
    decide +kernel
  · rw [handled.stats]
    decide +kernel
  · decide +kernel

end ReadThrough.Network
