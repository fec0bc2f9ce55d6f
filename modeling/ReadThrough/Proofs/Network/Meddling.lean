import ReadThrough.Proofs.Network.Fanout

/-!
# What listeners meddle with

While a change is passed on, a cache is changed by a listener, or by being told something
itself, and by nothing else; a shelf is changed by a listener only.  So each moment finds it
as it was at first, unless one of the moments before has meddled with it.

* `Network.Meddled react free f moments`: one of the steps from these moments on is of a kind
  that is free to change what `f` shows, and changes it.
* `Plays.undisturbed`: what `f` shows stays until it is meddled with.
* `Network.cache?_advanceBy` and `Network.origin?_advanceBy` say which steps are free to change a
  cache, and which a shelf.
-/

namespace ReadThrough

variable {ι α : Type}

/-- A listener is called, or carries out a command. -/
def Errand.isListeners : Errand ι α → Bool
  | .deliver (.script _) _ | .perform _ _ => true
  | _ => false

/-- The errand is up to a listener, or tells the cache at node `n` something. -/
def Errand.touches (n : NodeId) (errand : Errand ι α) : Bool :=
  errand.isListeners || (errand.tells? n).isSome

theorem Errand.performs_of_isListeners {errand : Errand ι α} (own : errand.isListeners = false) :
    errand.performs = false := by
  cases errand with
  | perform script command => cases own
  | _ => rfl

namespace Network

variable [DecidableEq ι] [ToString ι]

/-- One of the steps from these moments on is free to change what `f` shows, and does so. -/
def Meddled {β : Type} (react : Reaction ι α) (free : Errand ι α → Bool) (f : Network ι α → β)
    (moments : List (Moment ι α)) : Prop :=
  ∃ moment ∈ moments, free moment.2 = true ∧
    f (advanceBy react moment.1 moment.2).2.1 ≠ f moment.1

variable {β : Type} {react : Reaction ι α} {free : Errand ι α → Bool} {f : Network ι α → β}
variable {w : Network ι α} {n : NodeId} {errand : Errand ι α} {agenda : List (Errand ι α)}
variable {moments : List (Moment ι α)} {ending : Ending ι α}

theorem Meddled.cons (moment : Moment ι α) (meddled : Meddled react free f moments) :
    Meddled react free f (moment :: moments) := by
  obtain ⟨later, mem, meddles⟩ := meddled
  exact ⟨later, List.mem_cons_of_mem _ mem, meddles⟩

/-- A step leaves things as they are, or it meddles with them. -/
theorem eq_or_meddled
    (kept : ∀ w errand, free errand = false → f (advanceBy react w errand).2.1 = f w)
    (w : Network ι α) (errand : Errand ι α) (later : List (Moment ι α)) :
    f (advanceBy react w errand).2.1 = f w ∨ Meddled react free f ((w, errand) :: later) := by
  by_cases same : f (advanceBy react w errand).2.1 = f w
  · exact Or.inl same
  · refine Or.inr ⟨_, List.mem_cons_self, ?_, same⟩
    exact Bool.not_eq_false _ ▸ fun bound => same (kept w errand bound)

/-- What `f` shows stays until one of the steps that are free to change it does so. -/
theorem Plays.undisturbed
    (kept : ∀ w errand, free errand = false → f (advanceBy react w errand).2.1 = f w)
    (plays : Plays react w agenda moments ending) :
    (∀ before w₁ errand after, moments = before ++ (w₁, errand) :: after →
      f w₁ = f w ∨ Meddled react free f before) ∧
    (f ending.2 = f w ∨ Meddled react free f moments) := by
  induction plays with
  | done => exact ⟨fun before _ _ _ split => (by cases before <;> cases split), Or.inl rfl⟩
  | @step w w₁ errand more agenda moments ending advanced _ ih =>
    have first := eq_or_meddled kept w errand
    rw [advanced] at first
    refine ⟨fun before w₂ errand' after split => ?_, ?_⟩
    · cases before with
      | nil =>
        cases split
        exact Or.inl rfl
      | cons moment before =>
        obtain ⟨rfl, rest⟩ := List.cons.inj split
        rcases ih.1 before w₂ errand' after rest with same | meddled
        · exact (first before).imp_left same.trans
        · exact Or.inr (meddled.cons _)
    · rcases ih.2 with same | meddled
      · exact (first moments).imp_left same.trans
      · exact Or.inr (meddled.cons _)
  | @fail w w₁ errand more agenda message advanced =>
    have first := eq_or_meddled kept w errand []
    rw [advanced] at first
    refine ⟨fun before w₂ errand' after split => ?_, first⟩
    cases before with
    | nil =>
      cases split
      exact Or.inl rfl
    | cons moment before => cases before <;> cases (List.cons.inj split).2

/-! ## Caches and shelves -/

theorem advanceBy_eq (own : errand.isListeners = false) :
    advanceBy react w errand = w.advance errand := by
  cases errand with
  | deliver recipient change =>
    cases recipient with
    | cache n => rfl
    | script i => cases own
  | _ => rfl

/-- What a cache holds is up to listeners and to those who tell it something. -/
theorem cache?_advanceBy (bound : errand.touches n = false) :
    (advanceBy react w errand).2.1.cache? n = w.cache? n := by
  obtain ⟨own, untold⟩ := Bool.or_eq_false_iff.1 bound
  rw [advanceBy_eq own]
  exact cache?_advance (Errand.performs_of_isListeners own)
    (Option.isNone_iff_eq_none.1 (Option.isSome_eq_false_iff.1 untold))

omit [DecidableEq ι] [ToString ι] in
theorem origin?_sweep : w.sweep.origin? n = w.origin? n :=
  sweepLoop_keeps (f := fun w => w.origin? n) (fun _ _ => origin?_retire) _

/-- Only commands change shelves. -/
theorem origin?_advance (silent : errand.performs = false) :
    (w.advance errand).2.1.origin? n = w.origin? n := by
  cases errand with
  | announce m change => rfl
  | deliver recipient change =>
    cases recipient with
    | script i =>
      rw [advance, deliverToScript]
      split
      · rfl
      · dsimp only
        split
        · rfl
        · split <;> rfl
    | cache m =>
      rw [advance, deliverToCache]
      split
      · rfl
      · rename_i l here
        split
        · rfl
        · have called := origin?_modifyLayer (w := w) (n := m) (k := n)
            (f := fun l => { l with cache := l.cache.apply change, busy := l.busy + 1 })
          rwa [modifyLayer_eq here] at called
  | perform script command => cases silent
  | note entry => rfl
  | settle m => exact origin?_sweep.trans origin?_modifyLayer
  | unpin count => exact origin?_sweep

/-- What a shelf holds, and how it answers, is up to listeners. -/
theorem origin?_advanceBy (own : errand.isListeners = false) :
    (advanceBy react w errand).2.1.origin? n = w.origin? n := by
  rw [advanceBy_eq own]
  exact origin?_advance (Errand.performs_of_isListeners own)

/-- What is done after a listener has failed leaves shelves alone. -/
theorem origin?_cleanUp (errands : List (Errand ι α)) :
    (w.cleanUp errands).origin? n = w.origin? n := by
  refine cleanUp_keeps (f := fun w => w.origin? n) (fun w errand cleans => ?_) errands
  cases errand with
  | settle _ | unpin _ => exact origin?_advance rfl
  | _ => cases cleans

end Network

end ReadThrough
