import ReadThrough.Proofs.Network.Commands

/-!
# Carrying out errands in a network in step

An announcement calls the subscribers, a cache that is called announces the change in
turn.  So a change that is on its way to a cache stays on its way, from node to node,
until the cache is called and handles it.

* `Network.Pending.step`: no change on its way to a cache gets lost in a step.
* `Network.InStep.advance`: a step of an errand keeps the network in step.
-/

namespace ReadThrough.Network

variable {ι α : Type} {w w' : Network ι α} {n k : NodeId} {l : Layer ι α}
variable {errand : Errand ι α} {agenda more : List (Errand ι α)} {change : Change ι}

/-- The errands that a telling errand leaves tell the caches that stay. -/
structure PassesOn (w : Network ι α) (errand : Errand ι α) (more : List (Errand ι α)) : Prop where
  called : ∀ k l ch, w.layer? k = some l → l.retired = false → errand = .announce l.below ch →
    .deliver (.cache k) ch ∈ more
  announced : ∀ k l ch, w.layer? k = some l → l.retired = false →
    errand = .deliver (.cache k) ch → .announce k ch ∈ more

theorem Pending.step (wired : w.Wired) (below : ∀ k, w'.below? k = w.below? k)
    (passes : w.PassesOn errand more) (pending : w.Pending (errand :: agenda) change k)
    (here : w.layer? k = some l) (stays : l.retired = false) :
    w'.Pending (more ++ agenda) change k ∨ errand = .deliver (.cache k) change := by
  induction pending generalizing l with
  | deliver under mem =>
    rcases List.mem_cons.1 mem with eq | mem
    · exact Or.inr eq.symm
    · exact Or.inl (.deliver ((below _).trans under) (List.mem_append_right _ mem))
  | announce under mem =>
    rcases List.mem_cons.1 mem with eq | mem
    · cases (below?_eq here).symm.trans under
      refine Or.inl (.deliver ((below _).trans under) (List.mem_append_left _ ?_))
      exact passes.called _ l change here stays eq.symm
    · exact Or.inl (.announce ((below _).trans under) (List.mem_append_right _ mem))
  | pass under pending ih =>
    cases (below?_eq here).symm.trans under
    -- what is on its way to the node below goes on from there
    obtain ⟨lb, here_b⟩ : ∃ lb, w.layer? l.below = some lb := by
      cases pending with
      | deliver under_b | announce under_b | pass under_b =>
        obtain ⟨lb, here_b, -⟩ := Option.map_eq_some_iff.1 under_b
        exact ⟨lb, here_b⟩
    have stays_b := wired.below_stays here stays lb here_b
    rcases ih here_b stays_b with pending | eq
    · exact Or.inl (.pass ((below _).trans under) pending)
    · refine Or.inl (.announce ((below _).trans under) (List.mem_append_left _ ?_))
      exact passes.announced _ lb change here_b stays_b eq

theorem passesOn_announce (wired : w.Wired) :
    w.PassesOn (.announce n change) ((w.registry n).calls.map (.deliver · change)) where
  called k l ch here stays eq := by
    cases eq
    exact List.mem_map_of_mem (List.mem_reverse.2 (wired.registered k l here stays))
  announced k l ch here stays eq := by cases eq

/-- An errand that tells nothing needs no others. -/
theorem passesOn_silent (announce : ∀ b ch, errand ≠ .announce b ch)
    (deliver : ∀ k ch, errand ≠ .deliver (.cache k) ch) : w.PassesOn errand more where
  called _ _ _ _ _ eq := absurd eq (announce _ _)
  announced _ _ _ _ _ eq := absurd eq (deliver _ _)

variable [DecidableEq ι]

/-- An errand may be replaced by those that pass it on. -/
theorem InStep.replace (inStep : w.InStep (errand :: agenda)) (passes : w.PassesOn errand more)
    (uncalled : ∀ k l ch, w.layer? k = some l → l.retired = false →
      errand ≠ .deliver (.cache k) ch) : w.InStep (more ++ agenda) := by
  refine inStep.withAgenda fun k l ch here stays pending => ?_
  exact (pending.step inStep.wired (fun _ => rfl) passes here stays).resolve_right
    (uncalled k l ch here stays)

/-- An errand that tells nothing may be taken off the agenda. -/
theorem InStep.skip (inStep : w.InStep (errand :: agenda))
    (announce : ∀ b ch, errand ≠ .announce b ch)
    (deliver : ∀ k ch, errand ≠ .deliver (.cache k) ch) : w.InStep agenda :=
  have passes : w.PassesOn errand [] := passesOn_silent announce deliver
  inStep.replace passes fun k _ ch _ _ => deliver k ch

/-! ## Calls -/

/-- A cache that handles a change may hold what is right after it. -/
theorem stocked_called {c : Cache ι α} {agenda' : List (Errand ι α)}
    (stocked : c.Stocked (w.answers agenda n))
    (left : ∀ ch, w.Pending agenda ch n → ch = change ∨ w.Pending agenda' ch n) :
    (c.apply change).Stocked (w.answers agenda' n) := by
  refine stocked.apply (fun e good kept => entry_answers_iff.2 fun m o rests => ?_)
    fun keeps k size m o rests => ?_
  · have good := entry_answers_iff.1 good m o rests
    exact Shelf.entry_of_handled ((Shelf.answers_mono left).entry e good) kept
  · exact Shelf.size_of_handled keeps ((Shelf.answers_mono left).size k (size m o rests))

/-- A cache that is called handles the change and is to announce it. -/
theorem InStep.call (inStep : w.InStep (.deliver (.cache n) change :: agenda))
    (present : ∀ l, w.layer? n = some l → l.isGone = false) :
    (w.modifyLayer n fun l => { l with cache := l.cache.apply change, busy := l.busy + 1 }).InStep
      ([.announce n change, .settle n] ++ agenda) := by
  have passes : w.PassesOn (.deliver (.cache n) change) [.announce n change, .settle n] := by
    refine ⟨fun _ _ _ _ _ eq => (by cases eq), fun k l ch _ _ eq => ?_⟩
    cases eq
    exact List.mem_cons_self
  have next : ∀ k l ch, w.layer? k = some l → l.retired = false →
      w.Pending (.deliver (.cache n) change :: agenda) ch k →
        (k = n ∧ ch = change) ∨ w.Pending ([.announce n change, .settle n] ++ agenda) ch k := by
    intro k l ch here stays pending
    rcases pending.step inStep.wired (fun _ => rfl) passes here stays with pending | eq
    · exact Or.inr pending
    · cases eq
      exact Or.inl ⟨rfl, rfl⟩
  refine inStep.wired.modifyLayer (fun _ => rfl) (fun _ => rfl) (fun l here _ => present l here) ?_
  intro k l here stays
  have stocked := inStep.stocked k l here stays
  split
  · rename_i same
    subst same
    exact stocked_called stocked fun ch pending =>
      (next n l ch here stays pending).imp_left And.right
  · rename_i other
    refine stocked.mono (answers_within fun m o rests => Or.inl ⟨o, rests, ?_⟩)
    exact Shelf.answers_mono fun ch pending =>
      (next k l ch here stays pending).resolve_left fun both => other both.1.symm

/-- A retired cache need not be called. -/
theorem InStep.pass (inStep : w.InStep (.deliver (.cache n) change :: agenda))
    (retired : ∀ l, w.layer? n = some l → l.retired = true) : w.InStep agenda := by
  have uncalled : ∀ k l ch, w.layer? k = some l → l.retired = false →
      Errand.deliver (ι := ι) (.cache n) change ≠ Errand.deliver (α := α) (.cache k) ch := by
    intro k l ch here stays eq
    cases eq
    exact Bool.false_ne_true (stays.symm.trans (retired l here))
  have passes : w.PassesOn (.deliver (.cache n) change) [] :=
    ⟨fun _ _ _ _ _ eq => (by cases eq),
      fun k l ch here stays eq => absurd eq (uncalled k l ch here stays)⟩
  exact inStep.replace passes uncalled

theorem InStep.deliverToCache (inStep : w.InStep (.deliver (.cache n) change :: agenda)) :
    (w.deliverToCache n change).2.1.InStep ((w.deliverToCache n change).2.2 ++ agenda) := by
  unfold Network.deliverToCache
  split
  · rename_i absent
    refine inStep.pass fun l here => ?_
    rw [absent] at here
    cases here
  · rename_i l here
    split
    · rename_i gone
      refine inStep.pass fun l' here' => ?_
      cases here.symm.trans here'
      exact (Bool.and_eq_true_iff.1 gone).1
    · rename_i present
      have called := inStep.call fun l' here' => by
        cases here.symm.trans here'
        exact Bool.eq_false_iff.2 present
      rwa [modifyLayer_eq here] at called

theorem InStep.deliverToScript {i : Nat}
    (inStep : w.InStep (.deliver (.script i) change :: agenda)) :
    (w.deliverToScript i change).2.1.InStep ((w.deliverToScript i change).2.2 ++ agenda) := by
  have rest : w.InStep agenda :=
    inStep.skip (fun _ _ eq => by cases eq) fun _ _ eq => by cases eq
  unfold Network.deliverToScript
  split
  · exact rest
  · dsimp only
    split
    · exact rest.congr rfl rfl
    · split
      · exact rest.congr rfl rfl
      · exact (rest.append _).congr rfl rfl

/-! ## Other errands -/

/-- A cache has passed a change on. -/
theorem InStep.settle (inStep : w.InStep agenda) :
    ((w.modifyLayer n fun l => { l with busy := l.busy - 1 }).sweep).InStep agenda := by
  refine InStep.sweep (inStep.wired.modifyLayer (fun _ => rfl) (fun _ => rfl) ?_ ?_)
  · intro l _ stays
    rw [Layer.isGone, Bool.and_eq_false_iff] at stays ⊢
    refine stays.imp_right fun busy => ?_
    rw [beq_eq_false_iff_ne] at busy ⊢
    exact fun idle => busy (by rw [idle])
  · intro k l here stays
    split <;> exact inStep.stocked k l here stays

variable [ToString ι]

/-- A step of an errand keeps the network in step. -/
theorem InStep.advance (inStep : w.InStep (errand :: agenda)) (lawful : w.Lawful)
    (lawful' : (w.advance errand).2.1.Lawful) :
    (w.advance errand).2.1.InStep ((w.advance errand).2.2 ++ agenda) := by
  have rest : (∀ b ch, errand ≠ .announce b ch) → (∀ k ch, errand ≠ .deliver (.cache k) ch) →
      w.InStep agenda := inStep.skip
  cases errand with
  | announce n change =>
    exact inStep.replace (passesOn_announce inStep.wired) fun k l ch _ _ eq => by cases eq
  | deliver recipient change =>
    cases recipient with
    | cache n => exact inStep.deliverToCache
    | script i => exact inStep.deliverToScript
  | perform script command =>
    have rest := rest (fun _ _ eq => by cases eq) fun _ _ eq => by cases eq
    have performed := kept_perform rest lawful command lawful'
    refine performed.withAgenda fun _ _ _ _ _ pending =>
      pending.mono (fun _ _ under => under) fun errand mem => ?_
    rcases List.mem_append.1 mem with new | old
    · exact List.mem_append_left _ (List.mem_append_left _ new)
    · exact List.mem_append_right _ old
  | note entry =>
    exact (rest (fun _ _ eq => by cases eq) fun _ _ eq => by cases eq).congr rfl rfl
  | settle n =>
    exact (rest (fun _ _ eq => by cases eq) fun _ _ eq => by cases eq).settle
  | unpin count =>
    have rest := rest (fun _ _ eq => by cases eq) fun _ _ eq => by cases eq
    have unpinned : InStep { w with pins := w.pins.drop count } agenda := rest.congr rfl rfl
    exact unpinned.sweep

end ReadThrough.Network
