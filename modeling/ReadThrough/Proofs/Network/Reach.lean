import ReadThrough.Proofs.Network.Handled
import ReadThrough.Proofs.Tower.Shape

/-!
# How far announcements get

An announcement of a node gets to the caches attached to it, to those attached to them, and no
further.  So a cache hears nothing of a node that it was attached to once, and when its home
announces a change, it handles the change once and announces it once.

* `Network.Over w m k`: node `k` is `m` or attached to something over it.
* `Linked.unreached`: what is not over a node neither hears of its announcements nor changes.
* `Network.InUse` are the caches with a name and those below them, which stay attached.
* `Calm.steps_announce`: an announcement comes to its end where no cache stands above
  itself and listeners only listen.
* `Linked.unmoved` and `Linked.handled_once`: events of other nodes, and of a cache's home.
-/

namespace ReadThrough

variable {ι α : Type}

/-- The node that hears of a change, or passes it on. -/
def Errand.bearer? : Errand ι α → Option NodeId
  | .announce m _ => some m
  | .deliver (.cache m) _ => some m
  | _ => none

namespace Network

/-- Node `k` is `m`, or a cache attached to something over it. -/
inductive Over (w : Network ι α) (m : NodeId) : NodeId → Prop
  | here : Over w m m
  | above {k b : NodeId} : w.home? k = some b → Over w m b → Over w m k

/-- A cache that has a name, or over which there is one that has. -/
def InUse (w : Network ι α) (n : NodeId) : Prop :=
  ∃ name k, w.nodeNamed? name = some k ∧ w.Over n k

/-- No cache stands above itself: each lies less deep than its home. -/
def Stacked (w : Network ι α) : Prop :=
  ∃ depth : NodeId → Nat, ∀ k b, w.home? k = some b → depth k < depth b

/-- Listeners only listen. -/
def Silent (w : Network ι α) : Prop := ∀ (i : Nat) s, w.scripts[i]? = some s → s.IsSilent

/-- From `w₀` on nothing has happened but announcements being passed on. -/
structure Calm (w₀ w : Network ι α) : Prop where
  linked : w.Linked
  releases : w₀.Releases w
  silent : w.Silent

variable {w w' w₀ w₁ : Network ι α} {n m b k : NodeId} {change : Change ι}
variable {errand : Errand ι α} {agenda : List (Errand ι α)} {moments : List (Moment ι α)}

/-! ## Over and below -/

theorem Over.trans (lower : w.Over m b) (upper : w.Over b k) : w.Over m k := by
  induction upper with
  | here => exact lower
  | above home _ ih => exact .above home ih

theorem Over.depth_le {depth : NodeId → Nat}
    (stacked : ∀ k b, w.home? k = some b → depth k < depth b) (upper : w.Over m k) :
    depth k ≤ depth m := by
  induction upper with
  | here => exact Nat.le_refl _
  | above home _ ih => exact Nat.le_of_lt (Nat.lt_of_lt_of_le (stacked _ _ home) ih)

/-- What is attached to a shelf or a relay is over no other node. -/
theorem not_over_of_plain (home : w.home? n = some b) (plain : w.home? b = none) (ne : b ≠ m)
    (other : n ≠ m) : ¬w.Over m n := by
  intro upper
  cases upper with
  | here => exact other rfl
  | above home' upper =>
    cases Option.some.inj (home.symm.trans home')
    cases upper with
    | here => exact ne rfl
    | above home'' _ =>
      rw [plain] at home''
      cases home''

/-- A cache in use stays attached while announcements are passed on. -/
theorem InUse.home?_eq (inUse : w₀.InUse n) (linked : w.Linked) (releases : w₀.Releases w) :
    w.home? n = w₀.home? n := by
  obtain ⟨name, k, named, upper⟩ := inUse
  have stays_k : w.Stays k := by
    refine (linked.wired.named name k ?_).2
    rw [releases.names]
    exact named
  have down : w.Stays k → w.Stays n := by
    clear named stays_k
    induction upper with
    | here => exact id
    | above home _ ih =>
      intro stays
      obtain ⟨l, here, stays', rfl⟩ := home?_eq_some_iff.1 ((releases.home _ stays).2.trans home)
      exact ih (linked.wired.below_stays here stays')
  exact (releases.home n (down stays_k)).2

theorem InUse.below (inUse : w.InUse n) (home : w.home? n = some m) : w.InUse m := by
  obtain ⟨name, k, named, upper⟩ := inUse
  exact ⟨name, k, named, Over.trans (.above home .here) upper⟩

theorem tells?_of_bearer? (other : errand.bearer? ≠ some n) : errand.tells? n = none := by
  cases told : errand.tells? n with
  | none => rfl
  | some change =>
    rw [eq_deliver_of_tells? told] at other
    exact absurd rfl other

/-- What is announced and told in the course of an agenda is so over a node, if this is so from
the start. -/
def Within (w₀ : Network ι α) (m : NodeId) (errand : Errand ι α) : Prop :=
  ∀ k, errand.bearer? = some k → w₀.Over m k

theorem toldTo_of_within (within : ∀ moment ∈ moments, w₀.Within m moment.2)
    (out : ¬w₀.Over m n) : toldTo n moments = [] :=
  List.filterMap_eq_nil_iff.2 fun moment mem =>
    tells?_of_bearer? fun bearer => out (within moment mem n bearer)

theorem announcedBy_of_within (within : ∀ moment ∈ moments, w₀.Within m moment.2)
    (out : ¬w₀.Over m n) : announcedBy n moments = [] := by
  refine List.filterMap_eq_nil_iff.2 fun moment mem => ?_
  obtain ⟨w, errand⟩ := moment
  cases errand with
  | announce k change => exact if_neg fun same => out (within _ mem n (congrArg some same))
  | _ => rfl

/-- Only caches attached to a node are called by it. -/
theorem Linked.home?_of_called (linked : w.Linked) (called : .cache n ∈ (w.registry m).calls) :
    w.home? n = some m := by
  have count := List.count_pos_iff.2 (List.mem_reverse.1 called)
  rw [linked.attached] at count
  split at count
  · assumption
  · cases count

variable [DecidableEq ι] [ToString ι]

/-- An announcement is passed on to what is attached to the node. -/
theorem Linked.within_advance (linked : w.Linked) (releases : w₀.Releases w)
    (silent : errand.performs = false) (within : w₀.Within m errand) :
    ∀ next ∈ (w.advance errand).2.2, w₀.Within m next := by
  intro next left k bearer
  cases leaves_of_mem silent left with
  | @call b change s called =>
    cases s with
    | script i => cases bearer
    | cache n =>
      cases bearer
      exact .above (releases.home?_of_some (linked.home?_of_called called)) (within b rfl)
  | pass =>
    cases bearer
    exact within _ rfl
  | settle => cases bearer
  | command => cases bearer

/-! ## Caches that are not reached -/

theorem cache?_cleanUp (errands : List (Errand ι α)) :
    (w.cleanUp errands).cache? n = w.cache? n := by
  refine cleanUp_keeps (f := fun w => w.cache? n) (fun w errand cleans => ?_) errands
  cases errand with
  | settle _ | unpin _ => exact cache?_advance rfl rfl
  | _ => cases cleans

/-- However far an agenda gets, and whether or not a listener fails, it reaches nothing but what
is over a node, if this is so from the start. -/
theorem Linked.unreached (linked : w.Linked) (releases : w₀.Releases w)
    (within : ∀ errand ∈ agenda, w₀.Within m errand) {rounds : Nat}
    (silent : ∀ moment ∈ itinerary rounds w agenda, moment.2.performs = false) :
    (∀ moment ∈ itinerary rounds w agenda, w₀.Within m moment.2) ∧
      (¬w₀.Over m n → (drain rounds w agenda).2.cache? n = w.cache? n) := by
  induction rounds generalizing w agenda with
  | zero => exact ⟨fun _ mem => (by cases mem), fun _ => rfl⟩
  | succ rounds ih =>
    cases agenda with
    | nil => exact ⟨fun _ mem => (by cases mem), fun _ => rfl⟩
    | cons errand agenda =>
      obtain ⟨now, later⟩ := List.forall_mem_cons.1 within
      obtain ⟨quiet, silent⟩ := List.forall_mem_cons.1 silent
      have linked₁ := linked.advance errand
      have releases₁ := linked.releases_advance quiet
      have within₁ := linked.within_advance releases quiet now
      have kept : ¬w₀.Over m n → (w.advance errand).2.1.cache? n = w.cache? n := fun out =>
        cache?_advance quiet (tells?_of_bearer? fun bearer => out (now n bearer))
      rw [itinerary, Network.drain]
      rcases step : w.advance errand with ⟨failure, w₁, more⟩
      rw [step] at linked₁ releases₁ within₁ kept silent
      cases failure with
      | none =>
        obtain ⟨rest, kept'⟩ := ih linked₁ (releases.trans releases₁)
          (fun next mem => (List.mem_append.1 mem).elim (within₁ next) (later next)) silent
        exact ⟨List.forall_mem_cons.2 ⟨now, rest⟩, fun out => (kept' out).trans (kept out)⟩
      | some message =>
        refine ⟨List.forall_mem_cons.2 ⟨now, fun _ mem => by cases mem⟩, fun out => ?_⟩
        exact (cache?_cleanUp _).trans (kept out)

/-! ## Listeners that only listen -/

omit [DecidableEq ι] [ToString ι] in
theorem scripts_modifyLayer {f : Layer ι α → Layer ι α} :
    (w.modifyLayer n f).scripts = w.scripts := by
  unfold modifyLayer
  split <;> rfl

omit [DecidableEq ι] [ToString ι] in
theorem scripts_sweepLoop (rounds : Nat) : (sweepLoop rounds w).scripts = w.scripts := by
  have retire : ∀ (w : Network ι α) n, (w.retire n).scripts = w.scripts := by
    intro w n
    unfold Network.retire
    split
    · exact scripts_modifyLayer
    · rfl
  exact sweepLoop_keeps (f := fun w => w.scripts) retire rounds

/-- While listeners only listen, no step leads to commands. -/
theorem Silent.left_silent (listening : w.Silent) (silent : errand.performs = false) :
    ∀ next ∈ (w.advance errand).2.2, next.performs = false := by
  intro next left
  cases leaves_of_mem silent left with
  | command at_i mem =>
    rw [(listening _ _ at_i).1] at mem
    cases mem
  | _ => rfl

/-- Nor does a step fail. -/
theorem Silent.advance (listening : w.Silent) (silent : errand.performs = false) :
    (w.advance errand).1 = none ∧ (w.advance errand).2.1.Silent := by
  have same : ∀ w' : Network ι α, w'.scripts = w.scripts → w'.Silent := by
    intro w' scripts i s at_i
    rw [scripts] at at_i
    exact listening i s at_i
  cases errand with
  | announce k change => exact ⟨rfl, listening⟩
  | deliver recipient change =>
    cases recipient with
    | cache k =>
      rw [Network.advance, deliverToCache]
      split
      · exact ⟨rfl, listening⟩
      · split
        · exact ⟨rfl, listening⟩
        · exact ⟨rfl, same _ rfl⟩
    | script i =>
      rw [Network.advance, deliverToScript]
      cases at_i : w.scripts[i]? with
      | none => exact ⟨rfl, listening⟩
      | some s =>
        dsimp only
        rw [(listening i s at_i).2, if_neg Bool.false_ne_true]
        split
        · exact ⟨rfl, same _ rfl⟩
        · refine ⟨rfl, fun j s' at_j => ?_⟩
          change (w.scripts.modify i _)[j]? = some s' at at_j
          rw [Array.getElem?_modify] at at_j
          split at at_j
          · obtain ⟨s₀, at_j', rfl⟩ := Option.map_eq_some_iff.1 at_j
            exact listening j s₀ at_j'
          · exact listening j s' at_j
  | perform script command => cases silent
  | note entry => exact ⟨rfl, same _ rfl⟩
  | settle k => exact ⟨rfl, same _ ((scripts_sweepLoop _).trans scripts_modifyLayer)⟩
  | unpin count => exact ⟨rfl, same _ (scripts_sweepLoop _)⟩

/-- A cache that is called is to announce the change and to settle then, unless it is gone. -/
theorem Silent.left_deliver (listening : w.Silent) (s : Subscriber) (change : Change ι) :
    (w.advance (.deliver s change)).2.2 = [] ∨ ∃ j, s = .cache j ∧
      (w.advance (.deliver s change)).2.2 = [.announce j change, .settle j] := by
  cases s with
  | script i =>
    refine Or.inl (List.eq_nil_iff_forall_not_mem.2 fun next left => ?_)
    have quiet := listening.left_silent rfl next left
    cases leaves_of_mem rfl left
    cases quiet
  | cache j =>
    rw [Network.advance, deliverToCache]
    split
    · exact Or.inl rfl
    · split
      · exact Or.inl rfl
      · exact Or.inr ⟨j, rfl, rfl⟩

namespace Calm

theorem advance (calm : w₀.Calm w) (silent : errand.performs = false) :
    w₀.Calm (w.advance errand).2.1 where
  linked := calm.linked.advance errand
  releases := calm.releases.trans (calm.linked.releases_advance silent)
  silent := (calm.silent.advance silent).2

theorem of_steps (calm : w₀.Calm w) (steps : Steps w agenda moments w')
    (silent : ∀ errand ∈ agenda, errand.performs = false) :
    (∀ moment ∈ moments, w₀.Calm moment.1 ∧ moment.2.performs = false) ∧ w₀.Calm w' := by
  induction steps with
  | done => exact ⟨fun _ mem => (by cases mem), calm⟩
  | @step w w₁ w' errand more agenda moments advanced _ ih =>
    obtain ⟨now, later⟩ := List.forall_mem_cons.1 silent
    have calm₁ := calm.advance now
    have next := calm.silent.left_silent now
    rw [advanced] at calm₁ next
    obtain ⟨rest, calm'⟩ := ih calm₁ fun errand mem =>
      (List.mem_append.1 mem).elim (next errand) (later errand)
    exact ⟨List.forall_mem_cons.2 ⟨⟨calm, now⟩, rest⟩, calm'⟩

theorem step (calm : w₀.Calm w) (silent : errand.performs = false) :
    w.advance errand = (none, (w.advance errand).2.1, (w.advance errand).2.2) :=
  Prod.ext (calm.silent.advance silent).1 rfl

/-- Telling subscribers comes to its end if the announcements of the caches among them do. -/
theorem steps_deliveries (calm : w₀.Calm w) (subscribers : List Subscriber)
    (announced : ∀ j, .cache j ∈ subscribers → ∀ w, w₀.Calm w →
      ∃ moments w', Steps w [.announce j change] moments w') :
    ∃ moments w', Steps w (subscribers.map (.deliver · change)) moments w' := by
  induction subscribers generalizing w with
  | nil => exact ⟨[], w, .done⟩
  | cons s subscribers ih =>
    have quiet : (.deliver s change : Errand ι α).performs = false := rfl
    have calm₁ := calm.advance quiet
    obtain ⟨moments₁, w₁, first⟩ : ∃ moments w', Steps (w.advance (.deliver s change)).2.1
        (w.advance (.deliver s change)).2.2 moments w' := by
      rcases calm.silent.left_deliver s change with left | ⟨j, rfl, left⟩
      · rw [left]
        exact ⟨[], _, .done⟩
      · obtain ⟨moments, w₁, told⟩ := announced j List.mem_cons_self _ calm₁
        obtain ⟨-, calm'⟩ := calm₁.of_steps told fun _ mem => List.mem_singleton.1 mem ▸ rfl
        have settled : (.settle j : Errand ι α).performs = false := rfl
        rw [left]
        exact ⟨_, _, told.append (.one (calm'.step settled) .done)⟩
    obtain ⟨-, calm'⟩ := calm₁.of_steps first (calm.silent.left_silent quiet)
    obtain ⟨moments, w', rest⟩ := ih calm' fun j mem => announced j (List.mem_cons_of_mem _ mem)
    have one : Steps w [.deliver s change] _ w₁ := .one (calm.step quiet) first
    exact ⟨_, w', one.append rest⟩

/-- Where no cache stands above itself, an announcement comes to its end. -/
theorem steps_announce {depth : NodeId → Nat}
    (stacked : ∀ k b, w₀.home? k = some b → depth k < depth b) (calm : w₀.Calm w) :
    ∃ moments w', Steps w [.announce m change] moments w' := by
  -- by induction on how deep the node lies
  induction level : depth m using Nat.strongRecOn generalizing m w with
  | ind level ih =>
    subst level
    have quiet : (.announce m change : Errand ι α).performs = false := rfl
    obtain ⟨moments, w', told⟩ := calm.steps_deliveries (w.registry m).calls fun j called w calm₁ =>
      ih (depth j) (stacked j m (calm.releases.home?_of_some (calm.linked.home?_of_called called)))
        calm₁ rfl
    exact ⟨_, w', .one (calm.step quiet) told⟩

end Calm

/-! ## Events of former and of present homes -/

/-- An announcement of a node leaves alone what is not over it. -/
theorem Linked.unmoved (linked : w.Linked) (out : ¬w.Over m n) {rounds : Nat}
    (silent : ∀ moment ∈ itinerary rounds w [.announce m change], moment.2.performs = false) :
    let moments := itinerary rounds w [.announce m change]
    toldTo n moments = [] ∧ announcedBy n moments = [] ∧
      (drain rounds w [.announce m change]).2.cache? n = w.cache? n := by
  have start : ∀ errand ∈ [(.announce m change : Errand ι α)], w.Within m errand := by
    intro errand mem k bearer
    cases List.mem_singleton.1 mem
    cases bearer
    exact .here
  obtain ⟨within, kept⟩ := linked.unreached (n := n) (.refl w) start silent
  exact ⟨toldTo_of_within within out, announcedBy_of_within within out, kept out⟩

/-- A cache in use handles what its home announces, and announces it in turn, once. -/
theorem Linked.handled_once (linked : w.Linked) (listening : w.Silent) (stacked : w.Stacked)
    (inUse : w.InUse n) (home : w.home? n = some m) (change : Change ι) :
    ∃ moments w', Steps w [.announce m change] moments w' ∧ toldTo n moments = [change] ∧
      announcedBy n moments = [change] ∧
      w'.cache? n = (w.cache? n).map (·.apply change) := by
  obtain ⟨depth, stacked⟩ := stacked
  have calm : w.Calm w := ⟨linked, .refl w, listening⟩
  obtain ⟨moments, w', steps⟩ : ∃ moments w', Steps w [.announce m change] moments w' :=
    calm.steps_announce stacked
  obtain ⟨passing, -⟩ := calm.of_steps steps fun _ mem => List.mem_singleton.1 mem ▸ rfl
  have silent := fun moment mem => (passing moment mem).2
  have stays : ∀ k, w.InUse k → ∀ moment ∈ moments, moment.1.home? k = w.home? k :=
    fun k inUse moment mem =>
      inUse.home?_eq (passing moment mem).1.linked (passing moment mem).1.releases
  obtain ⟨-, passed⟩ := steps.drain (Nat.le_refl _)
  -- what is told goes up, so that nothing comes back to the home
  have untold : toldTo m moments = [] := by
    have told := steps.perm_toldTo linked (stays m (inUse.below home))
    cases lower : w.home? m with
    | none =>
      rw [lower] at told
      exact told.eq_nil
    | some b =>
      have out : ¬w.Over m b := fun upper =>
        Nat.not_le_of_lt (stacked m b lower) (upper.depth_le stacked)
      have quiet := (linked.unmoved out (passed.symm ▸ silent)).2.1
      rw [passed] at quiet
      rw [lower, announcedFrom, Option.elim_some, quiet] at told
      exact told.eq_nil
  have announced : announcedBy m moments = [change] := by
    have announced := steps.perm_announcedBy (n := m) silent fun moment mem told =>
      absurd (List.filterMap_eq_nil_iff.1 untold moment mem) told
    rw [untold, List.append_nil] at announced
    exact List.perm_singleton.1 (announced.trans (.of_eq (by simp [Errand.announces?])))
  have told : toldTo n moments = [change] := by
    have told := steps.perm_toldTo linked (stays n inUse)
    rw [home, announcedFrom, Option.elim_some, announced] at told
    exact List.perm_singleton.1 told
  have attached : ∀ moment ∈ moments, moment.2.tells? n ≠ none → moment.1.home? n ≠ none := by
    intro moment mem _
    rw [stays n inUse moment mem, home]
    exact Option.some_ne_none m
  have other : m ≠ n := by
    rintro rfl
    exact Nat.lt_irrefl _ (stacked m m home)
  refine ⟨moments, w', steps, told, ?_, ?_⟩
  · have announced := steps.perm_announcedBy silent attached
    rw [told] at announced
    exact List.perm_singleton.1 (announced.trans (.of_eq (by simp [Errand.announces?, other])))
  · have kept := steps.cache?_eq silent attached
    rw [told] at kept
    exact kept

end Network

end ReadThrough
