import ReadThrough.Proofs.Network.Relaying

/-!
# Changes in any order

Listeners that change the source while they are called make later changes overtake earlier
ones.  For a cache this is no matter: whatever it is told, in whatever order, it ends up alike,
and what it is told again has no effect on it.

* `Network.Heard react n w changes w'`: the cache at node `n` is told these changes one after the
  other, and nothing else meddles with it.
* `Calm.heard`: where listeners only listen, a cache in use hears whatever it is told.
* `Network.alike_in_any_order` is about every state of a cache and every list of changes.
-/

namespace ReadThrough.Network

variable {ι α : Type} [DecidableEq ι] [ToString ι]
variable {react : Reaction ι α} {w w' w₀ w₁ : Network ι α} {n m : NodeId} {l : Layer ι α}
variable {change : Change ι} {changes changes' : List (Change ι)} {c : Cache ι α}
variable {errand : Errand ι α} {agenda : List (Errand ι α)} {moments : List (Moment ι α)}
variable {ending : Ending ι α}

/-- The cache at node `n` is told these changes one after the other.  Nothing meddles with it while
a change is passed on, and in between it is left as it is. -/
inductive Heard (react : Reaction ι α) (n : NodeId) :
    Network ι α → List (Change ι) → Network ι α → Prop
  | done {w : Network ι α} : Heard react n w [] w
  | next {w w₁ w' : Network ι α} {l : Layer ι α} {change : Change ι} {changes : List (Change ι)}
    {moments : List (Moment ι α)} {ending : Ending ι α} :
    w.layer? n = some l → l.isGone = false →
    Plays react w [.deliver (.cache n) change] ((w, .deliver (.cache n) change) :: moments)
      ending →
    ¬Meddled react (Errand.touches n) (·.cache? n) moments → w₁.cache? n = ending.2.cache? n →
    Heard react n w₁ changes w' → Heard react n w (change :: changes) w'

/-- What a cache has heard is what it has handled. -/
theorem Heard.cache?_eq (heard : Heard react n w changes w') (here : w.cache? n = some c) :
    w'.cache? n = some (changes.foldl Cache.apply c) := by
  induction heard generalizing c with
  | done => exact here
  | @next w w₁ w' l change changes moments ending at_n present plays alone left _ ih =>
    obtain ⟨w₂, advanced, handled, -⟩ := advance_deliver at_n present change
    have same : l.cache = c := by
      rw [cache?, at_n] at here
      exact Option.some.inj here
    refine ih (left.trans ?_)
    cases plays with
    | fail failed =>
      rw [advanceBy_eq rfl, advanced] at failed
      cases failed
    | step advanced' plays =>
      rw [advanceBy_eq rfl, advanced] at advanced'
      cases advanced'
      have kept := (plays.undisturbed (f := fun w => w.cache? n) fun _ _ => cache?_advanceBy).2
      rw [kept.resolve_right alone, handled, same]

/-! ## Where listeners only listen -/

theorem Steps.plays (steps : Steps w agenda moments w') :
    Plays deliverToScript w agenda moments (none, w') := by
  induction steps with
  | done => exact .done
  | step advanced _ ih => exact .step ((advanceBy_deliverToScript _ _).trans advanced) ih

omit [DecidableEq ι] [ToString ι] in
/-- Neither announcing a change nor settling then is a command. -/
theorem silent_relay : ∀ errand ∈ [(.announce n change : Errand ι α), .settle n],
    errand.performs = false := by
  intro errand mem
  rcases List.mem_pair.1 mem with rfl | rfl <;> rfl

/-- Steps that carry out no commands and tell the cache nothing do not meddle with it. -/
theorem not_meddled (silent : ∀ moment ∈ moments, moment.2.performs = false)
    (untold : toldTo n moments = []) :
    ¬Meddled deliverToScript (Errand.touches n) (·.cache? n) moments := by
  rintro ⟨moment, mem, -, changed⟩
  rw [advanceBy_deliverToScript] at changed
  exact changed (cache?_advance (silent moment mem) (List.filterMap_eq_nil_iff.1 untold _ mem))

/-- What a cache passes on goes up, so that nothing comes back to it. -/
theorem Calm.untold {depth : NodeId → Nat} (calm : w₀.Calm w)
    (stacked : ∀ k b, w₀.home? k = some b → depth k < depth b) (inUse : w₀.InUse n)
    (home : w₀.home? n = some m)
    (steps : Steps w [.announce n change, .settle n] moments w') : toldTo n moments = [] := by
  have start : ∀ errand ∈ [(.announce n change : Errand ι α), .settle n],
      w₀.Within n errand := by
    intro errand mem k bearer
    rcases List.mem_pair.1 mem with rfl | rfl
    · cases bearer
      exact .here
    · cases bearer
  obtain ⟨passing, -⟩ := calm.of_steps steps silent_relay
  obtain ⟨-, passed⟩ := steps.drain (Nat.le_refl _)
  have silent : ∀ moment ∈ itinerary moments.length w [.announce n change, .settle n],
      moment.2.performs = false := by
    rw [passed]
    exact fun moment mem => (passing moment mem).2
  obtain ⟨within, -⟩ := calm.linked.unreached (n := n) calm.releases start silent
  rw [passed] at within
  have told := steps.perm_toldTo (n := n) calm.linked fun moment mem =>
    inUse.home?_eq (passing moment mem).1.linked (passing moment mem).1.releases
  have out : ¬w₀.Over n m := fun upper =>
    Nat.not_le_of_lt (stacked n m home) (upper.depth_le stacked)
  rw [home, announcedFrom, Option.elim_some, announcedBy_of_within within out] at told
  exact told.eq_nil

/-- A cache in use is told something, and passes it on, without being meddled with. -/
theorem Calm.exists_heard {depth : NodeId → Nat} (calm : w₀.Calm w)
    (stacked : ∀ k b, w₀.home? k = some b → depth k < depth b) (inUse : w₀.InUse n)
    (home : w₀.home? n = some m) (changes : List (Change ι)) :
    ∃ w', Heard deliverToScript n w changes w' := by
  induction changes generalizing w with
  | nil => exact ⟨w, .done⟩
  | cons change changes ih =>
    obtain ⟨l, here, stays, -⟩ := home?_eq_some_iff.1
      ((inUse.home?_eq calm.linked calm.releases).trans home)
    have present := Layer.isGone_of_retired stays
    obtain ⟨w₁, advanced, -⟩ := advance_deliver here present change
    have calm₁ : w₀.Calm w₁ := by
      have next : w₀.Calm (w.advance (.deliver (.cache n) change)).2.1 := calm.advance rfl
      rwa [advanced] at next
    obtain ⟨announcing, w₂, announced⟩ : ∃ moments w₂,
        Steps w₁ [.announce n change] moments w₂ := calm₁.steps_announce stacked
    obtain ⟨-, calm₂⟩ := calm₁.of_steps announced fun _ mem => List.mem_singleton.1 mem ▸ rfl
    have settled : (.settle n : Errand ι α).performs = false := rfl
    have steps := announced.append (.one (calm₂.step settled) .done)
    obtain ⟨passing, calm₃⟩ := calm₁.of_steps steps silent_relay
    obtain ⟨w', heard⟩ := ih calm₃
    exact ⟨w', .next here present (Steps.one advanced steps).plays
      (not_meddled (fun moment mem => (passing moment mem).2)
        (calm₁.untold stacked inUse home steps)) rfl heard⟩

/-- The order in which a cache handles changes does not matter:

* In whatever order it handles the same changes, it holds the same in the same order afterwards,
  knows the same size and has counted the same; only the slots of its entries may differ.
* To handle all of them once more makes no difference.
* In a network it does this when it is told the changes, whatever its listeners do, if they do not
  meddle with the cache.
* If listeners only listen, a cache in use hears whatever it is told. -/
theorem alike_in_any_order {sizing : Sizing} {c : Cache ι α} (reachable : c.Reachable sizing)
    {changes changes' : List (Change ι)} (perm : changes.Perm changes') :
    (changes.foldl Cache.apply c).Alike (changes'.foldl Cache.apply c) ∧
    (changes.foldl Cache.apply c).Alike
      (changes.foldl Cache.apply (changes.foldl Cache.apply c)) ∧
    (∀ (react : Reaction ι α) w n w', w.cache? n = some c → Heard react n w changes w' →
      w'.cache? n = some (changes.foldl Cache.apply c)) ∧
    ∀ (w : Network ι α) n m, w.Linked → w.Silent → w.Stacked → w.InUse n →
      w.home? n = some m → ∃ w', Heard deliverToScript n w changes w' := by
  have wf := reachable.stocked.1.table
  refine ⟨Cache.alike_foldl_apply wf fun change => perm.mem_iff, ?_,
    fun react w n w' here heard => heard.cache?_eq here, ?_⟩
  · rw [← List.foldl_append]
    exact Cache.alike_foldl_apply wf fun change => by rw [List.mem_append, or_self]
  · rintro w n m linked listening ⟨depth, stacked⟩ inUse home
    have calm : w.Calm w := ⟨linked, .refl w, listening⟩
    exact calm.exists_heard stacked inUse home changes

/-- Over the shelf of a cache whose objects were read, with a listener that only listens. -/
def overheard : Network Nat Nat :=
  ([.addShelf "shelf" [4, 5, 6] some, .addCache "cache" "shelf" 1000 50,
    .addScript "ear" [] 0 false, .ask "cache" (.subscribe "ear")].foldl
    (fun w c => (w.execute c).2) empty).setCache 1 shown

/-- One object changed, something changed where another one stands, and a third one was added. -/
theorem alike_in_any_order_reversed :
    let changes := [.objectChanged 5, .rangeChanged 0 0, .objectAdded 9]
    (changes.foldl Cache.apply shown).Alike (changes.reverse.foldl Cache.apply shown) ∧
    (changes.foldl Cache.apply shown).Alike
      (changes.foldl Cache.apply (changes.foldl Cache.apply shown)) ∧
    ∃ w', Heard deliverToScript 1 overheard changes w' ∧
      (w'.cache? 1).map (·.table.entries.map (·.id)) = some [6] ∧
      (w'.cache? 1).map (·.stats.invalidations) = some 2 := by
  intro changes
  have reachable : shown.Reachable .standard := .query _ _ _ .empty
  have relinked : Relinked _ overheard none :=
    (Arises.empty.executeAll _).linked.relinked_same (.setCache _)
  have listening : overheard.Silent := by
    have checked : (overheard.scripts.all fun s => s.run.isEmpty && !s.failing) = true := by
      decide +kernel
    intro i s at_i
    obtain ⟨lt, rfl⟩ := Array.getElem?_eq_some_iff.1 at_i
    simpa [Script.IsSilent] using Array.all_eq_true.1 checked i lt
  have stacked : overheard.Stacked := by
    have checked : ∀ k < overheard.nodes.size, ∀ b ∈ overheard.home? k, 2 - k < 2 - b := by
      decide +kernel
    refine ⟨fun k => 2 - k, fun k b home => checked k ?_ b home⟩
    obtain ⟨l, here, -⟩ := home?_eq_some_iff.1 home
    exact lt_size_of_layer? here
  have named : overheard.nodeNamed? "cache" = some 1 := by decide +kernel
  have home : overheard.home? 1 = some 0 := by decide +kernel
  obtain ⟨alike, again, handled, hears⟩ :=
    alike_in_any_order reachable (List.reverse_perm changes).symm
  obtain ⟨w', heard⟩ :=
    hears overheard 1 0 relinked.linked listening stacked ⟨"cache", 1, named, .here⟩ home
  have here : overheard.cache? 1 = some shown := rfl
  refine ⟨alike, again, w', heard, ?_, ?_⟩
  · rw [handled _ _ _ _ here heard]
    decide +kernel
  · rw [handled _ _ _ _ here heard]
    decide +kernel

end ReadThrough.Network
