import ReadThrough.Proofs.Network.Attachment
import ReadThrough.Proofs.Tower.Itinerary

/-!
# What attached caches hear

Only an announcement of its home reaches an attached cache, and each of them does so once,
however many listeners carry out commands in between.  A retired cache is reached by none.

* `Network.toldTo` are the changes that a cache is told in the course of an agenda, and
  `Steps.perm_toldTo` says that they are those announced by its home.
* `Steps.cache?_eq` and `Steps.perm_announcedBy`: where listeners only listen, a cache handles
  exactly what it is told, and announces exactly this.
-/

namespace ReadThrough

variable {ι α : Type}

theorem filterMap_cons_toList {β γ : Type} (f : β → Option γ) (a : β) (as : List β) :
    (a :: as).filterMap f = (f a).toList ++ as.filterMap f := by
  rw [List.filterMap_cons]
  cases f a <;> rfl

/-- What the errand tells the cache at node `n`. -/
def Errand.tells? (n : NodeId) : Errand ι α → Option (Change ι)
  | .deliver (.cache m) change => if m = n then some change else none
  | _ => none

/-- What the errand lets node `n` announce. -/
def Errand.announces? (n : NodeId) : Errand ι α → Option (Change ι)
  | .announce m change => if m = n then some change else none
  | _ => none

namespace Network

variable {w w' w₁ : Network ι α} {n m k : NodeId} {l : Layer ι α} {change : Change ι}
variable {errand next : Errand ι α} {agenda : List (Errand ι α)} {moments : List (Moment ι α)}

/-- What a cache is told, in order. -/
def toldTo (n : NodeId) (moments : List (Moment ι α)) : List (Change ι) :=
  moments.filterMap fun moment => moment.2.tells? n

/-- What the home of a cache announces, in order. -/
def announcedFrom (home : Option NodeId) (moments : List (Moment ι α)) : List (Change ι) :=
  home.elim [] fun m => announcedBy m moments

/-- What a cache holds. -/
def cache? (w : Network ι α) (n : NodeId) : Option (Cache ι α) := (w.layer? n).map (·.cache)

/-- What an errand that is not a command leaves to do. -/
inductive Leaves (w : Network ι α) : Errand ι α → Errand ι α → Prop
  | call {m : NodeId} {change : Change ι} {s : Subscriber} : s ∈ (w.registry m).calls →
    Leaves w (.announce m change) (.deliver s change)
  | pass {n : NodeId} {change : Change ι} :
    Leaves w (.deliver (.cache n) change) (.announce n change)
  | settle {n : NodeId} {change : Change ι} : Leaves w (.deliver (.cache n) change) (.settle n)
  | command {i : Nat} {change : Change ι} {s : Script ι α} {c : Command ι α} :
    w.scripts[i]? = some s → c ∈ s.run →
    Leaves w (.deliver (.script i) change) (.perform s.name c)

/-! ## What errands leave -/

theorem tells?_deliveries (subscribers : List Subscriber) :
    (subscribers.map fun s => (.deliver s change : Errand ι α)).filterMap (Errand.tells? n) =
      List.replicate (subscribers.count (.cache n)) change := by
  induction subscribers with
  | nil => rfl
  | cons s subscribers ih =>
    rw [List.map_cons, List.filterMap_cons, ih, List.count_cons]
    cases s with
    | script i => rfl
    | cache m =>
      by_cases same : m = n
      · subst same
        simp [Errand.tells?, List.replicate_succ]
      · simp [Errand.tells?, same]

variable [DecidableEq ι] [ToString ι]

theorem leaves_of_mem (silent : errand.performs = false) (left : next ∈ (w.advance errand).2.2) :
    w.Leaves errand next := by
  have none : next ∉ ([] : List (Errand ι α)) := List.not_mem_nil
  cases errand with
  | announce m change =>
    obtain ⟨s, called, rfl⟩ : ∃ s ∈ (w.registry m).calls, .deliver s change = next :=
      List.mem_map.1 left
    exact .call called
  | deliver recipient change =>
    cases recipient with
    | cache n =>
      rw [Network.advance, deliverToCache] at left
      split at left
      · exact absurd left none
      · split at left
        · exact absurd left none
        · rcases List.mem_pair.1 left with rfl | rfl
          · exact .pass
          · exact .settle
    | script i =>
      rw [Network.advance, deliverToScript] at left
      split at left
      · exact absurd left none
      · rename_i s at_i
        dsimp only at left
        split at left
        · exact absurd left none
        · split at left
          · exact absurd left none
          · obtain ⟨c, mem, rfl⟩ := List.mem_map.1 left
            exact .command at_i mem
  | perform script command => cases silent
  | note entry => exact absurd left none
  | settle m => exact absurd left none
  | unpin count => exact absurd left none

omit [DecidableEq ι] [ToString ι] in
theorem tells?_announcements (changes : List (Change ι)) (count : Nat) :
    (changes.map (Errand.announce m) ++ [(Errand.unpin count : Errand ι α)]).filterMap
      (Errand.tells? n) = [] := by
  refine List.filterMap_eq_nil_iff.2 fun errand mem => ?_
  rcases List.mem_append.1 mem with mem | mem
  · obtain ⟨change, -, rfl⟩ := List.mem_map.1 mem
    rfl
  · cases List.mem_singleton.1 mem
    rfl

/-- The first step of a command tells no cache anything. -/
theorem tells?_perform (c : Command ι α) :
    (w.perform c).2.2.filterMap (Errand.tells? n) = [] := by
  have write : ∀ k name (u : Update α),
      (w.write k name u).2.2.filterMap (Errand.tells? n) = [] := by
    intro k name u
    rw [write_eq]
    split
    · rfl
    · unfold writeShelf
      dsimp only
      split
      · rfl
      · exact tells?_announcements _ _
  cases c with
  | addCache name below capacity chunk =>
    rw [perform]
    split <;> rfl
  | ask name op =>
    rw [perform]
    split
    · rfl
    · split
      · rename_i k _ node _
        unfold operate
        split
        · split <;> rfl
        · split <;> rfl
        · exact tells?_announcements _ _
        · rfl
        · rfl
        · rfl
        · rfl
        · rfl
        · rfl
        · rfl
        · exact write _ _ _
        · exact write _ _ _
        · rfl
        · split
          · unfold askShelf
            split <;> first | rfl | exact tells?_announcements _ _
          · unfold askCache
            split <;> try rfl
            split
            · exact tells?_announcements _ _
            · rfl
          · rfl
      · rfl
  | _ => rfl

/-- An announcement tells the caches attached to the node, each once; nothing else leads to a
cache being told. -/
theorem Linked.tells?_advance (linked : w.Linked) (errand : Errand ι α) :
    (w.advance errand).2.2.filterMap (Errand.tells? n) =
      announcedFrom (w.home? n) [(w, errand)] := by
  have silent : ∀ home : Option NodeId, (∀ m, errand.announces? m = none) →
      announcedFrom home [(w, errand)] = [] := by
    intro home none
    cases home with
    | none => rfl
    | some m =>
      have single : announcedBy m [(w, errand)] = (errand.announces? m).toList := by
        cases errand <;> rfl
      rw [announcedFrom, Option.elim_some, single, none]
      rfl
  cases errand with
  | announce m change =>
    have once := linked.attached n m
    rw [Network.advance, Registry.calls, tells?_deliveries, List.count_reverse, once]
    cases home : w.home? n with
    | none => rfl
    | some b =>
      rw [announcedFrom, Option.elim_some]
      by_cases same : b = m
      · subst same
        simp [announcedBy]
      · simp [announcedBy, same, Ne.symm same]
  | deliver recipient change =>
    rw [silent _ fun _ => rfl]
    refine List.filterMap_eq_nil_iff.2 fun next left => ?_
    cases leaves_of_mem rfl left <;> rfl
  | perform script command =>
    rw [silent _ fun _ => rfl, Network.advance]
    dsimp only
    rw [List.filterMap_append, tells?_perform]
    rfl
  | note entry => rw [silent _ fun _ => rfl]; rfl
  | settle m => rw [silent _ fun _ => rfl]; rfl
  | unpin count => rw [silent _ fun _ => rfl]; rfl

/-! ## What attached caches are told -/

omit [DecidableEq ι] [ToString ι] in
theorem announcedFrom_cons (home : Option NodeId) (moment : Moment ι α) :
    announcedFrom home (moment :: moments) =
      announcedFrom home [moment] ++ announcedFrom home moments := by
  cases home with
  | none => rfl
  | some m => exact announcedBy_append m [moment] moments

/-- While a cache stays with its home, it is told what was on its way to it and what its home
announces, each once. -/
theorem Steps.perm_toldTo {home : Option NodeId} (steps : Steps w agenda moments w')
    (linked : w.Linked) (stays : ∀ moment ∈ moments, moment.1.home? n = home) :
    (toldTo n moments).Perm
      (agenda.filterMap (Errand.tells? n) ++ announcedFrom home moments) := by
  induction steps with
  | done => cases home <;> exact .refl _
  | @step w w₁ w' errand more agenda moments advanced _ ih =>
    obtain ⟨now, later⟩ := List.forall_mem_cons.1 stays
    have linked₁ := linked.advance errand
    have arrived := linked.tells?_advance (n := n) errand
    rw [advanced] at linked₁ arrived
    dsimp only at now arrived
    have rest := ih linked₁ later
    rw [List.filterMap_append, arrived, now, List.append_assoc] at rest
    rw [toldTo, filterMap_cons_toList, filterMap_cons_toList,
      announcedFrom_cons home (w, errand), List.append_assoc]
    -- what the home announces now is told later, but the cache hears of it in any case
    exact (rest.trans (List.perm_append_comm_assoc ..)).append_left _

/-! ## What they hold -/

omit [DecidableEq ι] [ToString ι] in
theorem cache?_retire (k : NodeId) : (w.retire k).cache? n = w.cache? n := by
  cases here : w.layer? k with
  | none => rw [retire, here]
  | some l =>
    rw [cache?, cache?, layer?_retire here]
    split
    · rw [Option.map_map]
      rfl
    · rfl

omit [DecidableEq ι] [ToString ι] in
theorem cache?_sweep : w.sweep.cache? n = w.cache? n :=
  sweepLoop_keeps (f := fun w => w.cache? n) (fun _ => cache?_retire) _

omit [DecidableEq ι] [ToString ι] in
theorem cache?_modifyLayer {f : Layer ι α → Layer ι α}
    (cache : n = k → ∀ l, (f l).cache = l.cache) :
    (w.modifyLayer k f).cache? n = w.cache? n := by
  rw [cache?, cache?, layer?_modifyLayer]
  split
  · rename_i same
    rw [Option.map_map]
    exact congrArg (Option.map · _) (funext (cache same.symm))
  · rfl

/-- What a cache holds does not change with errands that neither tell it anything nor are
commands. -/
theorem cache?_advance (silent : errand.performs = false) (untold : errand.tells? n = none) :
    (w.advance errand).2.1.cache? n = w.cache? n := by
  cases errand with
  | announce m change => rfl
  | deliver recipient change =>
    cases recipient with
    | cache m =>
      have other : n ≠ m := by
        rintro rfl
        rw [Errand.tells?, if_pos rfl] at untold
        cases untold
      rw [advance, deliverToCache]
      split
      · rfl
      · rename_i l here
        split
        · rfl
        · have called := cache?_modifyLayer (w := w) (n := n) (k := m)
            (f := fun l => { l with cache := l.cache.apply change, busy := l.busy + 1 })
            fun same => absurd same other
          rwa [modifyLayer_eq here] at called
    | script i =>
      rw [advance, deliverToScript]
      split
      · rfl
      · dsimp only
        split
        · rfl
        · split <;> rfl
  | perform script command => cases silent
  | note entry => rfl
  | settle m =>
    rw [advance]
    exact cache?_sweep.trans (cache?_modifyLayer fun _ _ => rfl)
  | unpin count =>
    rw [advance]
    exact cache?_sweep

/-- An attached cache that is told a change handles it and is to announce it next. -/
theorem advance_told {b : NodeId} (home : w.home? n = some b) :
    (w.advance (.deliver (.cache n) change)).2.1.cache? n =
        (w.cache? n).map (·.apply change) ∧
      (w.advance (.deliver (.cache n) change)).2.2 = [.announce n change, .settle n] := by
  obtain ⟨l, here, stays, -⟩ := home?_eq_some_iff.1 home
  rw [advance, deliverToCache, here]
  dsimp only
  rw [Layer.isGone_of_retired stays]
  refine ⟨?_, rfl⟩
  rw [cache?, cache?, here]
  change ((w.setBody n _).layer? n).map _ = _
  rw [layer?_setBody _ (lt_size_of_layer? here), if_pos rfl]
  rfl

omit [DecidableEq ι] [ToString ι] in
theorem eq_deliver_of_tells? (told : errand.tells? n = some change) :
    errand = .deliver (.cache n) change := by
  unfold Errand.tells? at told
  split at told
  · split at told
    · rename_i same
      rw [same, Option.some.inj told]
    · cases told
  · cases told

/-- Where no listener carries out a command, an attached cache holds afterwards what the
changes it was told leave of what it held before. -/
theorem Steps.cache?_eq (steps : Steps w agenda moments w')
    (silent : ∀ moment ∈ moments, moment.2.performs = false)
    (attached : ∀ moment ∈ moments, moment.2.tells? n ≠ none → moment.1.home? n ≠ none) :
    w'.cache? n = (w.cache? n).map fun c => (toldTo n moments).foldl Cache.apply c := by
  induction steps with
  | @done w => cases w.cache? n <;> rfl
  | @step w w₁ w' errand more agenda moments advanced _ ih =>
    obtain ⟨quiet, silent'⟩ := List.forall_mem_cons.1 silent
    obtain ⟨now, attached'⟩ := List.forall_mem_cons.1 attached
    have state : w₁ = (w.advance errand).2.1 := by rw [advanced]
    rw [ih silent' attached', state, toldTo, toldTo, filterMap_cons_toList]
    dsimp only at quiet now ⊢
    cases told : errand.tells? n with
    | none =>
      rw [cache?_advance quiet told]
      rfl
    | some change =>
      obtain ⟨b, home⟩ := Option.ne_none_iff_exists'.1 (now (by rw [told]; exact nofun))
      rw [eq_deliver_of_tells? told, (advance_told home).1, Option.map_map]
      rfl

/-! ## What they announce -/

/-- A cache is to announce what it is told, and nothing else leads to announcements but
commands. -/
theorem announces?_advance (silent : errand.performs = false)
    (attached : errand.tells? n ≠ none → w.home? n ≠ none) :
    (w.advance errand).2.2.filterMap (Errand.announces? n) = (errand.tells? n).toList := by
  cases told : errand.tells? n with
  | some change =>
    obtain ⟨b, home⟩ := Option.ne_none_iff_exists'.1 (attached (by rw [told]; exact nofun))
    rw [eq_deliver_of_tells? told, (advance_told home).2]
    simp [Errand.announces?]
  | none =>
    refine List.filterMap_eq_nil_iff.2 fun next left => ?_
    cases leaves_of_mem silent left with
    | pass =>
      refine if_neg fun same => ?_
      rw [same, Errand.tells?, if_pos rfl] at told
      cases told
    | _ => rfl

omit [DecidableEq ι] [ToString ι] in
theorem announcedBy_cons : announcedBy n ((w, errand) :: moments) =
    (errand.announces? n).toList ++ announcedBy n moments := by
  rw [announcedBy, announcedBy, filterMap_cons_toList]
  cases errand <;> rfl

/-- Where no listener carries out a command, a cache announces what it was about to and what it
is told, each once. -/
theorem Steps.perm_announcedBy (steps : Steps w agenda moments w')
    (silent : ∀ moment ∈ moments, moment.2.performs = false)
    (attached : ∀ moment ∈ moments, moment.2.tells? n ≠ none → moment.1.home? n ≠ none) :
    (announcedBy n moments).Perm
      (agenda.filterMap (Errand.announces? n) ++ toldTo n moments) := by
  induction steps with
  | done => exact .refl _
  | @step w w₁ w' errand more agenda moments advanced _ ih =>
    obtain ⟨quiet, silent'⟩ := List.forall_mem_cons.1 silent
    obtain ⟨now, attached'⟩ := List.forall_mem_cons.1 attached
    have passed := announces?_advance quiet now
    rw [advanced] at passed
    dsimp only at passed
    have rest := ih silent' attached'
    rw [List.filterMap_append, passed, List.append_assoc] at rest
    rw [announcedBy_cons, filterMap_cons_toList, toldTo, filterMap_cons_toList, List.append_assoc]
    exact (rest.trans (List.perm_append_comm_assoc ..)).append_left _

end Network

end ReadThrough
