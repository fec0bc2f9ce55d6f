import ReadThrough.Proofs.Network.Reach

/-!
# The subscriptions of caches

Caches are made, attached elsewhere and let go of while listeners come and go, and all of this
may happen in the middle of announcements.  At every moment a cache is registered with the one
node it is attached to, if it is attached at all.  What others subscribed to is no concern of
caches, and no node is of concern to a cache any more when it has left it.

A cache with a name is attached to the node that it reads from, and so is one below it.  A new
cache is attached to the node named with it, and one that is attached elsewhere to the node
named then.  One that nothing holds after a name is dropped is registered nowhere.  While a
cache stays with its home, it is told what its home announces no matter what listeners do.

* `Network.listeners` are the listeners of a node, in the order of their registration, and
  `Network.relisted` is what a moment makes of them.
* `Linked.listeners_drain`: commands that register or remove listeners change them, and nothing
  else does.
* `Network.attached_once` puts together what holds of attached caches.
-/

namespace ReadThrough

variable {ι α : Type}

/-- The errand is a command that registers or removes a listener. -/
def Errand.registers : Errand ι α → Bool
  | .perform _ c => c.registers
  | _ => false

namespace Network

variable {w w' : Network ι α} {n m : NodeId} {agenda : List (Errand ι α)} {errand : Errand ι α}

/-- The listeners of a node. -/
def listeners (w : Network ι α) (m : NodeId) : Registry Subscriber :=
  ⟨(w.registry m).members.filter fun s => !s.isCache⟩

/-- What a moment makes of the listeners of a node. -/
def relisted (m : NodeId) (r : Registry Subscriber) (moment : Moment ι α) : Registry Subscriber :=
  match moment.2 with
  | .perform _ (.ask name operation) =>
    if moment.1.nodeNamed? name = some m then
      match operation with
      | .subscribe script => (moment.1.scriptNamed? script).elim r fun i => r.add (.script i)
      | .unsubscribe script =>
        (moment.1.scriptNamed? script).elim r fun i => (r.remove (.script i)).2
      | _ => r
    else r
  | _ => r

theorem relisted_of_silent {r : Registry Subscriber} (silent : errand.registers = false) :
    relisted m r (w, errand) = r := by
  cases errand with
  | perform script c =>
    cases c with
    | ask name operation =>
      unfold relisted
      dsimp only
      split
      · cases operation with
        | subscribe _ | unsubscribe _ => cases silent
        | _ => rfl
      · rfl
    | _ => rfl
  | _ => rfl

theorem KeepsOthers.listeners_eq {except : Option NodeId} (keeps : w.KeepsOthers w' except)
    (m : NodeId) : w'.listeners m = w.listeners m :=
  congrArg Registry.mk (keeps _ (fun _ mem => by cases mem) m)

theorem listeners_subscribe (lt : n < w.nodes.size) (i : Nat) :
    (w.subscribe n (.script i)).listeners m =
      if n = m then (w.listeners m).add (.script i) else w.listeners m := by
  rw [listeners, registry_subscribe lt]
  split
  · rw [Registry.add, List.filter_append]
    rfl
  · rfl

theorem listeners_unsubscribe (lt : n < w.nodes.size) (i : Nat) :
    (w.unsubscribe n (.script i)).2.listeners m =
      if n = m then ((w.listeners m).remove (.script i)).2 else w.listeners m := by
  rw [listeners, registry_unsubscribe lt]
  split
  · rw [Registry.remove, listeners, Registry.remove]
    dsimp only
    rw [List.filter_reverse, ← List.erase_filter, List.filter_reverse]
  · rfl

theorem listeners_retire : (w.retire n).listeners m = w.listeners m := by
  cases here : w.layer? n with
  | none => rw [retire, here]
  | some l =>
    rw [retire_eq here, listeners, registry_modifyLayer]
    by_cases lt : l.below < w.nodes.size
    · rw [registry_unsubscribe lt]
      split
      · rw [Registry.filter_remove rfl]
        rfl
      · rfl
    · have absent : w.node? l.below = none := node?_eq_none (Nat.le_of_not_lt lt)
      have same : (w.unsubscribe l.below (.cache n)).2.registry m = w.registry m := by
        rw [unsubscribe, registry_eq]
        dsimp only
        rw [node?_modify, registry_eq]
        split
        · rename_i here
          rw [← here, absent]
          rfl
        · rfl
      rw [same]
      rfl

theorem listeners_sweepLoop (rounds : Nat) :
    (sweepLoop rounds w).listeners m = w.listeners m :=
  sweepLoop_keeps (f := fun w => w.listeners m) (fun _ _ => listeners_retire) rounds

variable [DecidableEq ι] [ToString ι]

/-- Caches that are told, and whatever else is not a command, leave listeners registered as they
are. -/
theorem listeners_of_silent (silent : errand.performs = false) :
    (w.advance errand).2.1.listeners m = w.listeners m := by
  obtain ⟨w₁, same, rfl | swept⟩ := sameLinks_advance (w := w) silent
  · rw [listeners, same.registry]
    rfl
  · rw [swept, sweep, listeners_sweepLoop, listeners, same.registry]
    rfl

/-- Only commands that register or remove listeners change those of a node. -/
theorem Linked.listeners_advance (linked : w.Linked) (errand : Errand ι α) :
    (w.advance errand).2.1.listeners m = relisted m (w.listeners m) (w, errand) := by
  cases performs : errand.performs with
  | false =>
    rw [listeners_of_silent performs]
    cases errand with
    | perform _ _ => cases performs
    | _ => rfl
  | true =>
    cases errand with
    | perform script c =>
      cases registers : c.registers with
      | false =>
        have silent : (Errand.perform script c).registers = false := registers
        rw [relisted_of_silent silent]
        exact (linked.relinked_perform registers).others.listeners_eq m
      | true =>
        cases c with
        | ask name operation =>
          change (w.perform (.ask name operation)).2.1.listeners m = _
          rw [Network.perform, relisted]
          dsimp only
          cases found : w.nodeNamed? name with
          | none => rfl
          | some n =>
            have lt := (linked.wired.named _ n found).1
            have at_n : w.node? n = some w.nodes[n] := Array.getElem?_eq_getElem lt
            dsimp only
            rw [at_n]
            simp only [Option.some_inj]
            cases operation with
            | subscribe s =>
              rw [Network.operate]
              dsimp only
              cases w.scriptNamed? s with
              | none => exact (ite_self _).symm
              | some i => exact listeners_subscribe lt i
            | unsubscribe s =>
              rw [Network.operate]
              dsimp only
              cases w.scriptNamed? s with
              | none => exact (ite_self _).symm
              | some i => exact listeners_unsubscribe lt i
            | _ => cases registers
        | _ => cases registers
    | _ => cases performs

theorem listeners_cleanUp (errands : List (Errand ι α)) :
    (w.cleanUp errands).listeners m = w.listeners m := by
  refine cleanUp_keeps (f := fun w => w.listeners m) (fun w errand cleans => ?_) errands
  cases errand with
  | settle _ | unpin _ => exact listeners_of_silent rfl
  | _ => cases cleans

/-- However far an agenda gets, and whether or not a listener fails, all that commands make of
the listeners of a node is kept, and nothing else changes them. -/
theorem Linked.listeners_drain (linked : w.Linked) (rounds : Nat) (agenda : List (Errand ι α)) :
    (drain rounds w agenda).2.listeners m =
      (itinerary rounds w agenda).foldl (relisted m) (w.listeners m) := by
  induction rounds generalizing w agenda with
  | zero => rfl
  | succ rounds ih =>
    cases agenda with
    | nil => rfl
    | cons errand agenda =>
      have linked₁ := linked.advance errand
      have now := linked.listeners_advance (m := m) errand
      rw [Network.drain, itinerary, List.foldl_cons, ← now]
      rcases step : w.advance errand with ⟨failure, w₁, more⟩
      rw [step] at linked₁
      cases failure with
      | none => exact ih linked₁ _
      | some message => exact listeners_cleanUp _

/-- What holds of the caches in a network, after any commands and in the middle of any
announcements: a cache that is attached is registered once with its home, the node it reads
from, and nowhere else; other subscribers stay as they are; and what its home announces is told
to it, handled and passed on once, whereas no other node has an effect on it. -/
theorem attached_once (arises : w.Arises) :
    (∀ name n l, w.nodeNamed? name = some n → w.layer? n = some l →
      w.home? n = some l.below) ∧
    (∀ n b l, w.home? n = some b → w.layer? b = some l → w.home? b = some l.below) ∧
    (∀ name below capacity chunk sizing b, Sizing.ofCounts capacity chunk = .ok sizing →
      w.nodeNamed? below = some b →
      let w' := (w.perform (.addCache name below capacity chunk)).2.1
      w'.nodeNamed? name = some w.nodes.size ∧ w'.home? w.nodes.size = some b) ∧
    (∀ name below n l b, w.nodeNamed? name = some n → w.layer? n = some l →
      w.nodeNamed? below = some b →
      (w.perform (.ask name (.attach below))).2.1.home? n = some b) ∧
    (∀ n m, (w.registry m).members.count (.cache n) = if w.home? n = some m then 1 else 0) ∧
    (∀ name n m, (w.perform (.drop name)).2.1.isHeld n = false →
      .cache n ∉ ((w.perform (.drop name)).2.1.registry m).members) ∧
    (∀ c, c.registers = false → w.KeepsOthers (w.perform c).2.1 (w.mover? c)) ∧
    (∀ errand, errand.performs = false → w.KeepsOthers (w.advance errand).2.1 none) ∧
    (∀ rounds agenda, (∀ moment ∈ itinerary rounds w agenda, moment.2.registers = false) →
      ∀ m, (drain rounds w agenda).2.listeners m = w.listeners m) ∧
    (∀ agenda moments w' n home, Steps w agenda moments w' →
      (∀ errand ∈ agenda, errand.tells? n = none) →
      (∀ moment ∈ moments, moment.1.home? n = home) →
      (toldTo n moments).Perm (announcedFrom home moments)) ∧
    (∀ n m change rounds, ¬w.Over m n →
      let moments := itinerary rounds w [.announce m change]
      (∀ moment ∈ moments, moment.2.performs = false) →
      toldTo n moments = [] ∧ announcedBy n moments = [] ∧
        (drain rounds w [.announce m change]).2.cache? n = w.cache? n) ∧
    ∀ n m change, w.Silent → w.Stacked → w.InUse n → w.home? n = some m →
      ∃ moments w', Steps w [.announce m change] moments w' ∧ toldTo n moments = [change] ∧
        announcedBy n moments = [change] ∧
        w'.cache? n = (w.cache? n).map (·.apply change) := by
  have linked := arises.linked
  refine ⟨fun name n l named here => ?_, fun n b l home here => ?_,
    fun _ _ _ _ _ _ sized found => home?_addCache linked sized found,
    fun _ _ _ _ _ named here found => home?_attach linked named here found, linked.attached,
    fun name n m unheld mem => ?_, fun c silent => (linked.relinked_perform silent).others,
    fun errand silent => (linked.relinked_advance silent).others,
    fun rounds agenda silent m => ?_,
    fun agenda moments w' n home steps untold stays => ?_,
    fun n m change rounds out silent => linked.unmoved out silent,
    fun n m change silent stacked inUse home =>
      linked.handled_once silent stacked inUse home change⟩
  · exact home?_eq here ((linked.wired.named name n named).2 l here)
  · obtain ⟨l', at_n, stays, rfl⟩ := home?_eq_some_iff.1 home
    exact home?_eq here (linked.wired.below_stays at_n stays l here)
  · have count := List.count_pos_iff.2 mem
    rw [(linked.perform (.drop name)).attached] at count
    split at count
    · rename_i home
      have held := isHeld_sweep home
      exact Bool.false_ne_true (unheld.symm.trans held)
    · cases count
  · rw [linked.listeners_drain, List.foldl_ext _ (fun r _ => r) _ fun r moment mem =>
      relisted_of_silent (silent moment mem)]
    exact List.foldl_fixed' (fun _ => rfl) _
  · have told := steps.perm_toldTo linked stays
    rwa [List.filterMap_eq_nil_iff.2 untold] at told

/-- A cache over one shelf is attached to another one; the same listener hears of the cache
and of both shelves. -/
def resettled : Network Nat Nat :=
  [.addShelf "former" [7, 8] some, .addShelf "present" [5] some,
    .addCache "cache" "former" 2 1, .addScript "ear" [] 0 false,
    .ask "former" (.subscribe "ear"), .ask "cache" (.subscribe "ear"),
    .ask "present" (.subscribe "ear"), .ask "cache" (.get 0),
    .ask "cache" (.attach "present"), .ask "cache" (.get 0)].foldl
    (fun w c => (w.execute c).2) empty

theorem attached_once_resettled :
    (resettled.registry 0).members.count (.cache 2) = 0 ∧
    (resettled.registry 1).members.count (.cache 2) = 1 ∧
    (drain 9 resettled [.announce 0 .contentsChanged]).2.cache? 2 = resettled.cache? 2 ∧
    ∃ moments w', Steps resettled [.announce 1 .contentsChanged] moments w' ∧
      toldTo 2 moments = [.contentsChanged] ∧ announcedBy 2 moments = [.contentsChanged] ∧
      (resettled.cache? 2).map (·.table.size) = some 1 ∧
      (w'.cache? 2).map (·.table.size) = some 0 := by
  have arises : resettled.Arises := Arises.empty.executeAll _
  have home : resettled.home? 2 = some 1 := by decide +kernel
  have listening : resettled.Silent := by
    have checked : (resettled.scripts.all fun s => s.run.isEmpty && !s.failing) = true := by
      decide +kernel
    intro i s at_i
    obtain ⟨lt, rfl⟩ := Array.getElem?_eq_some_iff.1 at_i
    simpa [Script.IsSilent] using Array.all_eq_true.1 checked i lt
  have stacked : resettled.Stacked := by
    have checked : ∀ k < resettled.nodes.size, ∀ b ∈ resettled.home? k, 2 - k < 2 - b := by
      decide +kernel
    refine ⟨fun k => 2 - k, fun k b home => checked k ?_ b home⟩
    obtain ⟨l, here, -⟩ := home?_eq_some_iff.1 home
    exact lt_size_of_layer? here
  have named : resettled.nodeNamed? "cache" = some 2 := by decide +kernel
  have out : ¬resettled.Over 0 2 :=
    not_over_of_plain home (by decide +kernel) (by decide) (by decide)
  have quiet : ((itinerary 9 resettled [.announce 0 .contentsChanged]).all
      fun moment => !moment.2.performs) = true := by decide +kernel
  obtain ⟨-, -, -, -, once, -, -, -, -, -, former, present⟩ := attached_once arises
  obtain ⟨-, -, kept⟩ := former 2 0 .contentsChanged 9 out fun moment mem =>
    by simpa using List.all_eq_true.1 quiet moment mem
  obtain ⟨moments, w', steps, told, announced, handled⟩ :=
    present 2 1 .contentsChanged listening stacked ⟨"cache", 2, named, .here⟩ home
  refine ⟨?_, ?_, kept, moments, w', steps, told, announced, by decide +kernel, ?_⟩
  · rw [once, home]
    rfl
  · rw [once, home]
    rfl
  · rw [handled]
    decide +kernel

end Network

end ReadThrough
