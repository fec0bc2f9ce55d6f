import ReadThrough.Proofs.Cache.Aging
import ReadThrough.Proofs.Recency.Slots

/-!
# Room for the entries of a cache

The entries of a cache lie in the slots of its recency list.  Whatever is done with the cache comes
down to operations on that list, and only where an object of a new identity is stored does one of
them bring an entry.  Before that the cache is never fuller than allowed, so that there is one slot
more than the capacity at most.

* `Cache.slotOps` is what an act does to the list, and `Cache.slotLog` what acts do to it one after
  the other; `Cache.order_replay` that they do nothing else.
* `Cache.Roomy`: there is room before an object is stored.  `Cache.roomy_journal` says so of every
  run.
* `Cache.slots_as_many_as_needed` is the bound for all moments.
-/

namespace ReadThrough

variable {ι α : Type}

/-! ## Operations on the list -/

namespace Table

/-- Whoever has the position gives it up to the entry at `h`. -/
def bindOps (t : Table ι α) (h : Handle) (position : Nat) : List (Recency.Op (Entry ι α)) :=
  match t.positions.get? position with
  | some other => if other ≠ h then [.modify other fun e => { e with position? := none }] else []
  | none => []

/-- The entry at `h` gets a value and a position, and comes to the front. -/
def refreshOps (h : Handle) (value : α) (position? : Option Nat) :
    List (Recency.Op (Entry ι α)) :=
  [.modify h fun e => { e with value := value, position? := position?.or e.position? }, .promote h]

variable [DecidableEq ι]

def insertOps (t : Table ι α) (id : ι) (value : α) (position? : Option Nat) :
    List (Recency.Op (Entry ι α)) :=
  let (ops, h, t) := match t.ofId? id with
    | some h => (refreshOps h value position?, h, t.refresh h value position?)
    | none => ([.push ⟨value, id, position?⟩], t.enroll id value position?)
  ops ++ match position? with
    | some position => t.bindOps h position
    | none => []

def promoteIdOps (t : Table ι α) (id : ι) : List (Recency.Op (Entry ι α)) :=
  match t.ofId? id with
  | some h => [.promote h]
  | none => []

def evictOps (t : Table ι α) : List (Recency.Op (Entry ι α)) :=
  match t.order.oldest? with
  | some h => [.erase h]
  | none => []

def removeIdOps (t : Table ι α) (id : ι) : List (Recency.Op (Entry ι α)) :=
  match t.ofId? id with
  | some h => [.erase h]
  | none => []

def removePositionsOps (t : Table ι α) (first last : Nat) : List (Recency.Op (Entry ι α)) :=
  List.map .erase <|
    if span first last ≤ t.positions.size then t.walkRange first last
    else t.scanRange first last

variable {t : Table ι α} {h : Handle}

omit [DecidableEq ι] in
theorem order_bind (t : Table ι α) (h : Handle) (position : Nat) :
    (t.bind h position).order = t.order.after (t.bindOps h position) := by
  unfold Table.bind bindOps
  cases t.positions.get? position with
  | none => rfl
  | some other =>
    dsimp only
    split <;> rfl

theorem order_insert (t : Table ι α) (id : ι) (value : α) (position? : Option Nat) :
    (t.insert id value position?).2.order = t.order.after (t.insertOps id value position?) := by
  unfold Table.insert insertOps
  cases t.ofId? id with
  | some h =>
    cases position? with
    | none => rfl
    | some position =>
      refine (order_bind _ h position).trans ?_
      rw [Recency.after_append]
      rfl
  | none =>
    cases position? with
    | none => rfl
    | some position =>
      refine (order_bind _ _ position).trans ?_
      rw [Recency.after_append]
      rfl

/-- What is inserted brings one value to the list at most. -/
theorem pushes_insertOps (t : Table ι α) (id : ι) (value : α) (position? : Option Nat) :
    (t.insertOps id value position?).countP Recency.Op.isPush ≤ 1 := by
  have bound (t : Table ι α) (h : Handle) (position : Nat) :
      (t.bindOps h position).countP Recency.Op.isPush = 0 := by
    unfold bindOps
    split
    · split <;> rfl
    · rfl
  have bound? (t : Table ι α) (h : Handle) :
      (match position? with | some position => t.bindOps h position | none => []).countP
        Recency.Op.isPush = 0 := by
    cases position? with
    | some position => exact bound t h position
    | none => rfl
  unfold insertOps
  cases t.ofId? id with
  | some h =>
    rw [List.countP_append, bound?]
    exact Nat.zero_le 1
  | none =>
    rw [List.countP_append, bound?]
    exact Nat.le_refl 1

theorem order_remove (t : Table ι α) (h : Handle) :
    (t.remove h).2.order = (t.order.erase h).2 := by
  unfold Table.remove Recency.erase
  cases t.order.get? h <;> rfl

theorem order_evict (t : Table ι α) : t.evict.2.order = t.order.after t.evictOps := by
  unfold Table.evict evictOps
  cases t.order.oldest? with
  | none => rfl
  | some h => exact t.order_remove h

theorem evict_absent (absent : t.evict.1 = none) : t.evict.2 = t := by
  unfold Table.evict at absent ⊢
  cases oldest : t.order.oldest? with
  | none => rfl
  | some h =>
    rw [oldest] at absent
    dsimp only at absent ⊢
    rw [remove_of_dead ((fst_remove t h).symm.trans absent)]

theorem order_removeId (t : Table ι α) (id : ι) :
    (t.removeId id).2.order = t.order.after (t.removeIdOps id) := by
  unfold Table.removeId removeIdOps
  cases t.ofId? id with
  | none => rfl
  | some h => exact t.order_remove h

theorem order_removeAll (t : Table ι α) (hs : List Handle) :
    (t.removeAll hs).2.order = t.order.after (hs.map .erase) := by
  induction hs generalizing t with
  | nil => rfl
  | cons h hs ih =>
    have removed := t.order_remove h
    change _ = (t.order.erase h).2.after (hs.map .erase)
    rw [← removed, ← ih, Table.removeAll]
    split <;> rename_i eq <;> rw [eq]

end Table

/-- The act stores an object. -/
def Act.isStore : Act ι α → Bool
  | .store _ _ _ => true
  | _ => false

namespace Cache

variable [DecidableEq ι] {c : Cache ι α} {act : Act ι α} {acts acts' : List (Act ι α)}

/-- What the act does to the list of entries. -/
def slotOps (c : Cache ι α) : Act ι α → List (Recency.Op (Entry ι α))
  | .hit id | .promote id => c.table.promoteIdOps id
  | .store id value position? => c.table.insertOps id value position?
  | .evict => c.table.evictOps
  | .hear change =>
    match change with
    | .objectAdded _ => []
    | .objectChanged id => c.table.removeIdOps id
    | .rangeChanged first last => c.table.removePositionsOps first last
    | .objectDeleted _ | .rangeAdded _ _ | .rangeDeleted _ _ | .contentsChanged => [.clear]
  | .clear => [.clear]
  | .learn _ | .miss _ | .fetch _ => []

/-- What the acts, one after the other, do to the list of entries. -/
def slotLog : Cache ι α → List (Act ι α) → List (Recency.Op (Entry ι α))
  | _, [] => []
  | c, act :: acts => c.slotOps act ++ slotLog (c.perform act) acts

theorem order_perform (c : Cache ι α) (act : Act ι α) :
    (c.perform act).table.order = c.table.order.after (c.slotOps act) := by
  have touched (id : ι) :
      (c.touch id).table.order = c.table.order.after (c.table.promoteIdOps id) := by
    unfold touch Table.promoteIdOps
    cases c.table.ofId? id <;> rfl
  cases act with
  | hit id => exact touched id
  | promote id => exact touched id
  | store id value position? => exact c.table.order_insert id value position?
  | evict =>
    change _ = c.table.order.after c.table.evictOps
    rw [← c.table.order_evict, perform]
    split <;> rename_i table eq
    · rw [eq]
      rfl
    · rw [Table.evict_absent (congrArg Prod.fst eq)]
  | hear change =>
    cases change with
    | objectChanged id =>
      change _ = c.table.order.after (c.table.removeIdOps id)
      rw [← c.table.order_removeId, perform, apply]
      split <;> rename_i table eq
      · rw [eq]
        rfl
      · rw [Table.removeId_absent (congrArg Prod.fst eq)]
    | rangeChanged first last => exact c.table.order_removeAll _
    | _ => rfl
  | _ => rfl

theorem order_replay (c : Cache ι α) (acts : List (Act ι α)) :
    (c.replay acts).table.order = c.table.order.after (c.slotLog acts) := by
  induction acts generalizing c with
  | nil => rfl
  | cons act acts ih =>
    rw [replay_cons, ih, order_perform, slotLog, Recency.after_append]

/-- Only where an object is stored an entry is pushed, and then one at most. -/
theorem pushes_slotOps (c : Cache ι α) (act : Act ι α) :
    (c.slotOps act).countP Recency.Op.isPush ≤ if act.isStore then 1 else 0 := by
  have touched (id : ι) : (c.table.promoteIdOps id).countP Recency.Op.isPush ≤ 0 := by
    unfold Table.promoteIdOps
    cases c.table.ofId? id <;> exact Nat.le_refl _
  cases act with
  | hit id => exact touched id
  | promote id => exact touched id
  | store id value position? => exact c.table.pushes_insertOps id value position?
  | evict =>
    change c.table.evictOps.countP Recency.Op.isPush ≤ 0
    unfold Table.evictOps
    cases c.table.order.oldest? <;> exact Nat.le_refl _
  | hear change =>
    cases change with
    | objectChanged id =>
      change (c.table.removeIdOps id).countP Recency.Op.isPush ≤ 0
      unfold Table.removeIdOps
      cases c.table.ofId? id <;> exact Nat.le_refl _
    | rangeChanged first last =>
      change (c.table.removePositionsOps first last).countP Recency.Op.isPush ≤ 0
      rw [Table.removePositionsOps, List.countP_map, Nat.le_zero, List.countP_eq_zero]
      exact fun _ _ => Bool.false_ne_true
    | _ => exact Nat.le_refl _
  | _ => exact Nat.le_refl _

/-! ## Room for an object -/

/-- There is room before an object is stored. -/
def HasRoom (c₀ : Cache ι α) (past : List (Act ι α)) (act : Act ι α) : Prop :=
  act.isStore = true → (c₀.replay past).length ≤ c₀.sizing.capacity

variable {c₀ : Cache ι α} {past : List (Act ι α)}

theorem size_order (wf : c.table.WellFormed) : c.table.order.size = c.length := by
  rw [length, wf.size_eq, (Table.Holds.order wf).size, Table.Holds.entries_eq wf, List.length_map]

theorem length_perform_le (wf : c.table.WellFormed) (other : act.isStore = false) :
    (c.perform act).length ≤ c.length := by
  obtain ⟨r, mirrors⟩ := (Table.Holds.order wf).exists_mirrors
  have pushes := c.pushes_slotOps act
  rw [other, if_neg Bool.false_ne_true] at pushes
  have le := mirrors.size_after_le (c.slotOps act)
  rw [← order_perform, size_order (perform_wellFormed wf act), size_order wf] at le
  exact Nat.le_trans le (Nat.add_le_add_left pushes _)

theorem room_placeActs (wf : c₀.table.WellFormed)
    (within : (c₀.replay past).length ≤ c₀.sizing.capacity) (id : ι) (value : α)
    (position? : Option Nat) :
    Throughout (HasRoom c₀) past ((c₀.replay past).placeActs id value position?) ∧
      (c₀.replay (past ++ (c₀.replay past).placeActs id value position?)).length ≤
        c₀.sizing.capacity := by
  have evicts (past : List (Act ι α)) (k : Nat) :
      Throughout (HasRoom c₀) past (List.replicate k .evict) := by
    induction k generalizing past with
    | zero => trivial
    | succ k ih => exact ⟨fun store => (by cases store), ih _⟩
  refine ⟨⟨fun _ => within, evicts _ _⟩, ?_⟩
  have stored := perform_wellFormed (c := c₀.replay past) (replay_wellFormed wf)
    (.store id value position?)
  rw [replay_append, placeActs, replay_cons, length_replay_evicts stored, replay_sizing]
  change (Table.insert _ id value position?).2.size - _ ≤ _
  omega

theorem room_of_stores (wf : c₀.table.WellFormed) {objects : Nat} (stores : Stores c objects acts)
    (now : c = c₀.replay past) (within : c.length ≤ c₀.sizing.capacity) :
    Throughout (HasRoom c₀) past acts ∧ (c.replay acts).length ≤ c₀.sizing.capacity := by
  induction stores generalizing past with
  | done => exact ⟨trivial, within⟩
  | skip _ ih => exact ih now within
  | place id value position? _ ih =>
    subst now
    obtain ⟨room, kept⟩ := room_placeActs wf within id value position?
    rw [replay_append] at kept
    obtain ⟨rest, full⟩ := ih replay_append.symm kept
    exact ⟨throughout_append room rest, by rwa [replay_append]⟩

/-- Whatever is done in a journal, there is room for it. -/
theorem room_of_phrases (wf : c₀.table.WellFormed) (phrases : Phrases c acts)
    (now : c = c₀.replay past) (within : c.length ≤ c₀.sizing.capacity) :
    Throughout (HasRoom c₀) past acts := by
  induction phrases generalizing past with
  | done => trivial
  | @plain c act acts plain _ ih =>
    have other : act.isStore = false := by
      cases act with
      | store id value position? => cases plain
      | _ => rfl
    have shorter := length_perform_le (now ▸ replay_wellFormed wf) other
    subst now
    refine ⟨fun store => ?_, ih ?_ (Nat.le_trans shorter within)⟩
    · rw [other] at store
      cases store
    · rw [replay_append]
      rfl
  | fetch _ stores _ ih =>
    subst now
    obtain ⟨room, kept⟩ := room_of_stores wf stores replay_append.symm within
    rw [← replay_append] at kept
    refine throughout_append (throughout_append ⟨fun store => ?_, fun store => ?_, trivial⟩ room)
      (ih replay_append.symm kept)
    · cases store
    · cases store

/-! ## Slots at all moments -/

/-- An act for which there is room needs one slot beyond the limit at most. -/
theorem slots_within_act (wf : c.table.WellFormed) {limit : Nat}
    (room : act.isStore = true → c.length ≤ limit)
    (few : c.table.order.slots.size ≤ limit + 1) (n : Nat) :
    (c.table.order.after ((c.slotOps act).take n)).slots.size ≤ limit + 1 := by
  obtain ⟨r, mirrors⟩ := (Table.Holds.order wf).exists_mirrors
  have made := mirrors.size_slots_after_le ((c.slotOps act).take n)
  have pushed : ((c.slotOps act).take n).countP Recency.Op.isPush ≤
      if act.isStore then 1 else 0 :=
    Nat.le_trans (List.take_sublist _ _).countP_le (c.pushes_slotOps act)
  have filled := mirrors.size_slots_eq
  rw [← mirrors.size_eq] at filled
  rw [size_order wf] at made filled
  -- without a store there are no more values than there were slots before
  cases store : act.isStore with
  | true =>
    have within := room store
    rw [store, if_pos rfl] at pushed
    omega
  | false =>
    rw [store, if_neg Bool.false_ne_true] at pushed
    omega

theorem slots_within_acts (wf : c₀.table.WellFormed) (room : Throughout (HasRoom c₀) past acts)
    (few : (c₀.replay past).table.order.slots.size ≤ c₀.sizing.capacity + 1) (n : Nat) :
    ((c₀.replay past).table.order.after (((c₀.replay past).slotLog acts).take n)).slots.size ≤
      c₀.sizing.capacity + 1 := by
  induction acts generalizing past n with
  | nil =>
    rw [slotLog, List.take_nil]
    exact few
  | cons act acts ih =>
    obtain ⟨now, later⟩ := room
    have within := slots_within_act (replay_wellFormed wf) now few
    have next : c₀.replay (past ++ [act]) = (c₀.replay past).perform act := replay_append
    rw [slotLog, List.take_append, Recency.after_append]
    -- the moment is in the midst of the first act, or behind it
    rcases Nat.le_total n ((c₀.replay past).slotOps act).length with early | late
    · rw [Nat.sub_eq_zero_of_le early]
      exact within n
    · have done := within ((c₀.replay past).slotOps act).length
      rw [List.take_length, ← order_perform, ← next] at done
      rw [List.take_of_length_le late, ← order_perform, ← next]
      exact ih later done _

/-- In the journal of a new cache there is room for all that is stored. -/
theorem room_journal (sizing : Sizing) (uses : List (Use ι α)) :
    Throughout (HasRoom (empty sizing)) [] ((empty sizing : Cache ι α).journal uses) :=
  room_of_phrases Table.wellFormed_empty (phrases_journal Table.wellFormed_empty uses) rfl
    (Nat.zero_le _)

/-- **As many slots as are needed.**  In a recency list a slot holds a value or is free, and there
are as many slots as there were values at the moment with the most of them since the list was last
cleared.  What any run does to the list of a cache comes down to operations on it, and at no moment
of them the list has more than one slot beyond the capacity. -/
theorem slots_as_many_as_needed {β : Type} (sizing : Sizing) :
    (∀ ops : List (Recency.Op β),
      let l := (∅ : Recency β).after ops
      l.size = l.population ∧
      l.slots.size = l.population + l.free.length ∧
      IsGreatest (Recency.populations ops) l.slots.size) ∧
    ∀ uses : List (Use ι α),
      let new : Cache ι α := empty sizing
      let log := new.slotLog (new.journal uses)
      (new.run uses).table.order = (∅ : Recency (Entry ι α)).after log ∧
      ∀ moment,
        ((∅ : Recency (Entry ι α)).after (log.take moment)).slots.size ≤ sizing.capacity + 1 := by
  refine ⟨fun ops => ?_, fun uses => ⟨?_, fun moment => ?_⟩⟩
  · have stands := Recency.mirrors_empty.after ops
    exact ⟨stands.size_eq, stands.size_slots_eq, Recency.isGreatest_populations ops⟩
  · rw [run_eq Table.wellFormed_empty, order_replay]
    rfl
  · exact slots_within_acts Table.wellFormed_empty (room_journal sizing uses) (Nat.zero_le _) moment

end Cache

end ReadThrough
