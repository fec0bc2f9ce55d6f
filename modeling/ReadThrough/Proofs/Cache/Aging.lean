import ReadThrough.Proofs.Cache.Phrases
import ReadThrough.Shelf

/-!
# The order of use

An act touches an entry if the entry is looked up with success, inserted, refreshed or asked
for.  The entries of a cache are in the order in which they were touched last, whatever else
was done in between, so that the one which is evicted has been idle for longest.

* `Cache.idle` is how many acts ago an entry was touched.
* `Cache.Ordered` says that the most recently touched entries come first;
  `Cache.ordered_perform` that no act disturbs this.
* `Cache.apt_of_phrases`: what makes room is done right after the object that needs the room
  was stored.
-/

namespace ReadThrough

variable {ι α : Type}

/-- The entry that the act makes the most recently used one. -/
def Act.touched? : Act ι α → Option ι
  | .hit id | .store id _ _ | .promote id => some id
  | _ => none

def Act.isEvict : Act ι α → Bool
  | .evict => true
  | _ => false

namespace Cache

/-- The identities of the cached objects, in order of use. -/
def identities (c : Cache ι α) : List ι := c.table.entries.map (·.id)

variable [DecidableEq ι] {c : Cache ι α} {e : Entry ι α} {id id' : ι} {act : Act ι α}
  {acts past : List (Act ι α)}

/-! ## What an act does to the order -/

omit [DecidableEq ι] in
theorem mem_identities_iff : id ∈ c.identities ↔ ∃ e ∈ c.table.entries, e.id = id :=
  List.mem_map

theorem coversId_iff (wf : c.table.WellFormed) : c.coversId id = true ↔ id ∈ c.identities := by
  rw [coversId, mem_identities_iff, Option.isSome_iff_ne_none, ne_eq, wf.ofId?_eq_none_iff]
  push Not
  rfl

/-- The entry comes to the front and the others stay as they are. -/
def Fronts (id : ι) (before after : List ι) : Prop := after = id :: before.filter (· ≠ id)

theorem fronts_touch (wf : c.table.WellFormed) (covered : id ∈ c.identities) :
    Fronts id c.identities (c.touch id).identities := by
  obtain ⟨e, mem, rfl⟩ := mem_identities_iff.1 covered
  rw [Fronts, identities, entries_touch wf mem, List.map_cons, identities, List.filter_map]
  rfl

theorem fronts_store (wf : c.table.WellFormed) (id : ι) (value : α) (position? : Option Nat) :
    Fronts id c.identities (c.perform (.store id value position?)).identities := by
  have entries : (c.perform (.store id value position?)).table.entries = _ :=
    wf.entries_insert id value position?
  rw [Fronts, identities, entries, List.map_cons, List.map_map, identities, List.filter_map]
  congr 1
  exact List.map_congr_left fun x _ => Entry.vacate_id position? x

/-- An act that touches no entry leaves the remaining ones in order. -/
theorem entries_perform_sublist (wf : c.table.WellFormed) (untouched : act.touched? = none) :
    (c.perform act).table.entries.Sublist c.table.entries := by
  cases act with
  | hit id => cases untouched
  | store id value position? => cases untouched
  | promote id => cases untouched
  | learn size => exact List.Sublist.refl _
  | miss lookups => exact List.Sublist.refl _
  | fetch objects => exact List.Sublist.refl _
  | evict =>
    rcases List.eq_nil_or_concat c.table.entries with empty | ⟨es, e, last⟩
    · rw [perform_evict_nil wf empty]
    · rw [List.concat_eq_append] at last
      obtain ⟨-, rest, -⟩ := perform_evict wf last
      rw [rest, last]
      exact List.sublist_append_left es [e]
  | hear change =>
    rw [perform, entries_apply wf]
    exact List.filter_sublist
  | clear =>
    rw [perform, table_clear, Table.entries_empty]
    exact List.nil_sublist _

/-- An act that touches an entry brings it to the front, unless it is not there. -/
theorem fronts_perform (wf : c.table.WellFormed) (touched : act.touched? = some id) :
    Fronts id c.identities (c.perform act).identities ∨
      id ∉ c.identities ∧ (c.perform act).identities = c.identities := by
  have absent : id ∉ c.identities → (c.touch id).identities = c.identities := fun out => by
    rw [← coversId_iff wf, coversId, Bool.not_eq_true, Option.isSome_eq_false_iff,
      Option.isNone_iff_eq_none] at out
    rw [touch_of_absent out]
  by_cases covered : id ∈ c.identities
  · left
    cases act <;> cases touched
    · exact fronts_touch wf covered
    · exact fronts_store wf _ _ _
    · exact fronts_touch wf covered
  · cases act <;> cases touched
    · exact Or.inr ⟨covered, absent covered⟩
    · exact Or.inl (fronts_store wf _ _ _)
    · exact Or.inr ⟨covered, absent covered⟩

/-! ## Idle entries -/

/-- How many acts were done since the entry was touched, or altogether if it never was. -/
def idle (past : List (Act ι α)) (id : ι) : Nat :=
  past.reverse.findIdx fun act => act.touched? = some id

theorem idle_append_touch (touched : act.touched? = some id) : idle (past ++ [act]) id = 0 := by
  rw [idle, List.reverse_append, List.reverse_singleton, List.singleton_append, List.findIdx_cons,
    touched, decide_eq_true rfl]
  rfl

theorem idle_append_other (other : act.touched? ≠ some id) :
    idle (past ++ [act]) id = idle past id + 1 := by
  rw [idle, List.reverse_append, List.reverse_singleton, List.singleton_append, List.findIdx_cons,
    decide_eq_false other]
  rfl

theorem idle_append_evicts (k : Nat) :
    idle (past ++ List.replicate k .evict) id = idle past id + k := by
  induction k with
  | zero => rw [List.replicate_zero, List.append_nil, Nat.add_zero]
  | succ k ih =>
    rw [List.replicate_succ', ← List.append_assoc, idle_append_other (by rintro ⟨⟩), ih,
      Nat.add_assoc]

/-- The cached entries were all touched, and those touched most recently come first. -/
structure Ordered (past : List (Act ι α)) (c : Cache ι α) : Prop where
  touched : ∀ id ∈ c.identities, idle past id < past.length
  sorted : c.identities.Pairwise fun id id' => idle past id < idle past id'

theorem ordered_empty (sizing : Sizing) : Ordered [] (empty sizing : Cache ι α) := by
  have none : (empty sizing : Cache ι α).identities = [] := by
    rw [identities, empty, Table.entries_empty, List.map_nil]
  constructor <;> rw [none]
  · exact fun id mem => absurd mem List.not_mem_nil
  · exact List.Pairwise.nil

/-- Nothing that was cached is touched, and some of it stays. -/
theorem Ordered.sublist {c' : Cache ι α} (ordered : Ordered past c)
    (rest : c'.identities.Sublist c.identities)
    (untouched : ∀ id ∈ c'.identities, act.touched? ≠ some id) : Ordered (past ++ [act]) c' where
  touched id mem := by
    rw [idle_append_other (untouched id mem), List.length_append, List.length_singleton]
    exact Nat.succ_lt_succ (ordered.touched id (rest.subset mem))
  sorted := by
    refine (ordered.sorted.sublist rest).imp_of_mem fun {id id'} mem mem' lt => ?_
    rw [idle_append_other (untouched id mem), idle_append_other (untouched id' mem')]
    exact Nat.succ_lt_succ lt

theorem Ordered.fronts {c' : Cache ι α} (ordered : Ordered past c)
    (touched : act.touched? = some id) (front : Fronts id c.identities c'.identities) :
    Ordered (past ++ [act]) c' := by
  have others : ∀ id' ∈ c.identities.filter (· ≠ id),
      id' ∈ c.identities ∧ act.touched? ≠ some id' := by
    intro id' mem
    obtain ⟨mem, other⟩ := List.mem_filter.1 mem
    refine ⟨mem, fun same => ?_⟩
    rw [touched] at same
    exact of_decide_eq_true other (Option.some.inj same).symm
  constructor <;> rw [front]
  · intro id' mem
    rw [List.length_append, List.length_singleton]
    rcases List.mem_cons.1 mem with rfl | mem
    · rw [idle_append_touch touched]
      exact Nat.succ_pos _
    · obtain ⟨cached, other⟩ := others id' mem
      rw [idle_append_other other]
      exact Nat.succ_lt_succ (ordered.touched id' cached)
  · refine List.pairwise_cons.2 ⟨fun id' mem => ?_, ?_⟩
    · rw [idle_append_touch touched, idle_append_other (others id' mem).2]
      exact Nat.succ_pos _
    · refine (ordered.sorted.sublist List.filter_sublist).imp_of_mem fun {x y} hx hy lt => ?_
      rw [idle_append_other (others x hx).2, idle_append_other (others y hy).2]
      exact Nat.succ_lt_succ lt

/-- Every act keeps the entries in order. -/
theorem ordered_perform (wf : c.table.WellFormed) (ordered : Ordered past c) (act : Act ι α) :
    Ordered (past ++ [act]) (c.perform act) := by
  cases touched : act.touched? with
  | none =>
    refine ordered.sublist ((entries_perform_sublist wf touched).map _) fun id _ some => ?_
    rw [touched] at some
    cases some
  | some id =>
    rcases fronts_perform wf touched with front | ⟨absent, same⟩
    · exact ordered.fronts touched front
    · refine ordered.sublist (by rw [same]) fun id' mem some => ?_
      rw [touched, Option.some.injEq] at some
      rw [same, ← some] at mem
      exact absent mem

theorem ordered_replay (wf : c.table.WellFormed) (ordered : Ordered past c)
    (acts : List (Act ι α)) : Ordered (past ++ acts) (c.replay acts) := by
  induction acts generalizing c past with
  | nil =>
    rw [List.append_nil]
    exact ordered
  | cons act acts ih =>
    have next := ih (perform_wellFormed wf act) (ordered_perform wf ordered act)
    rwa [List.append_assoc] at next

/-! ## Evictions -/

/-- Each act has the property at its time. -/
def Throughout (P : List (Act ι α) → Act ι α → Prop) : List (Act ι α) → List (Act ι α) → Prop
  | _, [] => True
  | past, act :: acts => P past act ∧ Throughout P (past ++ [act]) acts

section

variable {P : List (Act ι α) → Act ι α → Prop} {acts' rest : List (Act ι α)}

omit [DecidableEq ι]

theorem throughout_append (first : Throughout P past acts)
    (second : Throughout P (past ++ acts) acts') : Throughout P past (acts ++ acts') := by
  induction acts generalizing past with
  | nil => rwa [List.append_nil] at second
  | cons act acts ih =>
    refine ⟨first.1, ih first.2 ?_⟩
    rwa [List.append_assoc]

theorem Throughout.at_split (all : Throughout P past (acts ++ act :: rest)) :
    P (past ++ acts) act := by
  induction acts generalizing past with
  | nil =>
    rw [List.append_nil]
    exact all.1
  | cons act' acts ih =>
    have later := ih all.2
    rwa [List.append_assoc] at later

end

/-- What was stored last, with evictions only after it. -/
def JustStored (past : List (Act ι α)) (id : ι) : Prop :=
  ∃ before value position? k,
    past = before ++ Act.store id value position? :: List.replicate k .evict

/-- A hit is on an entry that is there, and an eviction makes room for what was just stored. -/
def Apt (c₀ : Cache ι α) (past : List (Act ι α)) : Act ι α → Prop
  | .hit id | .promote id => id ∈ (c₀.replay past).identities
  | .evict => c₀.sizing.capacity < (c₀.replay past).length ∧ ∃ id, JustStored past id
  | _ => True

theorem length_replay_evicts (wf : c.table.WellFormed) (k : Nat) :
    (c.replay (List.replicate k .evict)).length = c.length - k := by
  induction k generalizing c with
  | zero => rfl
  | succ k ih =>
    have wf' := perform_wellFormed wf .evict
    rw [List.replicate_succ, replay_cons, ih wf', length, wf'.size_eq, length, wf.size_eq]
    rcases List.eq_nil_or_concat c.table.entries with empty | ⟨es, e, last⟩
    · rw [perform_evict_nil wf empty, empty]
      simp
    · rw [List.concat_eq_append] at last
      obtain ⟨-, rest, -⟩ := perform_evict wf last
      rw [rest, last, List.length_append, List.length_singleton]
      omega

variable {c₀ : Cache ι α}

theorem apt_of_plain (wf : (c₀.replay past).table.WellFormed)
    (plain : (c₀.replay past).isPlain act = true) : Apt c₀ past act := by
  cases act with
  | hit id => exact (coversId_iff wf).1 plain
  | promote id => exact (coversId_iff wf).1 plain
  | evict => cases plain
  | _ => trivial

theorem apt_evicts (wf : c₀.table.WellFormed) (stored : JustStored past id) (k : Nat)
    (excess : k ≤ (c₀.replay past).length - c₀.sizing.capacity) :
    Throughout (Apt c₀) past (List.replicate k .evict) := by
  induction k generalizing past with
  | zero => trivial
  | succ k ih =>
    refine ⟨⟨by omega, id, stored⟩, ih ?_ ?_⟩
    · obtain ⟨before, value, position?, j, rfl⟩ := stored
      refine ⟨before, value, position?, j + 1, ?_⟩
      rw [List.append_assoc, List.cons_append, List.replicate_succ']
    · have wf' : (c₀.replay past).table.WellFormed := replay_wellFormed wf
      have one := length_replay_evicts wf' 1
      rw [List.replicate_one] at one
      rw [replay_append, one]
      omega

theorem apt_placeActs (wf : c₀.table.WellFormed) (id : ι) (value : α) (position? : Option Nat) :
    Throughout (Apt c₀) past ((c₀.replay past).placeActs id value position?) := by
  refine ⟨trivial, apt_evicts wf ⟨past, value, position?, 0, rfl⟩ _ ?_⟩
  rw [replay_append, replay_sizing]
  exact Nat.le_refl _

theorem apt_of_stores (wf : c₀.table.WellFormed) {objects : Nat} (stores : Stores c objects acts)
    (now : c = c₀.replay past) : Throughout (Apt c₀) past acts := by
  induction stores generalizing past with
  | done => trivial
  | skip _ ih => exact ih now
  | place id value position? _ ih =>
    subst now
    refine throughout_append (apt_placeActs wf id value position?) (ih ?_)
    rw [replay_append]

/-- Whatever is done in a journal is apt. -/
theorem apt_of_phrases (wf : c₀.table.WellFormed) (phrases : Phrases c acts)
    (now : c = c₀.replay past) : Throughout (Apt c₀) past acts := by
  induction phrases generalizing past with
  | done => trivial
  | plain plain _ ih =>
    subst now
    refine ⟨apt_of_plain (replay_wellFormed wf) plain, ih ?_⟩
    rw [replay_append]
    rfl
  | fetch _ stores _ ih =>
    subst now
    refine throughout_append (throughout_append ⟨trivial, trivial, trivial⟩
      (apt_of_stores wf stores ?_)) (ih ?_)
    · rw [replay_append]
    · rw [← replay_append]

/-- What an eviction takes out, and what it leaves, is the last entry, which has been idle for
longer than the others and is not the one just stored. -/
theorem evict_oldest (wf : c₀.table.WellFormed) (ordered : Ordered past (c₀.replay past))
    (apt : Apt c₀ past .evict) :
    ∃ es e, (c₀.replay past).table.entries = es ++ [e] ∧
      ((c₀.replay past).perform .evict).table.entries = es ∧
      (∀ x ∈ es, idle past x.id < idle past e.id) ∧ ¬ JustStored past e.id := by
  have wf' : (c₀.replay past).table.WellFormed := replay_wellFormed wf
  obtain ⟨crowded, -⟩ := apt
  have positive := c₀.sizing.capacity_pos
  rw [length, wf'.size_eq] at crowded
  rcases List.eq_nil_or_concat (c₀.replay past).table.entries with empty | ⟨es, e, last⟩
  · rw [empty] at crowded
    exact absurd crowded (Nat.not_lt_zero _)
  · rw [List.concat_eq_append] at last
    have sorted := ordered.sorted
    rw [identities, last, List.map_append, List.pairwise_append] at sorted
    have older : ∀ x ∈ es, idle past x.id < idle past e.id := fun x mem =>
      sorted.2.2 x.id (List.mem_map_of_mem mem) e.id (List.mem_singleton_self _)
    refine ⟨es, e, last, (perform_evict wf' last).2.1, older, ?_⟩
    -- as at least two are cached, another one would have been idle for less time than since then
    rintro ⟨before, value, position?, k, rfl⟩
    rw [last, List.length_append, List.length_singleton] at crowded
    obtain ⟨x, mem⟩ := List.exists_mem_of_length_pos (l := es) (by omega)
    have fresh : idle (before ++ [Act.store e.id value position?]) e.id = 0 :=
      idle_append_touch rfl
    have lt := older x mem
    rw [← List.singleton_append, ← List.append_assoc, idle_append_evicts, idle_append_evicts,
      fresh] at lt
    omega

/-- The counted evictions. -/
theorem evictions_perform (wf : c.table.WellFormed) (some : act = .evict → 0 < c.length) :
    (c.perform act).stats.evictions = c.stats.evictions + if act.isEvict then 1 else 0 := by
  have touched : ∀ id, (c.touch id).stats = c.stats := by
    intro id
    unfold touch
    split <;> rfl
  cases act with
  | hit id =>
    change (c.touch id).stats.evictions = _
    rw [touched]
    rfl
  | promote id =>
    rw [perform, touched]
    rfl
  | evict =>
    have many := some rfl
    rw [length, wf.size_eq] at many
    rcases List.eq_nil_or_concat c.table.entries with empty | ⟨es, e, last⟩
    · rw [empty] at many
      exact absurd many (Nat.lt_irrefl 0)
    · rw [(perform_evict wf (last.trans List.concat_eq_append)).2.2]
      rfl
  | hear change =>
    cases change with
    | objectChanged id =>
      unfold perform apply
      dsimp only
      split <;> rfl
    | _ => rfl
  | _ => rfl

theorem evictions_replay (wf : c₀.table.WellFormed) (apt : Throughout (Apt c₀) past acts) :
    (c₀.replay (past ++ acts)).stats.evictions =
      (c₀.replay past).stats.evictions + acts.countP Act.isEvict := by
  induction acts generalizing past with
  | nil => rw [List.append_nil, List.countP_nil, Nat.add_zero]
  | cons act acts ih =>
    obtain ⟨now, later⟩ := apt
    have one : (c₀.replay (past ++ [act])).stats.evictions =
        (c₀.replay past).stats.evictions + if act.isEvict then 1 else 0 := by
      rw [replay_append]
      refine evictions_perform (replay_wellFormed wf) ?_
      rintro rfl
      exact Nat.zero_lt_of_lt now.1
    have rest := ih later
    rw [List.append_assoc, List.singleton_append] at rest
    rw [rest, one, List.countP_cons]
    omega

/-- **The least recently used entry goes.**  Whatever is done with a new cache, its journal
says what happens to it.  At any moment, the entries touched most recently come first; an act
that touches an entry only brings it to the front, and one that touches none leaves those that
remain in order.  Each counted eviction takes the entry that has been idle for longest, which
is never the one just stored. -/
theorem evicts_least_recently_used (sizing : Sizing) (uses : List (Use ι α)) :
    let new : Cache ι α := empty sizing
    let acts := new.journal uses
    new.run uses = new.replay acts ∧
    Ordered acts (new.run uses) ∧
    (new.run uses).stats.evictions = acts.countP Act.isEvict ∧
    ∀ past act rest, acts = past ++ act :: rest →
      let before := new.replay past
      let after := before.perform act
      Ordered past before ∧
      (∀ id, act.touched? = some id → Fronts id before.identities after.identities) ∧
      (act.touched? = none → after.table.entries.Sublist before.table.entries) ∧
      (act = .evict → ∃ es e, before.table.entries = es ++ [e] ∧ after.table.entries = es ∧
        (∀ x ∈ es, idle past x.id < idle past e.id) ∧ ¬ JustStored past e.id) := by
  intro new acts
  have wf : new.table.WellFormed := Table.wellFormed_empty
  have ordered : ∀ past, Ordered past (new.replay past) := ordered_replay wf (ordered_empty sizing)
  have apt : Throughout (Apt new) [] acts := apt_of_phrases wf (phrases_journal wf uses) rfl
  have ran : new.run uses = new.replay acts := run_eq wf uses
  refine ⟨ran, ?_, ?_, ?_⟩
  · rw [ran]
    exact ordered acts
  · rw [ran]
    have counted := evictions_replay wf apt
    have none : (new.replay []).stats.evictions = 0 := rfl
    rwa [List.nil_append, none, Nat.zero_add] at counted
  · intro past act rest split before after
    have wf' : before.table.WellFormed := replay_wellFormed wf
    rw [split] at apt
    have now : Apt new past act := apt.at_split
    refine ⟨ordered past, ?_, entries_perform_sublist wf', ?_⟩
    · intro id touched
      rcases fronts_perform wf' touched with front | ⟨absent, -⟩
      · exact front
      · cases act <;> cases touched
        · exact absurd now absent
        · exact fronts_store wf' _ _ _
        · exact absurd now absent
    · rintro rfl
      exact evict_oldest wf (ordered past) now

/-- Room for three objects. -/
def narrow : Sizing := ⟨3, 1, Nat.one_pos, Nat.le_add_left 1 2⟩

/-- A fourth object is read after the first one was read again. -/
def crowding : List (Use Nat Nat) :=
  [0, 1, 2, 0, 3].map fun position =>
    .read Shelf.source (⟨List.range 10, some⟩ : Shelf Nat Nat) (.get position)

/-- The second object goes. -/
theorem evicts_least_recently_used_second :
    ((empty narrow).run crowding).identities = [3, 0, 2] ∧
    ((empty narrow).run crowding).stats.evictions = 1 ∧
    ∃ past rest es e, (empty narrow).journal crowding = past ++ .evict :: rest ∧
      ((empty narrow).replay past).table.entries = es ++ [e] ∧
      ∀ x ∈ es, idle past x.id < idle past e.id := by
  obtain ⟨-, -, counted, each⟩ := evicts_least_recently_used narrow crowding
  have evictions : ((empty narrow).run crowding).stats.evictions = 1 := by decide
  have some : 0 < ((empty narrow).journal crowding).countP Act.isEvict :=
    Nat.lt_of_lt_of_eq Nat.one_pos (evictions.symm.trans counted)
  obtain ⟨act, mem, evicts⟩ := List.countP_pos_iff.1 some
  obtain ⟨past, rest, split⟩ := List.append_of_mem mem
  obtain rfl : act = .evict := by
    cases act with
    | evict => rfl
    | _ => cases evicts
  obtain ⟨-, -, -, oldest⟩ := each past .evict rest split
  obtain ⟨es, e, entries, -, idlest, -⟩ := oldest rfl
  exact ⟨by decide, evictions, past, rest, es, e, split, entries, idlest⟩

end Cache

end ReadThrough
