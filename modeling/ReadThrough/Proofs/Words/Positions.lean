import ReadThrough.Proofs.Cache.Aging
import ReadThrough.Proofs.Reads.Failing

/-!
# Positions within a source

A read stores objects only for positions that the source has, if its size is what was told, and
answers only for such positions.  If all sizes fit into words, the positions that a cache knows
fit as well, whatever was done with it.

* `Act.Backed` says that a size was told, and that a position is below one.
* `Cache.backed_queryActs`: all acts of a read are.
* `Cache.Arises` is what comes of uses with sizes that fit; `Cache.Arises.inWords` says that all it
  knows fits.
-/

namespace ReadThrough

variable {σ ι α : Type}

/-- A size that is learnt was told, and what is stored for a position is inside one. -/
def Act.Backed (told : Nat → Prop) : Act ι α → Prop
  | .learn size => told size
  | .store _ _ (some position) => ∃ size, told size ∧ position < size
  | _ => True

/-- The source tells a size that fits into a word, if it tells one. -/
def Source.SizedAt (src : Source σ ι α) (s : σ) : Prop :=
  ∀ size, (src.size s).1 = .ok size → size < wordLimit

def Use.Sized : Use ι α → Prop
  | .read src s _ => src.SizedAt s
  | _ => True

namespace Cache

variable {c : Cache ι α} {act : Act ι α} {acts : List (Act ι α)} {told : Nat → Prop}
  {position size : Nat}

theorem mem_positions_iff :
    position ∈ c.positions ↔ ∃ e ∈ c.table.entries, e.position? = some position := by
  rw [positions, List.mem_mergeSort, List.mem_filterMap]

variable [DecidableEq ι]

/-! ## What acts tell of sizes and positions -/

theorem size?_perform (known : (c.perform act).size? = some size) :
    c.size? = some size ∨ act = .learn size := by
  have touched (id : ι) : (c.touch id).size? = c.size? := size?_touch
  cases act with
  | learn size' =>
    cases known
    exact Or.inr rfl
  | hit id => exact Or.inl ((touched id).symm.trans known)
  | promote id => exact Or.inl ((touched id).symm.trans known)
  | evict =>
    rw [perform] at known
    split at known <;> exact Or.inl known
  | hear change =>
    cases change with
    | objectChanged id =>
      rw [perform, apply] at known
      split at known <;> exact Or.inl known
    | rangeChanged first last => exact Or.inl known
    | _ => cases known
  | clear => cases known
  | _ => exact Or.inl known

theorem size?_replay (known : (c.replay acts).size? = some size) :
    c.size? = some size ∨ .learn size ∈ acts := by
  induction acts generalizing c with
  | nil => exact Or.inl known
  | cons act acts ih =>
    rcases ih known with before | later
    · rcases size?_perform before with before | rfl
      · exact Or.inl before
      · exact Or.inr List.mem_cons_self
    · exact Or.inr (List.mem_cons_of_mem act later)

theorem positions_perform (wf : c.table.WellFormed)
    (mem : position ∈ (c.perform act).positions) :
    position ∈ c.positions ∨ ∃ id value, act = .store id value (some position) := by
  obtain ⟨e, mem, at_e⟩ := mem_positions_iff.1 mem
  have before (mem : e ∈ c.table.entries) : position ∈ c.positions :=
    mem_positions_iff.2 ⟨e, mem, at_e⟩
  have touched (id : ι) (mem : e ∈ (c.touch id).table.entries) : e ∈ c.table.entries := by
    cases found : c.table.ofId? id with
    | none => rwa [touch_of_absent found] at mem
    | some h =>
      obtain ⟨x, here, rfl⟩ := wf.exists_of_ofId? found
      have there := wf.mem_entries_iff.2 ⟨h, here⟩
      rw [entries_touch wf there] at mem
      rcases List.mem_cons.1 mem with rfl | mem
      · exact there
      · exact (List.mem_filter.1 mem).1
  cases act with
  | hit id => exact Or.inl (before (touched id mem))
  | promote id => exact Or.inl (before (touched id mem))
  | store id value position? =>
    have entries : (c.perform (.store id value position?)).table.entries = _ :=
      wf.entries_insert id value position?
    rw [entries] at mem
    -- the entry itself has the position it is given, or else the one it had
    rcases List.mem_cons.1 mem with rfl | mem
    · cases position? with
      | some given =>
        cases at_e
        exact Or.inr ⟨id, value, rfl⟩
      | none =>
        obtain ⟨x, found, at_x⟩ := Option.bind_eq_some_iff.1 at_e
        exact Or.inl (mem_positions_iff.2 ⟨x, List.mem_of_find?_eq_some found, at_x⟩)
    · obtain ⟨x, other, rfl⟩ := List.mem_map.1 mem
      have at_x := (Entry.vacate_position?_eq_some_iff.1 at_e).1
      exact Or.inl (mem_positions_iff.2 ⟨x, (List.mem_filter.1 other).1, at_x⟩)
  | _ => exact Or.inl (before ((entries_perform_sublist wf rfl).subset mem))

/-- A position that is known after some acts was known before, or stored by one of them. -/
theorem positions_replay (wf : c.table.WellFormed)
    (mem : position ∈ (c.replay acts).positions) :
    position ∈ c.positions ∨ ∃ id value, .store id value (some position) ∈ acts := by
  induction acts generalizing c with
  | nil => exact Or.inl mem
  | cons act acts ih =>
    rcases ih (perform_wellFormed wf act) mem with before | ⟨id, value, later⟩
    · rcases positions_perform wf before with before | ⟨id, value, rfl⟩
      · exact Or.inl before
      · exact Or.inr ⟨id, value, List.mem_cons_self⟩
    · exact Or.inr ⟨id, value, List.mem_cons_of_mem act later⟩

/-! ## Acts of a read -/

section

variable {src : Source σ ι α} {s : σ} {start length : Nat}

omit [DecidableEq ι] in
theorem backed_sizeActs :
    ∀ act ∈ sizeActs src c s, act.Backed fun size => (getSize src c s).1 = .ok size := by
  unfold sizeActs
  cases known : c.size? with
  | some size => exact List.forall_mem_nil _
  | none =>
    rw [(getSize_of_unknown known).1]
    rcases src.size s with ⟨_ | size, s'⟩
    · exact List.forall_mem_nil _
    · exact List.forall_mem_singleton.2 rfl

theorem backed_placeActs {id : ι} {value : α} {position? : Option Nat}
    (backed : (Act.store id value position?).Backed told) :
    ∀ act ∈ c.placeActs id value position?, act.Backed told := by
  refine List.forall_mem_cons.2 ⟨backed, fun act mem => ?_⟩
  rw [List.eq_of_mem_replicate mem]
  trivial

theorem backed_keepAllActs (identify : α → Option ι) {vs : List α} (known : told size)
    (inside : start + vs.length ≤ size) :
    ∀ act ∈ c.keepAllActs identify start vs, act.Backed told := by
  induction vs generalizing c start with
  | nil => exact List.forall_mem_nil _
  | cons v vs ih =>
    rw [List.length_cons] at inside
    refine List.forall_mem_append.2 ⟨?_, ih (by omega)⟩
    unfold keepActs
    split
    · exact backed_placeActs ⟨size, known, by omega⟩
    · exact List.forall_mem_nil _

omit [DecidableEq ι] in
theorem backed_fetchActs {more : List α → σ → List (Act ι α)}
    (backed : ∀ values s', values.length = length → ∀ act ∈ more values s', act.Backed told) :
    ∀ act ∈ fetchActs src start length s more, act.Backed told := by
  unfold fetchActs
  split
  · exact List.forall_mem_nil _
  · refine List.forall_mem_cons.2 ⟨trivial, ?_⟩
    split
    · exact backed _ _ ‹_›
    · exact List.forall_mem_nil _

theorem backed_serveActs : ∀ act ∈ serveActs length start c, act.Backed told := by
  induction length generalizing start c with
  | zero => exact List.forall_mem_nil _
  | succ length ih =>
    unfold serveActs
    split
    · exact List.forall_mem_cons.2 ⟨trivial, ih⟩
    · exact List.forall_mem_nil _

theorem backed_missActs (known : told size) (inside : position < size) :
    ∀ act ∈ missActs src position size c s, act.Backed told := by
  have first : (c.missWindow position size).start ≤ position := Window.start_around_le
  have last : position < (c.missWindow position size).stop := Window.lt_stop_around
  have stop : (c.missWindow position size).stop ≤ size := Window.stop_around_le inside
  refine List.forall_mem_cons.2 ⟨trivial, backed_fetchActs fun values s' whole => ?_⟩
  rw [Window.length] at whole
  refine List.forall_mem_append.2 ⟨backed_keepAllActs _ known (by omega), ?_⟩
  unfold recallActs
  split
  · exact List.forall_mem_singleton.2 trivial
  · exact List.forall_mem_nil _

theorem backed_getActs :
    ∀ act ∈ getActs src position c s, act.Backed fun size => (getSize src c s).1 = .ok size := by
  refine List.forall_mem_append.2 ⟨backed_sizeActs, ?_⟩
  rcases getSize src c s with ⟨_ | size, c₁, s₁⟩
  · exact List.forall_mem_nil _
  · dsimp only
    rcases guard : guardPosition position size with _ | _
    · exact List.forall_mem_nil _
    · dsimp only
      split
      · exact List.forall_mem_singleton.2 trivial
      · exact backed_missActs rfl (guardPosition_eq_ok_iff.1 guard)

theorem backed_rangeActs :
    ∀ act ∈ rangeActs src start length c s,
      act.Backed fun size => (getSize src c s).1 = .ok size := by
  refine List.forall_mem_append.2 ⟨backed_sizeActs, ?_⟩
  rcases getSize src c s with ⟨_ | size, c₁, s₁⟩
  · exact List.forall_mem_nil _
  · dsimp only
    rcases guard : guardRange start length size with _ | _
    · exact List.forall_mem_nil _
    · have within := (guardRange_eq_ok_iff.1 guard).2
      have few := length_serveActs_le (c := c₁) length start
      refine List.forall_mem_append.2 ⟨backed_serveActs, ?_⟩
      split
      · exact List.forall_mem_nil _
      · refine List.forall_mem_cons.2 ⟨trivial, backed_fetchActs fun values s' whole => ?_⟩
        exact backed_keepAllActs _ rfl (by omega)

theorem backed_byIdActs {id : ι} : ∀ act ∈ byIdActs src id c s, act.Backed told := by
  unfold byIdActs
  split
  · exact List.forall_mem_singleton.2 trivial
  · refine List.forall_mem_cons.2 ⟨trivial, ?_⟩
    split
    · exact List.forall_mem_nil _
    · exact List.forall_mem_singleton.2 trivial
    · exact List.forall_mem_cons.2 ⟨trivial, backed_placeActs trivial⟩

/-- What a read learns and stores is backed by the size that it is told. -/
theorem backed_queryActs (q : Query ι) :
    ∀ act ∈ queryActs src q c s, act.Backed fun size => (getSize src c s).1 = .ok size := by
  cases q with
  | size => exact backed_sizeActs
  | get position => exact backed_getActs
  | range start length => exact backed_rangeActs
  | byId id => exact backed_byIdActs

/-! ## Answers of a read -/

/-- An object is the answer only for a position that the source has. -/
theorem get_inside {value : α} (answered : (get src position c s).1 = .ok value) :
    ∃ size, (getSize src c s).1 = .ok size ∧ position < size := by
  obtain ⟨size, told, guard⟩ := exists_size_of_answered (q := .get position) trivial answered
  exact ⟨size, told, guardPosition_eq_ok_iff.1 guard⟩

/-- A range is answered in full, and only if the source has it. -/
theorem getRange_inside (wf : c.table.WellFormed) {values : List α}
    (answered : (getRange src start length c s).1 = .ok values) :
    values.length = length ∧ start + length < wordLimit ∧
      ∃ size, (getSize src c s).1 = .ok size ∧ start + length ≤ size := by
  obtain ⟨size, told, guard⟩ := exists_size_of_answered (q := .range start length) trivial answered
  obtain ⟨fits, within⟩ := guardRange_eq_ok_iff.1 guard
  refine ⟨?_, fits, size, told, within⟩
  obtain ⟨count, c₁, -, eq⟩ := getRange_of_inside wf told guard
  have few : c.runLength start length ≤ length := runLength_le
  rw [eq] at answered
  split at answered
  · rename_i whole
    cases answered
    rw [List.length_map, count, whole]
  · unfold getRest at answered
    rcases fetched : fetchRange src (start + c.runLength start length)
      (length - c.runLength start length) _ (getSize src c s).2.2 with ⟨e | rest, c₂, s₂⟩
    · rw [fetched] at answered
      cases answered
    · obtain ⟨-, brought, -⟩ := fetchRange_of_ok fetched
      rw [fetched] at answered
      cases answered
      rw [List.length_append, List.length_map, count, brought]
      omega

end

/-! ## Caches that arise -/

/-- The cache comes of uses in which all sizes that are told fit into words. -/
def Arises (c : Cache ι α) : Prop :=
  ∃ (sizing : Sizing) (uses : List (Use ι α)), (∀ u ∈ uses, u.Sized) ∧ c = (empty sizing).run uses

/-- The table is well formed, and size and positions fit into words. -/
structure InWords (c : Cache ι α) : Prop where
  table : c.table.WellFormed
  size : ∀ size, c.size? = some size → size < wordLimit
  positions : ∀ position ∈ c.positions, position < wordLimit

namespace InWords

theorem told_lt {src : Source σ ι α} {s : σ} (within : c.InWords) (sized : src.SizedAt s) :
    ∀ size, (getSize src c s).1 = .ok size → size < wordLimit := by
  intro size told
  cases known : c.size? with
  | some size' =>
    rw [getSize_of_known known] at told
    cases told
    exact within.size size known
  | none =>
    rw [(getSize_of_unknown known).1] at told
    exact sized size told

theorem replay (within : c.InWords) (backed : ∀ act ∈ acts, act.Backed told)
    (sized : ∀ size, told size → size < wordLimit) : (c.replay acts).InWords where
  table := replay_wellFormed within.table
  size size known := by
    rcases size?_replay known with before | learnt
    · exact within.size size before
    · exact sized size (backed _ learnt)
  positions position mem := by
    rcases positions_replay within.table mem with before | ⟨id, value, stored⟩
    · exact within.positions position before
    · obtain ⟨size, known, lt⟩ := backed _ stored
      exact Nat.lt_trans lt (sized size known)

theorem use (within : c.InWords) {u : Use ι α} (sized : u.Sized) : (c.use u).InWords := by
  have untold (act : Act ι α) (backed : act.Backed fun _ => False) : (c.replay [act]).InWords :=
    within.replay (List.forall_mem_singleton.2 backed) nofun
  rw [use_eq within.table]
  cases u with
  | read src s q => exact within.replay (backed_queryActs q) (within.told_lt sized)
  | hear change => exact untold (.hear change) trivial
  | clear => exact untold .clear trivial
  | look => exact within

theorem run {uses : List (Use ι α)} (within : c.InWords) (sized : ∀ u ∈ uses, u.Sized) :
    (c.run uses).InWords := by
  induction uses generalizing c with
  | nil => exact within
  | cons u uses ih =>
    obtain ⟨now, later⟩ := List.forall_mem_cons.1 sized
    exact ih (within.use now) later

end InWords

theorem inWords_empty (sizing : Sizing) : (empty sizing : Cache ι α).InWords where
  table := Table.wellFormed_empty
  size _ known := by cases known
  positions position mem := by
    obtain ⟨e, mem, -⟩ := mem_positions_iff.1 mem
    rw [empty, Table.entries_empty] at mem
    exact absurd mem List.not_mem_nil

theorem Arises.inWords (arises : c.Arises) : c.InWords := by
  obtain ⟨sizing, uses, sized, rfl⟩ := arises
  exact (inWords_empty sizing).run sized

end Cache

end ReadThrough
