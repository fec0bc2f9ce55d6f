import ReadThrough.Proofs.Cache.Changes
import ReadThrough.Proofs.Cache.Reading
import ReadThrough.Proofs.Cache.Rebinding

/-!
# The journal of a cache

Whatever is done with a cache, it happens in acts: a lookup is served or not, the source
answers, an object is stored, an entry is evicted.  The journal of a use lists its acts in
order of time, so that what is said of all acts is said of all uses.

* `Act` is one act, and `Cache.perform` what it does to the cache.
* `Use` is what may be done with a cache, and `Use.journal` are the acts of it.
* `Cache.use_eq`: a use does what its acts do one after the other; `Cache.run_eq` says
  this of a run, which may go to any sources and hear of any changes.
-/

namespace ReadThrough

variable {σ ι α : Type}

/-- Something that happens to a cache. -/
inductive Act (ι α : Type) : Type where
  /-- The source told its size. -/
  | learn (size : Nat)
  /-- A lookup was served from the entry with this identity. -/
  | hit (id : ι)
  /-- So many lookups could not be served. -/
  | miss (lookups : Nat)
  /-- The source answered with so many objects. -/
  | fetch (objects : Nat)
  /-- An object was stored, and its entry inserted or refreshed. -/
  | store (id : ι) (value : α) (position? : Option Nat)
  /-- The entry that was asked for became the most recently used one. -/
  | promote (id : ι)
  /-- The least recently used entry was evicted. -/
  | evict
  | hear (change : Change ι)
  | clear

/-- Something that is done with a cache.  To take another source is to clear the cache and
to send the next reads there; to write through a cache, or to ask what it covers, is to look
at it only. -/
inductive Use (ι α : Type) : Type 1 where
  | read {σ : Type} (src : Source σ ι α) (s : σ) (q : Query ι)
  | hear (change : Change ι)
  | clear
  | look

namespace Table

/-- The entry bound to a position. -/
def entryAt? (t : Table ι α) (position : Nat) : Option (Entry ι α) :=
  (t.atPosition? position).bind t.entry?

variable [DecidableEq ι] {t : Table ι α} {h : Handle} {e : Entry ι α}

theorem WellFormed.ofId?_of_entry? (wf : t.WellFormed) (here : t.entry? h = some e) :
    t.ofId? e.id = some h :=
  (Holds.ids wf e.id h).2 ⟨e, (Holds.entry?_eq_some_iff wf).1 here, rfl⟩

end Table

namespace Cache

variable [DecidableEq ι]

/-! ## Acts -/

/-- Make the entry with this identity the most recently used one. -/
def touch (c : Cache ι α) (id : ι) : Cache ι α :=
  match c.table.ofId? id with
  | some h => { c with table := c.table.promote h }
  | none => c

def perform (c : Cache ι α) : Act ι α → Cache ι α
  | .learn size => { c with size? := some size }
  | .hit id => (c.touch id).count .hit
  | .miss lookups => c.count (·.miss lookups)
  | .fetch objects => c.count (·.fetch objects)
  | .store id value position? => { c with table := (c.table.insert id value position?).2 }
  | .promote id => c.touch id
  | .evict =>
    match c.table.evict with
    | (some _, table) => { c with table := table }.count .evict
    | (none, _) => c
  | .hear change => c.apply change
  | .clear => c.clear

/-- What acts lead to. -/
def replay (c : Cache ι α) (acts : List (Act ι α)) : Cache ι α := acts.foldl perform c

variable {c : Cache ι α} {h : Handle} {e : Entry ι α} {id : ι} {acts acts' : List (Act ι α)}

@[simp] theorem replay_nil : c.replay [] = c := rfl

@[simp] theorem replay_cons (act : Act ι α) :
    c.replay (act :: acts) = (c.perform act).replay acts := rfl

@[simp] theorem replay_append : c.replay (acts ++ acts') = (c.replay acts).replay acts' :=
  List.foldl_append

theorem touch_eq (wf : c.table.WellFormed) (here : c.table.entry? h = some e) :
    c.touch e.id = { c with table := c.table.promote h } := by
  rw [touch, wf.ofId?_of_entry? here]

theorem touch_of_absent (absent : c.table.ofId? id = none) : c.touch id = c := by
  rw [touch, absent]

@[simp] theorem size?_touch : (c.touch id).size? = c.size? := by
  unfold touch
  split <;> rfl

theorem entries_touch (wf : c.table.WellFormed) (mem : e ∈ c.table.entries) :
    (c.touch e.id).table.entries = e :: c.table.entries.filter fun x => x.id ≠ e.id := by
  obtain ⟨h, here⟩ := wf.mem_entries_iff.1 mem
  rw [touch_eq wf here]
  exact wf.entries_promote here

theorem touch_wellFormed (wf : c.table.WellFormed) : (c.touch id).table.WellFormed := by
  unfold touch
  split
  · rename_i h found
    obtain ⟨e, here, -⟩ := wf.exists_of_ofId? found
    exact wf.promote here
  · exact wf

/-- Evicting takes out the last entry and counts it. -/
theorem perform_evict (wf : c.table.WellFormed) {es : List (Entry ι α)}
    (last : c.table.entries = es ++ [e]) :
    (c.perform .evict).table.WellFormed ∧ (c.perform .evict).table.entries = es ∧
      (c.perform .evict).stats = c.stats.evict := by
  obtain ⟨evicted, wf', rest⟩ := wf.evict last
  rw [perform]
  split
  · rename_i table eq
    rw [eq] at wf' rest
    exact ⟨wf', rest, rfl⟩
  · rename_i table eq
    rw [eq] at evicted
    cases evicted

theorem perform_evict_nil (wf : c.table.WellFormed) (empty : c.table.entries = []) :
    c.perform .evict = c := by
  have oldest : c.table.order.oldest? = none := by
    have none := (Table.Holds.order wf).oldest
    rw [Table.Holds.entries_eq wf, List.map_eq_nil_iff] at empty
    rw [none, empty]
    rfl
  rw [perform, Table.evict, oldest]

theorem perform_wellFormed (wf : c.table.WellFormed) (act : Act ι α) :
    (c.perform act).table.WellFormed := by
  cases act with
  | learn size => exact wf
  | hit id => exact touch_wellFormed wf
  | miss lookups => exact wf
  | fetch objects => exact wf
  | store id value position? => exact wf.insert id value position?
  | promote id => exact touch_wellFormed wf
  | evict =>
    rcases List.eq_nil_or_concat c.table.entries with empty | ⟨es, e, last⟩
    · rwa [perform_evict_nil wf empty]
    · exact (perform_evict wf (last.trans List.concat_eq_append)).1
  | hear change => exact apply_wellFormed wf
  | clear => exact Table.wellFormed_empty

theorem replay_wellFormed (wf : c.table.WellFormed) : (c.replay acts).table.WellFormed := by
  induction acts generalizing c with
  | nil => exact wf
  | cons act acts ih => exact ih (perform_wellFormed wf act)

@[simp] theorem perform_sizing (act : Act ι α) : (c.perform act).sizing = c.sizing := by
  have touched : ∀ id, (c.touch id).sizing = c.sizing := by
    intro id
    unfold touch
    split <;> rfl
  cases act with
  | hit id => exact touched id
  | promote id => exact touched id
  | evict =>
    rw [perform]
    split <;> rfl
  | hear change => exact apply_sizing
  | _ => rfl

@[simp] theorem replay_sizing : (c.replay acts).sizing = c.sizing := by
  induction acts generalizing c with
  | nil => rfl
  | cons act acts ih => rw [replay_cons, ih, perform_sizing]

/-! ## The acts of storing -/

/-- An object is stored, and what exceeds the capacity is evicted. -/
def placeActs (c : Cache ι α) (id : ι) (value : α) (position? : Option Nat) : List (Act ι α) :=
  .store id value position? ::
    List.replicate ((c.table.insert id value position?).2.size - c.sizing.capacity) .evict

def keepActs (identify : α → Option ι) (c : Cache ι α) (value : α) (position : Nat) :
    List (Act ι α) :=
  match identify value with
  | some id => c.placeActs id value (some position)
  | none => []

def keepAllActs (identify : α → Option ι) : Cache ι α → Nat → List α → List (Act ι α)
  | _, _, [] => []
  | c, start, v :: vs =>
    c.keepActs identify v start ++ keepAllActs identify (c.keep identify v start) (start + 1) vs

theorem shed_eq (wf : c.table.WellFormed) {rounds : Nat} (enough : c.table.size ≤ rounds) :
    shed rounds c = c.replay (List.replicate (c.table.size - c.sizing.capacity) .evict) := by
  induction rounds generalizing c with
  | zero =>
    rw [Nat.le_zero.1 enough, Nat.zero_sub]
    rfl
  | succ rounds ih =>
    unfold shed
    split
    · rename_i crowded
      rcases List.eq_nil_or_concat c.table.entries with empty | ⟨es, e, last⟩
      · rw [wf.size_eq, empty] at crowded
        exact absurd crowded (Nat.not_lt_zero _)
      · rw [List.concat_eq_append] at last
        obtain ⟨wf', rest, -⟩ := perform_evict wf last
        have smaller : (c.perform .evict).table.size + 1 = c.table.size := by
          rw [wf'.size_eq, wf.size_eq, rest, last, List.length_append, List.length_singleton]
        obtain ⟨k, excess⟩ : ∃ k, c.table.size - c.sizing.capacity = k + 1 :=
          ⟨c.table.size - c.sizing.capacity - 1, by omega⟩
        have step := ih (c := c.perform .evict) wf' (by omega)
        have fewer : (c.perform .evict).table.size - (c.perform .evict).sizing.capacity = k := by
          rw [perform_sizing]
          omega
        rw [fewer] at step
        rw [excess, List.replicate_succ, replay_cons, ← step, perform]
        obtain ⟨evicted, -, -⟩ := wf.evict last
        rcases taken : c.table.evict with ⟨taken?, t⟩
        rw [taken] at evicted
        cases evicted
        rfl
    · rename_i within
      have none : c.table.size - c.sizing.capacity = 0 := by omega
      rw [none]
      rfl

theorem place_eq (wf : c.table.WellFormed) (id : ι) (value : α) (position? : Option Nat) :
    c.place id value position? = c.replay (c.placeActs id value position?) :=
  shed_eq (c := c.perform (.store id value position?)) (wf.insert id value position?)
    (Nat.le_refl _)

theorem keep_eq (wf : c.table.WellFormed) (identify : α → Option ι) (value : α)
    (position : Nat) :
    c.keep identify value position = c.replay (c.keepActs identify value position) := by
  unfold keep keepActs
  cases identify value with
  | some id => exact place_eq wf _ _ _
  | none => rfl

theorem keepAll_eq (wf : c.table.WellFormed) (identify : α → Option ι) (start : Nat)
    (vs : List α) :
    c.keepAll identify start vs = c.replay (c.keepAllActs identify start vs) := by
  induction vs generalizing c start with
  | nil => rfl
  | cons v vs ih =>
    rw [keepAll, keepAllActs, replay_append, ← keep_eq wf]
    exact ih (keep_wellFormed wf) _

/-! ## The acts of a read -/

def sizeActs (src : Source σ ι α) (c : Cache ι α) (s : σ) : List (Act ι α) :=
  match c.size? with
  | some _ => []
  | none =>
    match src.size s with
    | (.ok size, _) => [.learn size]
    | (.error _, _) => []

/-- The answer to a fetch is counted, and if it has the right length, `more` follows. -/
def fetchActs (src : Source σ ι α) (start length : Nat) (s : σ)
    (more : List α → σ → List (Act ι α)) : List (Act ι α) :=
  match src.range start length s with
  | (.error _, _) => []
  | (.ok values, s) =>
    .fetch values.length :: if values.length = length then more values s else []

/-- The entry asked for is promoted if it is there. -/
def recallActs (c : Cache ι α) (position : Nat) : List (Act ι α) :=
  match c.table.entryAt? position with
  | some e => [.promote e.id]
  | none => []

def missActs (src : Source σ ι α) (position size : Nat) (c : Cache ι α) (s : σ) :
    List (Act ι α) :=
  let w := c.missWindow position size
  .miss 1 :: fetchActs src w.start w.length s fun values s =>
    let c := (c.perform (.miss 1)).perform (.fetch values.length)
    let identify := src.identify s
    c.keepAllActs identify w.start values ++ (c.keepAll identify w.start values).recallActs position

def getActs (src : Source σ ι α) (position : Nat) (c : Cache ι α) (s : σ) : List (Act ι α) :=
  sizeActs src c s ++
    match getSize src c s with
    | (.error _, _, _) => []
    | (.ok size, c, s) =>
      match guardPosition position size with
      | .error _ => []
      | .ok () =>
        match c.table.entryAt? position with
        | some e => [.hit e.id]
        | none => missActs src position size c s

/-- The hits at the start of a run, up to the first position that is not cached. -/
def serveActs : Nat → Nat → Cache ι α → List (Act ι α)
  | 0, _, _ => []
  | length + 1, start, c =>
    match c.table.entryAt? start with
    | some e => .hit e.id :: serveActs length (start + 1) (c.perform (.hit e.id))
    | none => []

def restActs (src : Source σ ι α) (start length : Nat) (c : Cache ι α) (s : σ) :
    List (Act ι α) :=
  .miss length :: fetchActs src start length s fun values s =>
    ((c.perform (.miss length)).perform (.fetch values.length)).keepAllActs (src.identify s) start
      values

def rangeActs (src : Source σ ι α) (start length : Nat) (c : Cache ι α) (s : σ) :
    List (Act ι α) :=
  sizeActs src c s ++
    match getSize src c s with
    | (.error _, _, _) => []
    | (.ok size, c, s) =>
      match guardRange start length size with
      | .error _ => []
      | .ok () =>
        let hits := serveActs length start c
        hits ++
          if hits.length = length then []
          else restActs src (start + hits.length) (length - hits.length) (c.replay hits) s

def byIdActs (src : Source σ ι α) (id : ι) (c : Cache ι α) (s : σ) : List (Act ι α) :=
  match c.table.ofId? id with
  | some _ => [.hit id]
  | none =>
    .miss 1 ::
      match src.byId id s with
      | (.error _, _) => []
      | (.ok none, _) => [.fetch 0]
      | (.ok (some v), _) =>
        .fetch 1 :: ((c.perform (.miss 1)).perform (.fetch 1)).placeActs id v none

/-- The acts of a read. -/
def queryActs (src : Source σ ι α) : Query ι → Cache ι α → σ → List (Act ι α)
  | .size => sizeActs src
  | .get position => getActs src position
  | .range start length => rangeActs src start length
  | .byId id => byIdActs src id

/-! ### Their effect -/

theorem getSize_eq (src : Source σ ι α) (c : Cache ι α) (s : σ) :
    (getSize src c s).2.1 = c.replay (sizeActs src c s) := by
  unfold getSize sizeActs
  cases c.size? with
  | some size => rfl
  | none => rcases src.size s with ⟨_ | size, s'⟩ <;> rfl

omit [DecidableEq ι] in
@[simp] theorem table_getSize (src : Source σ ι α) (c : Cache ι α) (s : σ) :
    (getSize src c s).2.1.table = c.table := by
  unfold getSize
  cases c.size? with
  | some size => rfl
  | none => rcases src.size s with ⟨_ | size, s'⟩ <;> rfl

theorem hit_snd (wf : c.table.WellFormed) (here : c.table.entry? h = some e) :
    (c.hit h).2 = c.perform (.hit e.id) := by
  rw [hit_eq wf here, perform, touch_eq wf here]

theorem entryAt?_eq_none_iff (wf : c.table.WellFormed) {position : Nat} :
    c.table.entryAt? position = none ↔ c.table.atPosition? position = none := by
  rw [Table.entryAt?, Option.bind_eq_none_iff]
  refine ⟨fun none => ?_, fun none h found => ?_⟩
  · cases found : c.table.atPosition? position with
    | none => rfl
    | some h =>
      obtain ⟨e, here, -⟩ := wf.exists_of_atPosition? found
      exact absurd (here.symm.trans (none h found)) (by simp)
  · rw [none] at found
    cases found

omit [DecidableEq ι] in
theorem exists_of_entryAt? {position : Nat} (found : c.table.entryAt? position = some e) :
    ∃ h, c.table.atPosition? position = some h ∧ c.table.entry? h = some e :=
  Option.bind_eq_some_iff.1 found

theorem fetchRange_eq (src : Source σ ι α) (start length : Nat) (c : Cache ι α) (s : σ)
    (more : List α → σ → List (Act ι α)) :
    (∃ e s', fetchRange src start length c s =
        (.error e, c.replay (fetchActs src start length s more), s')) ∨
      ∃ values s', values.length = length ∧
        fetchRange src start length c s = (.ok values, c.count (·.fetch values.length), s') ∧
        fetchActs src start length s more = .fetch values.length :: more values s' := by
  unfold fetchRange fetchActs
  rcases src.range start length s with ⟨_ | values, s'⟩
  · exact Or.inl ⟨_, _, rfl⟩
  · dsimp only
    by_cases whole : values.length = length
    · rw [if_pos whole, if_pos whole]
      exact Or.inr ⟨values, s', whole, rfl, rfl⟩
    · rw [if_neg whole, if_neg whole]
      exact Or.inl ⟨_, _, rfl⟩

theorem answerFetched_eq (wf : c.table.WellFormed) (identify : α → Option ι) (position : Nat)
    (fetched? : Option α) :
    (c.answerFetched identify position fetched?).2 = c.replay (c.recallActs position) := by
  unfold recallActs answerFetched
  cases found : c.table.entryAt? position with
  | none =>
    rw [(entryAt?_eq_none_iff wf).1 found]
    cases fetched? with
    | none => rfl
    | some v =>
      dsimp only
      split <;> rfl
  | some e =>
    obtain ⟨h, at_h, here⟩ := exists_of_entryAt? found
    rw [at_h]
    dsimp only
    rw [wf.entry?_promote here, replay_cons, perform, touch_eq wf here]
    rfl

theorem getMissing_eq (wf : c.table.WellFormed) (src : Source σ ι α) (position size : Nat)
    (s : σ) :
    (getMissing src position size c s).2.1 = c.replay (missActs src position size c s) := by
  rw [missActs, replay_cons]
  generalize hmore : (fun values s => _) = more
  unfold getMissing
  dsimp only
  rcases fetchRange_eq src (c.missWindow position size).start (c.missWindow position size).length
    (c.count (·.miss 1)) s more with ⟨e, s', failed⟩ | ⟨values, s', -, brought, acts⟩
  · rw [failed]
    rfl
  · rw [brought, acts, ← hmore]
    dsimp only
    let counted := (c.perform (.miss 1)).perform (.fetch values.length)
    have wf' : counted.table.WellFormed := wf
    refine (answerFetched_eq (c := counted.keepAll _ _ _) (keepAll_wellFormed wf') _ _ _).trans ?_
    rw [replay_cons, replay_append]
    exact congrArg (replay · _) (keepAll_eq wf' _ _ _)

theorem get_eq (wf : c.table.WellFormed) (src : Source σ ι α) (position : Nat) (s : σ) :
    (get src position c s).2.1 = c.replay (getActs src position c s) := by
  have sized := getSize_eq src c s
  have same := table_getSize src c s
  unfold get getActs
  rw [replay_append, ← sized]
  rcases told : getSize src c s with ⟨_ | size, c₁, s₁⟩
  · rfl
  · rw [told] at same
    have wf₁ : c₁.table.WellFormed := same ▸ wf
    dsimp only
    rcases guardPosition position size with _ | _
    · rfl
    · dsimp only
      cases found : c₁.table.entryAt? position with
      | none =>
        rw [(entryAt?_eq_none_iff wf₁).1 found]
        exact getMissing_eq wf₁ src position size s₁
      | some e =>
        obtain ⟨h, at_h, here⟩ := exists_of_entryAt? found
        rw [at_h]
        exact hit_snd wf₁ here

theorem serveRun_eq (wf : c.table.WellFormed) (length start : Nat) :
    ∃ vs, serveRun length start c = (.ok vs, c.replay (serveActs length start c)) ∧
      vs.length = (serveActs length start c).length := by
  induction length generalizing start c with
  | zero => exact ⟨[], rfl, rfl⟩
  | succ length ih =>
    unfold serveRun serveActs
    cases found : c.table.entryAt? start with
    | none =>
      rw [(entryAt?_eq_none_iff wf).1 found]
      exact ⟨[], rfl, rfl⟩
    | some e =>
      obtain ⟨h, at_h, here⟩ := exists_of_entryAt? found
      obtain ⟨vs, rest, length_vs⟩ := ih (c := c.perform (.hit e.id)) (perform_wellFormed wf _)
        (start + 1)
      have served : c.hit h = (.ok e.value, c.perform (.hit e.id)) := by
        rw [← hit_snd wf here, hit_eq wf here]
      rw [at_h]
      dsimp only
      rw [served]
      dsimp only
      rw [rest]
      exact ⟨e.value :: vs, rfl, congrArg (· + 1) length_vs⟩

theorem getRest_eq (wf : c.table.WellFormed) (src : Source σ ι α) (start length : Nat) (s : σ) :
    (getRest src start length c s).2.1 = c.replay (restActs src start length c s) := by
  rw [restActs, replay_cons]
  generalize hmore : (fun values s => _) = more
  unfold getRest
  rcases fetchRange_eq src start length (c.count (·.miss length)) s more with
    ⟨e, s', failed⟩ | ⟨values, s', -, brought, acts⟩
  · rw [failed]
    rfl
  · rw [brought, acts, ← hmore]
    exact keepAll_eq (c := (c.perform (.miss length)).perform (.fetch values.length)) wf _ _ _

theorem getRange_eq (wf : c.table.WellFormed) (src : Source σ ι α) (start length : Nat) (s : σ) :
    (getRange src start length c s).2.1 = c.replay (rangeActs src start length c s) := by
  have sized := getSize_eq src c s
  have same := table_getSize src c s
  unfold getRange rangeActs
  rw [replay_append, ← sized]
  rcases told : getSize src c s with ⟨_ | size, c₁, s₁⟩
  · rfl
  · rw [told] at same
    have wf₁ : c₁.table.WellFormed := same ▸ wf
    dsimp only
    rcases guardRange start length size with _ | _
    · rfl
    · obtain ⟨vs, ran, length_vs⟩ := serveRun_eq wf₁ length start
      rw [ran]
      dsimp only
      rw [length_vs, replay_append]
      split
      · rfl
      · rw [← getRest_eq (replay_wellFormed wf₁)]
        split <;> rename_i rest <;> rw [rest]

theorem getById_eq (wf : c.table.WellFormed) (src : Source σ ι α) (id : ι) (s : σ) :
    (getById src id c s).2.1 = c.replay (byIdActs src id c s) := by
  unfold getById byIdActs
  cases found : c.table.ofId? id with
  | some h =>
    obtain ⟨e, here, rfl⟩ := wf.exists_of_ofId? found
    dsimp only
    rw [hit_eq wf here, replay_cons, ← hit_snd wf here, hit_eq wf here]
    rfl
  | none =>
    dsimp only
    rcases src.byId id s with ⟨_ | _ | v, s'⟩
    · rfl
    · rfl
    · exact place_eq (c := (c.perform (.miss 1)).perform (.fetch 1)) wf id v none

/-- A read does what its acts do. -/
theorem query_acts (wf : c.table.WellFormed) (src : Source σ ι α) (q : Query ι) (s : σ) :
    (query src q c s).2.1 = c.replay (queryActs src q c s) := by
  cases q with
  | size => exact getSize_eq src c s
  | get position => exact get_eq wf src position s
  | range start length => exact getRange_eq wf src start length s
  | byId id => exact getById_eq wf src id s

/-! ## Uses -/

/-- The cache after a use. -/
def use (c : Cache ι α) : Use ι α → Cache ι α
  | .read src s q => (query src q c s).2.1
  | .hear change => c.apply change
  | .clear => c.clear
  | .look => c

/-- The acts of a use. -/
def useActs (c : Cache ι α) : Use ι α → List (Act ι α)
  | .read src s q => queryActs src q c s
  | .hear change => [.hear change]
  | .clear => [.clear]
  | .look => []

def run (c : Cache ι α) (uses : List (Use ι α)) : Cache ι α := uses.foldl use c

/-- What `f` says of each use at its time. -/
def along {β : Type} (f : Cache ι α → Use ι α → β) : Cache ι α → List (Use ι α) → List β
  | _, [] => []
  | c, u :: uses => f c u :: along f (c.use u) uses

/-- The acts of a run. -/
def journal (c : Cache ι α) (uses : List (Use ι α)) : List (Act ι α) :=
  (along useActs c uses).flatten

theorem use_eq (wf : c.table.WellFormed) (u : Use ι α) : c.use u = c.replay (c.useActs u) := by
  cases u with
  | read src s q => exact query_acts wf src q s
  | hear change => rfl
  | clear => rfl
  | look => rfl

theorem use_wellFormed (wf : c.table.WellFormed) (u : Use ι α) :
    (c.use u).table.WellFormed := by
  rw [use_eq wf]
  exact replay_wellFormed wf

theorem journal_cons (u : Use ι α) (uses : List (Use ι α)) :
    c.journal (u :: uses) = c.useActs u ++ (c.use u).journal uses :=
  List.flatten_cons

/-- A run does what the acts of its journal do. -/
theorem run_eq (wf : c.table.WellFormed) (uses : List (Use ι α)) :
    c.run uses = c.replay (c.journal uses) := by
  induction uses generalizing c with
  | nil => rfl
  | cons u uses ih =>
    rw [journal_cons, replay_append, ← use_eq wf]
    exact ih (use_wellFormed wf u)

end Cache

end ReadThrough
