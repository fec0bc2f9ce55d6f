import Mathlib.Algebra.GroupWithZero.Nat
import ReadThrough.Proofs.Cache.Asking
import ReadThrough.Proofs.Cache.Phrases

/-!
# Lookups and answers

Some counters of a cache say what it was asked for and what it asked for itself.  They are
counted act by act, so they can be read off the journal of a run, and the journal off the run.

* `Cache.Books` is what acts add to these counters, and `Cache.books_replay` that they do.
* `Query.demand` is how many lookups a read comes to, whatever the source brings;
  `Cache.lookups_journal` finds as many in the journal.
* `Source.answering` writes down how much a source brings with each answer;
  `Cache.query_answering` finds the same in the journal.
-/

namespace ReadThrough

variable {σ ι α : Type}

/-! ## What acts add to the counters -/

namespace Act

/-- The lookups that the act counts. -/
def lookups : Act ι α → Nat
  | .hit _ => 1
  | .miss lookups => lookups
  | _ => 0

/-- Those of them that were not served. -/
def missed : Act ι α → Nat
  | .miss lookups => lookups
  | _ => 0

/-- How many objects an answer brought, if the act is one. -/
def answer? : Act ι α → Option Nat
  | .fetch objects => some objects
  | _ => none

end Act

/-- How many objects each answer of the source brought. -/
def answers (acts : List (Act ι α)) : List Nat := acts.filterMap Act.answer?

/-- How many lookups a read comes to: that of a position or of a range once the source told a
size with which there are these positions, that of an identity always. -/
def Query.demand (size : Except Fault Nat) : Query ι → Nat
  | .size => 0
  | .get position =>
    match size with
    | .ok size => if position < size then 1 else 0
    | .error _ => 0
  | .range start length =>
    match size with
    | .ok size => if start + length < wordLimit ∧ start + length ≤ size then length else 0
    | .error _ => 0
  | .byId _ => 1

namespace Cache

variable [DecidableEq ι] {c : Cache ι α} {act : Act ι α} {acts acts' : List (Act ι α)}

/-- What the acts add to the counters of lookups and fetches. -/
structure Books (acts : List (Act ι α)) (before after : Stats) : Prop where
  lookups : after.lookups = before.lookups + (acts.map Act.lookups).sum
  misses : after.misses = before.misses + (acts.map Act.missed).sum
  fetches : after.fetches = before.fetches + (answers acts).length
  fetchedObjects : after.fetchedObjects = before.fetchedObjects + (answers acts).sum

omit [DecidableEq ι] in
theorem Books.append {first second third : Stats} (books : Books acts first second)
    (more : Books acts' second third) : Books (acts ++ acts') first third := by
  constructor
  · rw [more.lookups, books.lookups, List.map_append, List.sum_append, Nat.add_assoc]
  · rw [more.misses, books.misses, List.map_append, List.sum_append, Nat.add_assoc]
  · rw [more.fetches, books.fetches, answers, answers, answers, List.filterMap_append,
      List.length_append, Nat.add_assoc]
  · rw [more.fetchedObjects, books.fetchedObjects, answers, answers, answers,
      List.filterMap_append, List.sum_append, Nat.add_assoc]

@[simp] theorem stats_touch (id : ι) : (c.touch id).stats = c.stats := by
  unfold touch
  split <;> rfl

theorem books_perform (act : Act ι α) : Books [act] c.stats (c.perform act).stats := by
  cases act with
  | hit id =>
    have counted : (c.perform (.hit id)).stats = c.stats.hit := by
      change (c.touch id).stats.hit = _
      rw [stats_touch]
    rw [counted]
    exact ⟨Nat.add_right_comm _ _ _, rfl, rfl, rfl⟩
  | miss lookups => exact ⟨(Nat.add_assoc _ _ _).symm, rfl, rfl, rfl⟩
  | fetch objects => exact ⟨rfl, rfl, rfl, rfl⟩
  | promote id =>
    rw [perform, stats_touch]
    exact ⟨rfl, rfl, rfl, rfl⟩
  | evict =>
    rw [perform]
    split <;> exact ⟨rfl, rfl, rfl, rfl⟩
  | hear change =>
    rw [perform]
    unfold apply
    split <;> try exact ⟨rfl, rfl, rfl, rfl⟩
    split <;> exact ⟨rfl, rfl, rfl, rfl⟩
  | _ => exact ⟨rfl, rfl, rfl, rfl⟩

theorem books_replay (acts : List (Act ι α)) : Books acts c.stats (c.replay acts).stats := by
  induction acts generalizing c with
  | nil => exact ⟨rfl, rfl, rfl, rfl⟩
  | cons act acts ih => exact (books_perform act).append ih

/-! ## Lookups -/

/-- How many lookups a use comes to. -/
def demand (c : Cache ι α) : Use ι α → Nat
  | .read src s q => q.demand (getSize src c s).1
  | _ => 0

/-- Acts that store, make room, or bring the entry asked for to the front. -/
def Tacit (acts : List (Act ι α)) : Prop :=
  ∀ act ∈ acts, act.lookups = 0 ∧ act.missed = 0 ∧ act.answer? = none

section

omit [DecidableEq ι]

theorem Tacit.append (tacit : Tacit acts) (tacit' : Tacit acts') : Tacit (acts ++ acts') :=
  fun act mem => (List.mem_append.1 mem).elim (tacit act) (tacit' act)

theorem Tacit.lookups (tacit : Tacit acts) : (acts.map Act.lookups).sum = 0 := by
  refine List.sum_eq_zero_iff_forall_eq_nat.2 fun n mem => ?_
  obtain ⟨act, done, rfl⟩ := List.mem_map.1 mem
  exact (tacit act done).1

theorem Tacit.answers (tacit : Tacit acts) : answers acts = [] :=
  List.filterMap_eq_nil_iff.2 fun act mem => (tacit act mem).2.2

theorem tacit_sizeActs (src : Source σ ι α) (c : Cache ι α) (s : σ) :
    Tacit (sizeActs src c s) := by
  intro act mem
  unfold sizeActs at mem
  split at mem
  · cases mem
  · split at mem
    · cases List.mem_singleton.1 mem
      exact ⟨rfl, rfl, rfl⟩
    · cases mem

theorem tacit_recallActs (position : Nat) : Tacit (c.recallActs position) := by
  intro act mem
  unfold recallActs at mem
  split at mem
  · cases List.mem_singleton.1 mem
    exact ⟨rfl, rfl, rfl⟩
  · cases mem

end

theorem tacit_placeActs (id : ι) (value : α) (position? : Option Nat) :
    Tacit (c.placeActs id value position?) := by
  intro act mem
  rcases List.mem_cons.1 mem with rfl | mem
  · exact ⟨rfl, rfl, rfl⟩
  · cases List.eq_of_mem_replicate mem
    exact ⟨rfl, rfl, rfl⟩

theorem tacit_of_stores {objects : Nat} (stores : Stores c objects acts) : Tacit acts := by
  induction stores with
  | done => exact fun act mem => absurd mem List.not_mem_nil
  | skip _ ih => exact ih
  | place id value position? _ ih => exact (tacit_placeActs id value position?).append ih

theorem tacit_keepAllActs (wf : c.table.WellFormed) (identify : α → Option ι) (start : Nat)
    (vs : List α) : Tacit (c.keepAllActs identify start vs) :=
  tacit_of_stores (stores_keepAll wf identify start vs)

theorem lookups_serveActs (length start : Nat) :
    ((serveActs length start c).map Act.lookups).sum = (serveActs length start c).length := by
  induction length generalizing start c with
  | zero => rfl
  | succ length ih =>
    unfold serveActs
    split
    · rw [List.map_cons, List.sum_cons, ih, List.length_cons, Nat.add_comm]
      rfl
    · rfl

omit [DecidableEq ι] in
theorem lookups_fetchActs {src : Source σ ι α} {start length : Nat} {s : σ}
    {more : List α → σ → List (Act ι α)} (tacit : ∀ values s', Tacit (more values s')) :
    ((fetchActs src start length s more).map Act.lookups).sum = 0 := by
  unfold fetchActs
  split
  · rfl
  · split
    · exact (Nat.zero_add _).trans (tacit _ _).lookups
    · rfl

theorem lookups_missActs (wf : c.table.WellFormed) (src : Source σ ι α) (position size : Nat)
    (s : σ) : ((missActs src position size c s).map Act.lookups).sum = 1 := by
  unfold missActs
  rw [List.map_cons, List.sum_cons, lookups_fetchActs]
  · rfl
  · intro values s'
    have wf' : ((c.perform (.miss 1)).perform (.fetch values.length)).table.WellFormed := wf
    exact (tacit_keepAllActs wf' _ _ _).append (tacit_recallActs position)

theorem lookups_restActs (wf : c.table.WellFormed) (src : Source σ ι α) (start length : Nat)
    (s : σ) : ((restActs src start length c s).map Act.lookups).sum = length := by
  unfold restActs
  rw [List.map_cons, List.sum_cons, lookups_fetchActs]
  · rfl
  · intro values s'
    have wf' : ((c.perform (.miss length)).perform (.fetch values.length)).table.WellFormed := wf
    exact tacit_keepAllActs wf' _ _ _

theorem lookups_getActs (wf : c.table.WellFormed) (src : Source σ ι α) (position : Nat) (s : σ) :
    ((getActs src position c s).map Act.lookups).sum =
      (Query.get position : Query ι).demand (getSize src c s).1 := by
  unfold getActs Query.demand
  rw [List.map_append, List.sum_append, (tacit_sizeActs src c s).lookups, Nat.zero_add]
  have wf₁ : (getSize src c s).2.1.table.WellFormed := by rwa [table_getSize]
  revert wf₁
  rcases getSize src c s with ⟨_ | size, c₁, s₁⟩ <;> intro wf₁
  · rfl
  · change c₁.table.WellFormed at wf₁
    dsimp only
    cases guard : guardPosition position size with
    | error e =>
      have out : ¬ position < size := fun lt => by
        rw [guardPosition_eq_ok_iff.2 lt] at guard
        cases guard
      rw [if_neg out]
      rfl
    | ok u =>
      rw [if_pos (guardPosition_eq_ok_iff.1 guard)]
      dsimp only
      split
      · rfl
      · exact lookups_missActs wf₁ src position size s₁

theorem lookups_rangeActs (wf : c.table.WellFormed) (src : Source σ ι α) (start length : Nat)
    (s : σ) : ((rangeActs src start length c s).map Act.lookups).sum =
      (Query.range start length : Query ι).demand (getSize src c s).1 := by
  unfold rangeActs Query.demand
  rw [List.map_append, List.sum_append, (tacit_sizeActs src c s).lookups, Nat.zero_add]
  have wf₁ : (getSize src c s).2.1.table.WellFormed := by rwa [table_getSize]
  revert wf₁
  rcases getSize src c s with ⟨_ | size, c₁, s₁⟩ <;> intro wf₁
  · rfl
  · change c₁.table.WellFormed at wf₁
    dsimp only
    cases guard : guardRange start length size with
    | error e =>
      have out : ¬ (start + length < wordLimit ∧ start + length ≤ size) := fun within => by
        rw [guardRange_eq_ok_iff.2 within] at guard
        cases guard
      rw [if_neg out]
      rfl
    | ok u =>
      rw [if_pos (guardRange_eq_ok_iff.1 guard)]
      dsimp only
      rw [List.map_append, List.sum_append, lookups_serveActs]
      split
      · rename_i all
        exact all
      · have le := length_serveActs_le (c := c₁) length start
        rw [lookups_restActs (replay_wellFormed wf₁)]
        omega

/-- A use counts as many lookups as it comes to. -/
theorem lookups_useActs (wf : c.table.WellFormed) (u : Use ι α) :
    ((c.useActs u).map Act.lookups).sum = c.demand u := by
  cases u with
  | read src s q =>
    cases q with
    | size => exact (tacit_sizeActs src c s).lookups
    | get position => exact lookups_getActs wf src position s
    | range start length => exact lookups_rangeActs wf src start length s
    | byId id =>
      change ((byIdActs src id c s).map Act.lookups).sum = 1
      unfold byIdActs
      split
      · rfl
      · rw [List.map_cons, List.sum_cons]
        split
        · rfl
        · rfl
        · rw [List.map_cons, List.sum_cons, (tacit_placeActs _ _ _).lookups]
          rfl
  | _ => rfl

end Cache

/-! ## Answers -/

/-- How many objects the source brings for a range, if it answers. -/
def Source.rangeAnswer (src : Source σ ι α) (start length : Nat) (s : σ) : List Nat :=
  match (src.range start length s).1 with
  | .ok values => [values.length]
  | .error _ => []

/-- How many objects the source brings for an identity, if it answers. -/
def Source.byIdAnswer (src : Source σ ι α) (id : ι) (s : σ) : List Nat :=
  match (src.byId id s).1 with
  | .ok found => [if found.isSome then 1 else 0]
  | .error _ => []

/-- The source that also writes down how many objects it brings with each answer. -/
def Source.answering (src : Source σ ι α) : Source (σ × List Nat) ι α where
  size p := ((src.size p.1).1, (src.size p.1).2, p.2)
  range start length p := ((src.range start length p.1).1, (src.range start length p.1).2,
    p.2 ++ src.rangeAnswer start length p.1)
  byId id p := ((src.byId id p.1).1, (src.byId id p.1).2, p.2 ++ src.byIdAnswer id p.1)
  identify p := src.identify p.1

namespace Cache

variable [DecidableEq ι] {c : Cache ι α} {acts acts' : List (Act ι α)}

/-- The same answer, with what was written down. -/
def written {ρ : Type} (answer : Except Fault ρ × Cache ι α × σ) (log : List Nat) :
    Except Fault ρ × Cache ι α × σ × List Nat :=
  (answer.1, answer.2.1, answer.2.2, log)

section

omit [DecidableEq ι]

theorem getSize_answering (src : Source σ ι α) (c : Cache ι α) (s : σ) (log : List Nat) :
    getSize src.answering c (s, log) = written (getSize src c s) log := by
  unfold getSize Source.answering written
  dsimp only
  cases c.size? with
  | some size => rfl
  | none => rcases src.size s with ⟨_ | size, s'⟩ <;> rfl

theorem fetchRange_answering (src : Source σ ι α) (start length : Nat) (c : Cache ι α) (s : σ)
    (log : List Nat) : fetchRange src.answering start length c (s, log) =
      written (fetchRange src start length c s) (log ++ src.rangeAnswer start length s) := by
  unfold fetchRange Source.answering written
  dsimp only
  rcases src.range start length s with ⟨_ | values, s'⟩
  · rfl
  · dsimp only
    split <;> rfl

/-- What follows an answer to a range brings no answers. -/
theorem answers_fetchActs {src : Source σ ι α} {start length : Nat} {s : σ}
    {more : List α → σ → List (Act ι α)} (tacit : ∀ values s', Tacit (more values s')) :
    answers (fetchActs src start length s more) = src.rangeAnswer start length s := by
  unfold fetchActs Source.rangeAnswer
  rcases src.range start length s with ⟨_ | values, s'⟩
  · rfl
  · dsimp only
    split
    · exact congrArg (values.length :: ·) (tacit _ _).answers
    · rfl

@[simp] theorem answers_nil : answers ([] : List (Act ι α)) = [] := rfl

theorem answers_append : answers (acts ++ acts') = answers acts ++ answers acts' :=
  List.filterMap_append

end

theorem answers_missActs (wf : c.table.WellFormed) (src : Source σ ι α) (position size : Nat)
    (s : σ) : answers (missActs src position size c s) =
      src.rangeAnswer (c.missWindow position size).start (c.missWindow position size).length s := by
  refine answers_fetchActs fun values s' => ?_
  have wf' : ((c.perform (.miss 1)).perform (.fetch values.length)).table.WellFormed := wf
  exact (tacit_keepAllActs wf' _ _ _).append (tacit_recallActs position)

theorem answers_restActs (wf : c.table.WellFormed) (src : Source σ ι α) (start length : Nat)
    (s : σ) : answers (restActs src start length c s) = src.rangeAnswer start length s := by
  refine answers_fetchActs fun values s' => ?_
  have wf' : ((c.perform (.miss length)).perform (.fetch values.length)).table.WellFormed := wf
  exact tacit_keepAllActs wf' _ _ _

theorem getMissing_answering (wf : c.table.WellFormed) (src : Source σ ι α) (position size : Nat)
    (s : σ) (log : List Nat) : getMissing src.answering position size c (s, log) =
      written (getMissing src position size c s)
        (log ++ answers (missActs src position size c s)) := by
  rw [answers_missActs wf]
  unfold getMissing
  dsimp only
  rw [fetchRange_answering]
  rcases fetchRange src _ _ (c.count (·.miss 1)) s with ⟨_ | values, c', s'⟩ <;> rfl

theorem get_answering (wf : c.table.WellFormed) (src : Source σ ι α) (position : Nat) (s : σ)
    (log : List Nat) : get src.answering position c (s, log) =
      written (get src position c s) (log ++ answers (getActs src position c s)) := by
  unfold get getActs
  rw [getSize_answering, answers_append, (tacit_sizeActs src c s).answers, List.nil_append]
  have wf₁ : (getSize src c s).2.1.table.WellFormed := by rwa [table_getSize]
  revert wf₁
  rcases getSize src c s with ⟨_ | size, c₁, s₁⟩ <;> intro wf₁
  · simp only [written, answers_nil, List.append_nil]
  · change c₁.table.WellFormed at wf₁
    unfold written
    dsimp only
    rcases guardPosition position size with _ | _
    · simp only [answers_nil, List.append_nil]
    · dsimp only
      cases found : c₁.table.entryAt? position with
      | none =>
        rw [(entryAt?_eq_none_iff wf₁).1 found]
        exact getMissing_answering wf₁ src position size s₁ log
      | some e =>
        obtain ⟨h, at_h, -⟩ := exists_of_entryAt? found
        have none : answers [(Act.hit e.id : Act ι α)] = [] := rfl
        simp only [at_h, none, List.append_nil]

theorem getRest_answering (wf : c.table.WellFormed) (src : Source σ ι α) (start length : Nat)
    (s : σ) (log : List Nat) : getRest src.answering start length c (s, log) =
      written (getRest src start length c s)
        (log ++ answers (restActs src start length c s)) := by
  rw [answers_restActs wf]
  unfold getRest
  rw [fetchRange_answering]
  rcases fetchRange src start length (c.count (·.miss length)) s with ⟨_ | values, c', s'⟩ <;> rfl

theorem answers_serveActs (length start : Nat) : answers (serveActs length start c) = [] := by
  induction length generalizing start c with
  | zero => rfl
  | succ length ih =>
    unfold serveActs
    split
    · exact ih _
    · rfl

theorem getRange_answering (wf : c.table.WellFormed) (src : Source σ ι α) (start length : Nat)
    (s : σ) (log : List Nat) : getRange src.answering start length c (s, log) =
      written (getRange src start length c s)
        (log ++ answers (rangeActs src start length c s)) := by
  unfold getRange rangeActs
  rw [getSize_answering, answers_append, (tacit_sizeActs src c s).answers, List.nil_append]
  have wf₁ : (getSize src c s).2.1.table.WellFormed := by rwa [table_getSize]
  revert wf₁
  rcases getSize src c s with ⟨_ | size, c₁, s₁⟩ <;> intro wf₁
  · simp only [written, answers_nil, List.append_nil]
  · change c₁.table.WellFormed at wf₁
    unfold written
    dsimp only
    rcases guardRange start length size with _ | _
    · simp only [answers_nil, List.append_nil]
    · obtain ⟨vs, ran, length_vs⟩ := serveRun_eq wf₁ length start
      dsimp only
      rw [ran, answers_append, answers_serveActs, List.nil_append]
      dsimp only
      rw [length_vs]
      split
      · simp only [answers_nil, List.append_nil]
      · rw [getRest_answering (replay_wellFormed wf₁)]
        rcases getRest src _ _ _ s₁ with ⟨_ | rest, c₂, s₂⟩ <;> rfl

theorem getById_answering (src : Source σ ι α) (id : ι) (s : σ) (log : List Nat) :
    getById src.answering id c (s, log) =
      written (getById src id c s) (log ++ answers (byIdActs src id c s)) := by
  unfold getById byIdActs
  cases found : c.table.ofId? id with
  | some h =>
    have none : answers [(Act.hit id : Act ι α)] = [] := rfl
    dsimp only
    rw [none, List.append_nil]
    rcases c.hit h with ⟨_ | v, c'⟩ <;> rfl
  | none =>
    dsimp only [Source.answering, Source.byIdAnswer]
    rcases src.byId id s with ⟨_ | _ | v, s'⟩
    · rfl
    · rfl
    · have tacit :=
        (tacit_placeActs (c := (c.perform (.miss 1)).perform (.fetch 1)) id v none).answers
      have one : answers (.miss 1 :: .fetch 1 ::
          ((c.perform (.miss 1)).perform (.fetch 1)).placeActs id v none) = [1] :=
        congrArg (1 :: ·) tacit
      dsimp only
      rw [one]
      rfl

/-- Writing down the answers changes nothing else, and it gives those of the journal. -/
theorem query_answering (wf : c.table.WellFormed) (src : Source σ ι α) (q : Query ι) (s : σ)
    (log : List Nat) : query src.answering q c (s, log) =
      written (query src q c s) (log ++ answers (queryActs src q c s)) := by
  cases q with
  | size =>
    refine (getSize_answering src c s log).trans (congrArg (written _) ?_)
    rw [queryActs, (tacit_sizeActs src c s).answers, List.append_nil]
  | get position => exact get_answering wf src position s log
  | range start length => exact getRange_answering wf src start length s log
  | byId id => exact getById_answering src id s log

/-! ## Runs -/

/-- What the source answers in the course of a use. -/
def answersTo (c : Cache ι α) : Use ι α → List Nat
  | .read src s q => (query src.answering q c (s, [])).2.2.2
  | _ => []

theorem answers_useActs (wf : c.table.WellFormed) (u : Use ι α) :
    answers (c.useActs u) = c.answersTo u := by
  cases u with
  | read src s q =>
    rw [answersTo, query_answering wf]
    rfl
  | _ => rfl

/-- The journal comes to as many lookups as its uses. -/
theorem lookups_journal (wf : c.table.WellFormed) (uses : List (Use ι α)) :
    ((c.journal uses).map Act.lookups).sum = (along demand c uses).sum := by
  induction uses generalizing c with
  | nil => rfl
  | cons u uses ih =>
    rw [journal_cons, List.map_append, List.sum_append, lookups_useActs wf, along, List.sum_cons,
      ih (use_wellFormed wf u)]

theorem answers_journal (wf : c.table.WellFormed) (uses : List (Use ι α)) :
    answers (c.journal uses) = (along answersTo c uses).flatten := by
  induction uses generalizing c with
  | nil => rfl
  | cons u uses ih =>
    rw [journal_cons, answers_append, answers_useActs wf, along, List.flatten_cons,
      ih (use_wellFormed wf u)]

end Cache

end ReadThrough
