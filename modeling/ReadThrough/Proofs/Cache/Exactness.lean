import ReadThrough.Proofs.Cache.Reading

/-!
# When reads fail

Over a reliable source a read fails only where the source was struck, or where the
request is out of bounds.  In particular an object that was fetched for a position
is always there to be answered with.

* `Query.Refused` are the faults of requests out of bounds.
* `Cache.query_error`: a read that fails is refused or was struck.
* `Source.Reliable.through`: a cache over a reliable source is reliable.
-/

namespace ReadThrough

/-- The faults with which a read is refused. -/
def Query.Refused {ι α : Type} (right : Answers ι α) : Query ι → Fault → Prop
  | .get position, e => ∃ n, right.size n ∧ guardPosition position n = .error e
  | .range start length, e => ∃ n, right.size n ∧ guardRange start length n = .error e
  | _, _ => False

namespace Cache

variable {σ ι α : Type} [DecidableEq ι]

variable {src : Source σ ι α} {right : Answers ι α} {inv struck : σ → Prop}
variable {c : Cache ι α} {s : σ} {e : Fault}
variable {identify : α → Option ι} {start : Nat} {vs : List α}

omit [DecidableEq ι] in
theorem nodup_fetched
    (unique : ∀ (i j : Nat) v w id, vs[i]? = some v → vs[j]? = some w → identify v = some id →
      identify w = some id → i = j) :
    ((fetched identify start vs).map (·.id)).Nodup := by
  induction vs generalizing start with
  | nil => exact List.nodup_nil
  | cons v vs ih =>
    have rest : ((fetched identify (start + 1) vs).map (·.id)).Nodup :=
      ih fun i j v w id at_i at_j hv hw =>
        Nat.succ.inj (unique (i + 1) (j + 1) v w id at_i at_j hv hw)
    rw [fetched]
    split
    · rename_i id found
      refine List.nodup_cons.2 ⟨fun mem => ?_, rest⟩
      obtain ⟨e, mem, same⟩ := List.mem_map.1 mem
      obtain ⟨j, at_j, named, -⟩ := mem_fetched_iff.1 mem
      have eq := unique 0 (j + 1) v e.value id rfl at_j found (named.trans (congrArg some same))
      cases eq
    · exact rest

/-- Of objects of different identities that fit together, each that has one is kept. -/
theorem exists_kept (wf : c.table.WellFormed) (start : Nat)
    (unique : ∀ (i j : Nat) v w id, vs[i]? = some v → vs[j]? = some w → identify v = some id →
      identify w = some id → i = j)
    (room : vs.length ≤ c.sizing.capacity) {i : Nat} {v : α} (at_i : vs[i]? = some v) :
    identify v = none ∨
      ∃ x ∈ (c.keepAll identify start vs).table.entries, x.position? = some (start + i) := by
  cases named : identify v with
  | none => exact Or.inl rfl
  | some id =>
    have nodup : ((fetched identify start vs ++ []).map Entry.id).Nodup := by
      rw [List.append_nil]
      exact nodup_fetched unique
    have split : c.table.entries =
        ([] : List (Entry ι α)).take c.sizing.capacity ++ c.table.entries := by
      rw [List.take_nil, List.nil_append]
    obtain ⟨back, entries⟩ := entries_keepAll wf split nodup fun x mem => by cases mem
    have fit : (fetched identify start vs).reverse.length ≤ c.sizing.capacity := by
      rw [List.length_reverse]
      exact Nat.le_trans length_fetched_le room
    refine Or.inr ⟨⟨v, id, some (start + i)⟩, ?_, rfl⟩
    rw [entries, List.append_nil, List.take_of_length_le fit]
    exact List.mem_append_left _ (List.mem_reverse.2 (mem_fetched_iff.2 ⟨i, at_i, named, rfl⟩))

omit [DecidableEq ι] in
theorem getSize_error (reliable : src.Reliable right inv struck) (hs : inv s)
    (failed : (getSize src c s).1 = .error e) : struck (getSize src c s).2.2 := by
  unfold getSize at failed ⊢
  split at failed
  · cases failed
  · have told := reliable.size s hs
    split at failed
    · cases failed
    · rename_i e' s' asked
      simp only [asked] at told ⊢
      exact told e' rfl

omit [DecidableEq ι] in
theorem fetchRange_error (reliable : src.Reliable right inv struck) (hs : inv s)
    {length n : Nat} (size : right.size n) (within : guardRange start length n = .ok ())
    (failed : (fetchRange src start length c s).1 = .error e) :
    struck (fetchRange src start length c s).2.2 := by
  have brought := reliable.range start length n s hs size within
  unfold fetchRange at failed ⊢
  split at failed
  · rename_i e' s' asked
    simp only [asked] at brought ⊢
    rcases brought with strike | ⟨vs, eq, -⟩
    · exact strike
    · cases eq
  · rename_i values s' asked
    simp only [asked] at brought ⊢
    dsimp only at failed
    split at failed
    · cases failed
    · rename_i short
      rcases brought with strike | ⟨vs, eq, whole⟩
      · rw [if_neg short]
        exact strike
      · cases eq
        exact absurd whole short

/-! ## One object -/

theorem answerFetched_ok (wf : c.table.WellFormed) {position : Nat} {v : α}
    (there : identify v = none ∨ ∃ e ∈ c.table.entries, e.position? = some position) :
    ∃ w, (c.answerFetched identify position (some v)).1 = .ok w := by
  unfold answerFetched
  split
  · rename_i h found
    obtain ⟨e, here, -⟩ := wf.exists_of_atPosition? found
    simp only [wf.entry?_promote here]
    exact ⟨e.value, rfl⟩
  · rename_i absent
    rcases there with anonymous | ⟨e, mem, at_e⟩
    · simp only [anonymous, Option.isNone_none, if_true]
      exact ⟨v, rfl⟩
    · exact absurd at_e (wf.atPosition?_eq_none_iff.1 absent e mem)

theorem getMissing_error (reliable : src.Reliable right inv struck)
    (truthful : src.Truthful right inv) (stocked : c.Stocked right) (hs : inv s)
    {position size : Nat} (known : right.size size) (inside : position < size)
    (failed : (getMissing src position size c s).1 = .error e) :
    struck (getMissing src position size c s).2.2 := by
  obtain ⟨w, window⟩ : ∃ w, w = c.missWindow position size := ⟨_, rfl⟩
  have first : w.start ≤ position := window ▸ Window.start_around_le
  have last : position < w.stop := window ▸ Window.lt_stop_around
  have stop : w.stop ≤ size := window ▸ Window.stop_around_le inside
  have short : w.length ≤ c.sizing.chunk := window ▸ Window.length_around_le c.sizing.chunk_pos
  have length : w.length = w.stop - w.start := rfl
  have within : guardRange w.start w.length size = .ok () := by
    have lt := reliable.size_lt size known
    exact guardRange_eq_ok_iff.2 ⟨by omega, by omega⟩
  have served := fetchRange_served truthful (stocked.count (·.miss 1)) hs w.start w.length
  have strike := fun e => fetchRange_error (c := c.count (·.miss 1)) (e := e) reliable hs known
    within
  unfold getMissing at failed ⊢
  rw [← window] at failed ⊢
  dsimp only at failed ⊢
  split at failed
  · rename_i e' c' s' fetch
    simp only [fetch] at strike ⊢
    exact strike e' rfl
  · rename_i values c' s' fetch
    rw [fetch] at served
    obtain ⟨count, run⟩ := served.answer values rfl
    obtain ⟨v, at_v⟩ : ∃ v, values[position - w.start]? = some v :=
      ⟨_, List.getElem?_eq_getElem (by omega)⟩
    have room : values.length ≤ c'.sizing.capacity := by
      rw [count, served.sizing]
      exact Nat.le_trans short c.sizing.chunk_le
    have there := exists_kept served.stocked.table w.start
      (fun i j v w id at_i at_j hv hw => Nat.add_left_cancel
        (reliable.unique s' served.inv _ _ v w id (run i v at_i) (run j w at_j) hv hw))
      room at_v
    rw [Nat.add_sub_cancel' first] at there
    have kept := served.stocked.keepAll (truthful.identify s' served.inv) run
    obtain ⟨answer, ok⟩ := answerFetched_ok kept.table there
    dsimp only at failed
    rw [at_v, ok] at failed
    cases failed

theorem get_error (reliable : src.Reliable right inv struck)
    (truthful : src.Truthful right inv) (stocked : c.Stocked right) (hs : inv s) {position : Nat}
    (failed : (get src position c s).1 = .error e) :
    struck (get src position c s).2.2 ∨ (Query.get position).Refused right e := by
  have sized := getSize_served truthful stocked hs
  have told := fun e => getSize_error (c := c) (e := e) reliable hs
  unfold get at failed ⊢
  split at failed
  · rename_i e' c' s' asked
    simp only [asked] at told ⊢
    exact Or.inl (told e' rfl)
  · rename_i size c' s' asked
    rw [asked] at sized
    have stocked' : c'.Stocked right := sized.stocked
    have known : right.size size := sized.answer size rfl
    split at failed
    · rename_i e' outside
      cases failed
      exact Or.inr ⟨size, known, outside⟩
    · rename_i within
      have inside : position < size := guardPosition_eq_ok_iff.1 within
      split at failed
      · rename_i h found
        obtain ⟨x, here, -⟩ := stocked'.table.exists_of_atPosition? found
        rw [hit_eq stocked'.table here] at failed
        cases failed
      · exact Or.inl (getMissing_error reliable truthful stocked' sized.inv known inside failed)

theorem getById_error (reliable : src.Reliable right inv struck) (stocked : c.Stocked right)
    (hs : inv s) {id : ι} (failed : (getById src id c s).1 = .error e) :
    struck (getById src id c s).2.2 := by
  have told := reliable.byId id s hs
  unfold getById at failed ⊢
  split at failed
  · rename_i h found
    obtain ⟨x, here, -⟩ := stocked.table.exists_of_ofId? found
    rw [hit_eq stocked.table here] at failed
    cases failed
  · dsimp only at failed ⊢
    split at failed
    · rename_i e' s' asked
      simp only [asked] at told ⊢
      exact told e' rfl
    · cases failed
    · cases failed

/-! ## A range -/

theorem getRest_error (reliable : src.Reliable right inv struck) (hs : inv s)
    {length n : Nat} (size : right.size n) (within : guardRange start length n = .ok ())
    (failed : (getRest src start length c s).1 = .error e) :
    struck (getRest src start length c s).2.2 := by
  have strike := fun e => fetchRange_error (c := c.count (·.miss length)) (e := e) reliable hs
    size within
  unfold getRest at failed ⊢
  split at failed
  · rename_i e' c' s' fetch
    simp only [fetch] at strike ⊢
    exact strike e' rfl
  · cases failed

theorem getRange_error (reliable : src.Reliable right inv struck)
    (truthful : src.Truthful right inv) (stocked : c.Stocked right) (hs : inv s) {length : Nat}
    (failed : (getRange src start length c s).1 = .error e) :
    struck (getRange src start length c s).2.2 ∨ (Query.range start length).Refused right e := by
  have sized := getSize_served truthful stocked hs
  have told := fun e => getSize_error (c := c) (e := e) reliable hs
  unfold getRange at failed ⊢
  split at failed
  · rename_i e' c' s' asked
    simp only [asked] at told ⊢
    exact Or.inl (told e' rfl)
  · rename_i size c' s' asked
    rw [asked] at sized
    have stocked' : c'.Stocked right := sized.stocked
    have known : right.size size := sized.answer size rfl
    split at failed
    · rename_i e' outside
      cases failed
      exact Or.inr ⟨size, known, outside⟩
    · rename_i within
      obtain ⟨-, -, vs, ran, le, -⟩ := serveRun_spec stocked' length start
      split at failed
      · rename_i e' c'' serve
        rw [serve] at ran
        cases ran
      · rename_i served c'' serve
        rw [serve] at ran
        cases ran
        split at failed
        · cases failed
        · rename_i part
          rw [if_neg part]
          have rest : guardRange (start + vs.length) (length - vs.length) size = .ok () := by
            obtain ⟨lt, le'⟩ := guardRange_eq_ok_iff.1 within
            exact guardRange_eq_ok_iff.2 ⟨by omega, by omega⟩
          have strike := fun e => getRest_error (c := c'') (e := e) reliable sized.inv known rest
          split at failed
          · rename_i e' c₃ s₃ missed
            simp only [missed] at strike ⊢
            exact Or.inl (strike e' rfl)
          · cases failed

/-! ## All reads -/

/-- A read that fails is refused, or was struck. -/
theorem query_error (reliable : src.Reliable right inv struck)
    (truthful : src.Truthful right inv) (stocked : c.Stocked right) (hs : inv s) {q : Query ι}
    (failed : (query src q c s).1 = .error e) :
    struck (query src q c s).2.2 ∨ q.Refused right e := by
  cases q with
  | size => exact Or.inl (getSize_error reliable hs failed)
  | get position => exact get_error reliable truthful stocked hs failed
  | range start length => exact getRange_error reliable truthful stocked hs failed
  | byId id => exact Or.inl (getById_error reliable stocked hs failed)

end Cache

/-- A cache over a reliable source is reliable, if the source has but one size. -/
theorem Source.Reliable.through {σ ι α : Type} [DecidableEq ι] {src : Source σ ι α}
    {right : Answers ι α} {inv struck : σ → Prop} (reliable : src.Reliable right inv struck)
    (truthful : src.Truthful right inv) (one : ∀ m n, right.size m → right.size n → m = n) :
    src.through.Reliable right (fun p => p.1.Stocked right ∧ inv p.2) fun p => struck p.2 where
  size p hp e failed := Cache.getSize_error reliable hp.2 failed
  range start length n p hp size within := by
    have served := Cache.getRange_served truthful hp.1 hp.2 start length
    cases answer : (Cache.getRange src start length p.1 p.2).1 with
    | ok vs => exact Or.inr ⟨vs, answer, (served.answer vs answer).1⟩
    | error e =>
      refine Or.inl ((Cache.getRange_error reliable truthful hp.1 hp.2 answer).resolve_right ?_)
      intro ⟨m, size', outside⟩
      rw [one m n size' size, within] at outside
      cases outside
  byId id p hp e failed := Cache.getById_error reliable hp.1 hp.2 failed
  size_lt := reliable.size_lt
  unique p hp := reliable.unique p.2 hp.2

end ReadThrough
