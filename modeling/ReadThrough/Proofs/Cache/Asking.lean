import ReadThrough.Cache.Read

/-!
# What a cache asks its source

A cache asks its source for the size if it does not know it, and then at most once for
objects: for a range, or for an identity.  Only with what it asks does the state of the source
change.

* `Cache.AsksRange`: after the question for the size comes one for a range, or none.
* `Cache.get_asks`, `Cache.getRange_asks` and `Cache.getById_asks` say which questions a read
  comes to, and that there is none for what is cached.
* `Source.Follows`: where asking a source leads; `Source.Follows.through` says that reading
  through a cache leads no further.
-/

namespace ReadThrough

variable {σ ι α : Type}

namespace Cache

variable {src : Source σ ι α} {c : Cache ι α} {s : σ}

theorem getSize_of_known {size : Nat} (known : c.size? = some size) :
    getSize src c s = (.ok size, c, s) := by
  rw [getSize, known]

theorem getSize_of_unknown (unknown : c.size? = none) :
    (getSize src c s).1 = (src.size s).1 ∧ (getSize src c s).2.2 = (src.size s).2 := by
  unfold getSize
  rw [unknown]
  dsimp only
  split <;> rename_i told <;> rw [told] <;> exact ⟨rfl, rfl⟩

theorem size?_getSize {size : Nat} (told : (getSize src c s).1 = .ok size) :
    (getSize src c s).2.1.size? = some size := by
  cases known : c.size? with
  | some size' =>
    rw [getSize_of_known known] at told ⊢
    cases told
    exact known
  | none =>
    unfold getSize at told ⊢
    rw [known] at told ⊢
    dsimp only at told ⊢
    split at told
    · cases told
      rfl
    · cases told

theorem coversPosition_eq_false_iff {position : Nat} :
    c.coversPosition position = false ↔ c.table.atPosition? position = none := by
  rw [coversPosition, Table.covers, Index.contains, Option.isSome_eq_false_iff,
    Option.isNone_iff_eq_none]
  rfl

theorem coversPosition_getSize (src : Source σ ι α) (c : Cache ι α) (s : σ) (position : Nat) :
    (getSize src c s).2.1.coversPosition position = c.coversPosition position := by
  unfold getSize
  split
  · rfl
  · split <;> rfl

theorem fetchRange_state (src : Source σ ι α) (start length : Nat) (c : Cache ι α) (s : σ) :
    (fetchRange src start length c s).2.2 = (src.range start length s).2 := by
  unfold fetchRange
  split
  · rename_i brought
    rw [brought]
  · rename_i brought
    dsimp only
    split <;> rw [brought]

/-- A fetch that succeeds brings a run of the right length, and counts it. -/
theorem fetchRange_of_ok {start length : Nat} {values : List α} {c' : Cache ι α} {s' : σ}
    (fetched : fetchRange src start length c s = (.ok values, c', s')) :
    src.range start length s = (.ok values, s') ∧ values.length = length ∧
      c' = c.count (·.fetch values.length) := by
  unfold fetchRange at fetched
  rcases brought : src.range start length s with ⟨e | values', s₁⟩
  · rw [brought] at fetched
    cases fetched
  · rw [brought] at fetched
    dsimp only at fetched
    split at fetched
    · rename_i whole
      cases fetched
      exact ⟨rfl, whole, rfl⟩
    · cases fetched

theorem getMissing_state [DecidableEq ι] (src : Source σ ι α) (position size : Nat) (c : Cache ι α)
    (s : σ) : (getMissing src position size c s).2.2 =
      (src.range (c.missWindow position size).start (c.missWindow position size).length s).2 := by
  unfold getMissing
  dsimp only
  rw [← fetchRange_state src _ _ (c.count (·.miss 1))]
  split <;> rename_i fetched <;> rw [fetched]

theorem getRest_state [DecidableEq ι] (src : Source σ ι α) (start length : Nat) (c : Cache ι α)
    (s : σ) : (getRest src start length c s).2.2 = (src.range start length s).2 := by
  unfold getRest
  rw [← fetchRange_state src _ _ (c.count (·.miss length))]
  split <;> rename_i fetched <;> rw [fetched]

/-- After the question for the size, the state `s'` is reached by one more question for a
range, or by none. -/
def AsksRange (src : Source σ ι α) (c : Cache ι α) (s s' : σ) : Prop :=
  s' = (getSize src c s).2.2 ∨ ∃ size start length, (getSize src c s).1 = .ok size ∧
    s' = (src.range start length (getSize src c s).2.2).2

/-- A position that is cached is served without a question for a range. -/
theorem get_asks [DecidableEq ι] (src : Source σ ι α) (position : Nat) (c : Cache ι α) (s : σ) :
    AsksRange src c s (get src position c s).2.2 ∧ (c.coversPosition position = true →
      (get src position c s).2.2 = (getSize src c s).2.2) := by
  have covers := coversPosition_getSize src c s position
  unfold AsksRange get
  rcases sized : getSize src c s with ⟨_ | size, c₁, s₁⟩
  · exact ⟨Or.inl rfl, fun _ => rfl⟩
  · rw [sized] at covers
    dsimp only at covers ⊢
    split
    · exact ⟨Or.inl rfl, fun _ => rfl⟩
    · split
      · exact ⟨Or.inl rfl, fun _ => rfl⟩
      · rename_i missing
        refine ⟨Or.inr ⟨size, _, _, rfl, getMissing_state _ _ _ _ _⟩, fun covered => ?_⟩
        rw [← covers, coversPosition, Table.covers, Index.contains] at covered
        rw [Table.atPosition?] at missing
        rw [missing] at covered
        cases covered

/-- What is cached from the start of a run on is served. -/
theorem length_serveRun {length start : Nat} {served : List α} {c' : Cache ι α}
    (ran : serveRun length start c = (.ok served, c'))
    (covered : ∀ k < length, c.coversPosition (start + k) = true) : served.length = length := by
  induction length generalizing start served c c' with
  | zero =>
    cases ran
    rfl
  | succ length ih =>
    have first := covered 0 (Nat.zero_lt_succ _)
    rw [Nat.add_zero, coversPosition, Table.covers, Index.contains] at first
    unfold serveRun at ran
    split at ran
    · rename_i missing
      rw [Table.atPosition?] at missing
      rw [missing] at first
      cases first
    · rename_i h found
      split at ran
      · cases ran
      · rename_i v c₁ hit
        -- a hit moves entries in the list, and no positions
        have covers : ∀ k, c₁.coversPosition k = c.coversPosition k := by
          intro k
          have same : (c.hit h).2.coversPosition k = c.coversPosition k := by
            unfold Cache.hit
            dsimp only
            split <;> rfl
          rwa [hit] at same
        have rest : ∀ k < length, c₁.coversPosition (start + 1 + k) = true := by
          intro k lt
          rw [covers, Nat.add_assoc, Nat.add_comm 1 k]
          exact covered (k + 1) (Nat.succ_lt_succ lt)
        split at ran
        · cases ran
        · rename_i vs c₂ ran'
          cases ran
          exact congrArg (· + 1) (ih ran' rest)

/-- A run all of which is cached is served without a question for a range. -/
theorem getRange_asks [DecidableEq ι] (src : Source σ ι α) (start length : Nat) (c : Cache ι α)
    (s : σ) :
    AsksRange src c s (getRange src start length c s).2.2 ∧
    ((∀ k < length, c.coversPosition (start + k) = true) →
      (getRange src start length c s).2.2 = (getSize src c s).2.2) := by
  have covers := coversPosition_getSize src c s
  unfold AsksRange getRange
  rcases sized : getSize src c s with ⟨_ | size, c₁, s₁⟩
  · exact ⟨Or.inl rfl, fun _ => rfl⟩
  · rw [sized] at covers
    dsimp only at covers ⊢
    split
    · exact ⟨Or.inl rfl, fun _ => rfl⟩
    · split
      · exact ⟨Or.inl rfl, fun _ => rfl⟩
      · rename_i served c₂ ran
        split
        · exact ⟨Or.inl rfl, fun _ => rfl⟩
        · rename_i short
          have state := getRest_state src (start + served.length) (length - served.length) c₂ s₁
          refine ⟨Or.inr ⟨size, start + served.length, length - served.length, rfl, ?_⟩,
            fun covered => absurd (length_serveRun ran fun k lt => ?_) short⟩
          · rw [← state]
            split <;> rename_i rest <;> rw [rest]
          · rw [covers]
            exact covered k lt

/-- An identity that is cached is served without a question. -/
theorem getById_asks [DecidableEq ι] (src : Source σ ι α) (id : ι) (c : Cache ι α) (s : σ) :
    ((getById src id c s).2.2 = s ∨ (getById src id c s).2.2 = (src.byId id s).2) ∧
      (c.coversId id = true → (getById src id c s).2.2 = s) := by
  unfold getById
  split
  · split <;> exact ⟨Or.inl rfl, fun _ => rfl⟩
  · rename_i absent
    refine ⟨Or.inr ?_, fun covered => ?_⟩
    · dsimp only
      split <;> rename_i found <;> rw [found]
    · rw [coversId, absent] at covered
      cases covered

end Cache

/-! ## Where asking leads -/

/-- Asking the source leads from a state only to such as come `next`. -/
structure Source.Follows (src : Source σ ι α) (next : σ → σ → Prop) : Prop where
  refl : ∀ s, next s s
  trans : ∀ {s s' s''}, next s s' → next s' s'' → next s s''
  size : ∀ s, next s (src.size s).2
  range : ∀ start length s, next s (src.range start length s).2
  byId : ∀ id s, next s (src.byId id s).2

namespace Source.Follows

variable {src : Source σ ι α} {next : σ → σ → Prop} {c : Cache ι α} {s s' : σ}

theorem getSize (follows : src.Follows next) (c : Cache ι α) (s : σ) :
    next s (c.getSize src s).2.2 := by
  cases known : c.size? with
  | some size =>
    rw [Cache.getSize_of_known known]
    exact follows.refl s
  | none =>
    rw [(Cache.getSize_of_unknown known).2]
    exact follows.size s

theorem asksRange (follows : src.Follows next) (asks : Cache.AsksRange src c s s') :
    next s s' := by
  rcases asks with rfl | ⟨-, start, length, -, rfl⟩
  · exact follows.getSize c s
  · exact follows.trans (follows.getSize c s) (follows.range start length _)

/-- Reading through a cache leads no further than asking the source does. -/
theorem through [DecidableEq ι] (follows : src.Follows next) :
    src.through.Follows fun p p' => next p.2 p'.2 where
  refl p := follows.refl p.2
  trans first second := follows.trans first second
  size p := follows.getSize p.1 p.2
  range start length p := follows.asksRange (Cache.getRange_asks src start length p.1 p.2).1
  byId id p := by
    change next p.2 (Cache.getById src id p.1 p.2).2.2
    rcases (Cache.getById_asks src id p.1 p.2).1 with same | asked
    · rw [same]
      exact follows.refl p.2
    · rw [asked]
      exact follows.byId id p.2

end Source.Follows

end ReadThrough
