import ReadThrough.Proofs.Cache.Reading

/-!
# Sources that agree

Two sources agree if they answer the same wherever their states are related, and come to
related states by it.  A cache cannot tell such sources apart: it asks them for the same, and
keeps the same of what they answer.

* `Source.Agrees src src' related`: the sources agree on related states.
* `Cache.Same related`: two results that differ in nothing but the states of the sources.
* `Cache.query_agrees`: a read through the cache gives the same over both.
-/

namespace ReadThrough

variable {σ τ ι α β : Type}

structure Source.Agrees (src : Source σ ι α) (src' : Source τ ι α) (related : σ → τ → Prop) :
    Prop where
  size : ∀ s t, related s t →
    (src.size s).1 = (src'.size t).1 ∧ related (src.size s).2 (src'.size t).2
  range : ∀ start length s t, related s t →
    (src.range start length s).1 = (src'.range start length t).1 ∧
      related (src.range start length s).2 (src'.range start length t).2
  byId : ∀ id s t, related s t →
    (src.byId id s).1 = (src'.byId id t).1 ∧ related (src.byId id s).2 (src'.byId id t).2
  identify : ∀ s t, related s t → src.identify s = src'.identify t

namespace Cache

/-- The same answer and the same cache, with related states behind it. -/
inductive Same (related : σ → τ → Prop) : β × Cache ι α × σ → β × Cache ι α × τ → Prop
  | of {s : σ} {t : τ} (answer : β) (c : Cache ι α) : related s t →
    Same related (answer, c, s) (answer, c, t)

variable {src : Source σ ι α} {src' : Source τ ι α} {related : σ → τ → Prop} {s : σ} {t : τ}
variable {c : Cache ι α}

theorem getSize_agrees (agrees : src.Agrees src' related) (rel : related s t) (c : Cache ι α) :
    Same related (c.getSize src s) (c.getSize src' t) := by
  unfold getSize
  cases c.size? with
  | some size => exact .of _ _ rel
  | none =>
    have told := agrees.size s t rel
    revert told
    rcases src.size s with ⟨answer, s'⟩
    rcases src'.size t with ⟨answer', t'⟩
    rintro ⟨told, rel'⟩
    obtain rfl : answer = answer' := told
    cases answer <;> exact .of _ _ rel'

theorem fetchRange_agrees (agrees : src.Agrees src' related) (rel : related s t)
    (start length : Nat) (c : Cache ι α) :
    Same related (fetchRange src start length c s) (fetchRange src' start length c t) := by
  unfold fetchRange
  have told := agrees.range start length s t rel
  revert told
  rcases src.range start length s with ⟨answer, s'⟩
  rcases src'.range start length t with ⟨answer', t'⟩
  rintro ⟨told, rel'⟩
  obtain rfl : answer = answer' := told
  cases answer with
  | error e => exact .of _ _ rel'
  | ok values =>
    dsimp only
    split <;> exact .of _ _ rel'

variable [DecidableEq ι]

theorem getMissing_agrees (agrees : src.Agrees src' related) (rel : related s t)
    (position size : Nat) (c : Cache ι α) :
    Same related (getMissing src position size c s) (getMissing src' position size c t) := by
  unfold getMissing
  have fetched := fetchRange_agrees agrees rel (c.missWindow position size).start
    (c.missWindow position size).length (c.count (·.miss 1))
  dsimp only
  revert fetched
  rcases fetchRange src _ _ _ s with ⟨answer, c₁, s₁⟩
  rcases fetchRange src' _ _ _ t with ⟨answer', c₁', t₁⟩
  rintro ⟨-, -, rel₁⟩
  cases answer with
  | error e => exact .of _ _ rel₁
  | ok values =>
    dsimp only
    rw [agrees.identify s₁ t₁ rel₁]
    exact .of _ _ rel₁

theorem get_agrees (agrees : src.Agrees src' related) (rel : related s t) (position : Nat)
    (c : Cache ι α) : Same related (get src position c s) (get src' position c t) := by
  unfold get
  have sized := getSize_agrees agrees rel c
  revert sized
  rcases getSize src c s with ⟨answer, c₁, s₁⟩
  rcases getSize src' c t with ⟨answer', c₁', t₁⟩
  rintro ⟨-, -, rel₁⟩
  cases answer with
  | error e => exact .of _ _ rel₁
  | ok size =>
    dsimp only
    cases guardPosition position size with
    | error e => exact .of _ _ rel₁
    | ok within =>
      dsimp only
      cases c₁.table.atPosition? position with
      | some h => exact .of _ _ rel₁
      | none => exact getMissing_agrees agrees rel₁ position size c₁

theorem getRest_agrees (agrees : src.Agrees src' related) (rel : related s t)
    (start length : Nat) (c : Cache ι α) :
    Same related (getRest src start length c s) (getRest src' start length c t) := by
  unfold getRest
  have fetched := fetchRange_agrees agrees rel start length (c.count (·.miss length))
  revert fetched
  rcases fetchRange src _ _ _ s with ⟨answer, c₁, s₁⟩
  rcases fetchRange src' _ _ _ t with ⟨answer', c₁', t₁⟩
  rintro ⟨-, -, rel₁⟩
  cases answer with
  | error e => exact .of _ _ rel₁
  | ok values =>
    dsimp only
    rw [agrees.identify s₁ t₁ rel₁]
    exact .of _ _ rel₁

theorem getRange_agrees (agrees : src.Agrees src' related) (rel : related s t)
    (start length : Nat) (c : Cache ι α) :
    Same related (getRange src start length c s) (getRange src' start length c t) := by
  unfold getRange
  have sized := getSize_agrees agrees rel c
  revert sized
  rcases getSize src c s with ⟨answer, c₁, s₁⟩
  rcases getSize src' c t with ⟨answer', c₁', t₁⟩
  rintro ⟨-, -, rel₁⟩
  cases answer with
  | error e => exact .of _ _ rel₁
  | ok size =>
    dsimp only
    cases guardRange start length size with
    | error e => exact .of _ _ rel₁
    | ok within =>
      dsimp only
      rcases serveRun length start c₁ with ⟨_ | served, c₂⟩
      · exact .of _ _ rel₁
      · dsimp only
        split
        · exact .of _ _ rel₁
        · have rest := getRest_agrees agrees rel₁ (start + served.length)
            (length - served.length) c₂
          revert rest
          rcases getRest src _ _ c₂ s₁ with ⟨answer, c₃, s₃⟩
          rcases getRest src' _ _ c₂ t₁ with ⟨answer', c₃', t₃⟩
          rintro ⟨-, -, rel₃⟩
          cases answer <;> exact .of _ _ rel₃

theorem getById_agrees (agrees : src.Agrees src' related) (rel : related s t) (id : ι)
    (c : Cache ι α) : Same related (getById src id c s) (getById src' id c t) := by
  unfold getById
  cases c.table.ofId? id with
  | some h =>
    dsimp only
    rcases c.hit h with ⟨_ | v, c₁⟩ <;> exact .of _ _ rel
  | none =>
    dsimp only
    have told := agrees.byId id s t rel
    revert told
    rcases src.byId id s with ⟨answer, s'⟩
    rcases src'.byId id t with ⟨answer', t'⟩
    rintro ⟨told, rel'⟩
    obtain rfl : answer = answer' := told
    rcases answer with e | _ | v <;> exact .of _ _ rel'

/-- A read through a cache is the same over sources that agree. -/
theorem query_agrees (agrees : src.Agrees src' related) (rel : related s t) (q : Query ι)
    (c : Cache ι α) : Same related (query src q c s) (query src' q c t) := by
  cases q with
  | size => exact getSize_agrees agrees rel c
  | get position => exact get_agrees agrees rel position c
  | range start length => exact getRange_agrees agrees rel start length c
  | byId id => exact getById_agrees agrees rel id c

end Cache

end ReadThrough
