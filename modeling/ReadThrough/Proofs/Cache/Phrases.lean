import ReadThrough.Proofs.Cache.Journal

/-!
# The shape of a journal

A journal is put together of phrases.  In most of them nothing is fetched; in the others the
source answers after a miss, and then no more objects are stored than came with the answer.
What exceeds the capacity is evicted before the next object is stored.

* `Cache.Phrases` are the lists of acts of this shape.
* `Cache.phrases_journal`: every journal is one.
-/

namespace ReadThrough

variable {σ ι α : Type}

namespace Cache

variable [DecidableEq ι] {c : Cache ι α} {e : Entry ι α} {acts acts' : List (Act ι α)}

/-- The act neither brings objects, nor stores them, nor takes out an entry to make room; and
the entry it makes the most recently used one is there. -/
def isPlain (c : Cache ι α) : Act ι α → Bool
  | .hit id | .promote id => c.coversId id
  | .fetch _ | .store _ _ _ | .evict => false
  | _ => true

/-- No more than so many objects are stored, and what exceeds the capacity is evicted before
the next one is. -/
inductive Stores : Cache ι α → Nat → List (Act ι α) → Prop
  | done {c : Cache ι α} {objects : Nat} : Stores c objects []
  | skip {c : Cache ι α} {objects : Nat} {acts : List (Act ι α)} :
    Stores c objects acts → Stores c (objects + 1) acts
  | place {c : Cache ι α} {objects : Nat} {acts : List (Act ι α)} (id : ι) (value : α)
    (position? : Option Nat) :
    Stores (c.replay (c.placeActs id value position?)) objects acts →
    Stores c (objects + 1) (c.placeActs id value position? ++ acts)

/-- Objects are fetched for lookups that miss, and stored only then. -/
inductive Phrases : Cache ι α → List (Act ι α) → Prop
  | done {c : Cache ι α} : Phrases c []
  | plain {c : Cache ι α} {act : Act ι α} {acts : List (Act ι α)} : c.isPlain act = true →
    Phrases (c.perform act) acts → Phrases c (act :: acts)
  | fetch {c : Cache ι α} {lookups objects : Nat} {stores acts : List (Act ι α)} : 0 < lookups →
    Stores (c.replay [.miss lookups, .fetch objects]) objects stores →
    Phrases (c.replay ([.miss lookups, .fetch objects] ++ stores)) acts →
    Phrases c ([.miss lookups, .fetch objects] ++ stores ++ acts)

theorem Phrases.append (first : Phrases c acts) (second : Phrases (c.replay acts) acts') :
    Phrases c (acts ++ acts') := by
  induction first with
  | done => exact second
  | plain plain _ ih => exact .plain plain (ih second)
  | fetch some stores _ ih =>
    rw [List.append_assoc]
    rw [replay_append] at second
    exact .fetch some stores (ih second)

theorem coversId_of_entryAt? (wf : c.table.WellFormed) {position : Nat}
    (found : c.table.entryAt? position = some e) : c.coversId e.id = true := by
  obtain ⟨h, -, here⟩ := exists_of_entryAt? found
  rw [coversId, wf.ofId?_of_entry? here]
  rfl

theorem stores_keepAll (wf : c.table.WellFormed) (identify : α → Option ι) (start : Nat)
    (vs : List α) : Stores c vs.length (c.keepAllActs identify start vs) := by
  induction vs generalizing c start with
  | nil => exact .done
  | cons v vs ih =>
    have kept : (c.keep identify v start).table.WellFormed := keep_wellFormed wf
    have rest := ih kept (start + 1)
    rw [keep_eq wf] at rest
    rw [keepAllActs, keep_eq wf]
    unfold keepActs at rest ⊢
    revert rest
    cases identify v with
    | none => exact .skip
    | some id => exact .place id v (some start)

theorem phrases_recallActs (wf : c.table.WellFormed) (position : Nat) :
    Phrases c (c.recallActs position) := by
  unfold recallActs
  split
  · rename_i e found
    exact .plain (coversId_of_entryAt? wf found) .done
  · exact .done

theorem phrases_sizeActs (src : Source σ ι α) (s : σ) : Phrases c (sizeActs src c s) := by
  unfold sizeActs
  split
  · exact .done
  · split
    · exact .plain rfl .done
    · exact .done

theorem length_serveActs_le (length start : Nat) : (serveActs length start c).length ≤ length := by
  induction length generalizing start c with
  | zero => exact Nat.le_refl _
  | succ length ih =>
    unfold serveActs
    split
    · exact Nat.succ_le_succ (ih _)
    · exact Nat.zero_le _

theorem phrases_serveActs (wf : c.table.WellFormed) (length start : Nat) :
    Phrases c (serveActs length start c) := by
  induction length generalizing start c with
  | zero => exact .done
  | succ length ih =>
    unfold serveActs
    split
    · rename_i e found
      exact .plain (coversId_of_entryAt? wf found) (ih (perform_wellFormed wf _) _)
    · exact .done

/-- A miss, and what is fetched for it. -/
theorem phrases_fetchActs {src : Source σ ι α} {start length lookups : Nat} {s : σ}
    {more : List α → σ → List (Act ι α)} (some : 0 < lookups)
    (stored : ∀ values s', ∃ stores after, more values s' = stores ++ after ∧
      Stores (c.replay [.miss lookups, .fetch values.length]) values.length stores ∧
      Phrases (c.replay ([.miss lookups, .fetch values.length] ++ stores)) after) :
    Phrases c (.miss lookups :: fetchActs src start length s more) := by
  unfold fetchActs
  rcases src.range start length s with ⟨_ | values, s'⟩
  · exact .plain rfl .done
  · dsimp only
    split
    · obtain ⟨stores, after, eq, stored, rest⟩ := stored values s'
      rw [eq]
      exact .fetch some stored rest
    · exact .fetch some .done .done

theorem phrases_get (wf : c.table.WellFormed) (src : Source σ ι α) (position : Nat) (s : σ) :
    Phrases c (getActs src position c s) := by
  unfold getActs
  refine (phrases_sizeActs src s).append ?_
  rw [← getSize_eq]
  have wf₁ : (getSize src c s).2.1.table.WellFormed := by rwa [table_getSize]
  revert wf₁
  rcases getSize src c s with ⟨_ | size, c₁, s₁⟩ <;> intro wf₁
  · exact .done
  · change c₁.table.WellFormed at wf₁
    dsimp only
    rcases guardPosition position size with _ | _
    · exact .done
    · dsimp only
      split
      · rename_i e found
        exact .plain (coversId_of_entryAt? wf₁ found) .done
      · refine phrases_fetchActs Nat.one_pos fun values s' => ?_
        have wf' : ((c₁.perform (.miss 1)).perform (.fetch values.length)).table.WellFormed := wf₁
        refine ⟨_, _, rfl, stores_keepAll wf' _ _ _, ?_⟩
        rw [replay_append, replay_cons, replay_cons, replay_nil, ← keepAll_eq wf']
        exact phrases_recallActs (keepAll_wellFormed wf') position

theorem phrases_range (wf : c.table.WellFormed) (src : Source σ ι α) (start length : Nat)
    (s : σ) : Phrases c (rangeActs src start length c s) := by
  unfold rangeActs
  refine (phrases_sizeActs src s).append ?_
  rw [← getSize_eq]
  have wf₁ : (getSize src c s).2.1.table.WellFormed := by rwa [table_getSize]
  revert wf₁
  rcases getSize src c s with ⟨_ | size, c₁, s₁⟩ <;> intro wf₁
  · exact .done
  · change c₁.table.WellFormed at wf₁
    dsimp only
    rcases guardRange start length size with _ | _
    · exact .done
    · refine (phrases_serveActs wf₁ length start).append ?_
      split
      · exact .done
      · have le := length_serveActs_le (c := c₁) length start
        refine phrases_fetchActs (by omega) fun values s' => ?_
        exact ⟨_, [], (List.append_nil _).symm,
          stores_keepAll (replay_wellFormed (replay_wellFormed wf₁)) _ _ _, .done⟩

theorem phrases_byId (src : Source σ ι α) (id : ι) (s : σ) :
    Phrases c (byIdActs src id c s) := by
  unfold byIdActs
  split
  · rename_i h found
    exact .plain (by rw [isPlain, coversId, found]; rfl) .done
  · rcases src.byId id s with ⟨_ | _ | v, s'⟩
    · exact .plain rfl .done
    · exact .fetch Nat.one_pos .done .done
    · have placed : Stores (c.replay [.miss 1, .fetch 1]) 1 _ := .place id v none .done
      rw [List.append_nil] at placed
      have phrase := Phrases.fetch Nat.one_pos placed .done
      rwa [List.append_nil] at phrase

theorem phrases_use (wf : c.table.WellFormed) (u : Use ι α) : Phrases c (c.useActs u) := by
  cases u with
  | read src s q =>
    cases q with
    | size => exact phrases_sizeActs src s
    | get position => exact phrases_get wf src position s
    | range start length => exact phrases_range wf src start length s
    | byId id => exact phrases_byId src id s
  | hear change => exact .plain rfl .done
  | clear => exact .plain rfl .done
  | look => exact .done

theorem phrases_journal (wf : c.table.WellFormed) (uses : List (Use ι α)) :
    Phrases c (c.journal uses) := by
  induction uses generalizing c with
  | nil => exact .done
  | cons u uses ih =>
    rw [journal_cons]
    refine (phrases_use wf u).append ?_
    rw [← use_eq wf]
    exact ih (use_wellFormed wf u)

end Cache

end ReadThrough
