import ReadThrough.Proofs.Cache.Storing

/-!
# Storing objects that share an identity

An identity has one entry.  When several objects of a run share one, each that is
stored takes the entry away from those before it, and the position with it.  The last
of them is the one that stays.

* `Cache.survives_keepAll`: an entry of a position outside a run that is still there after
  it shares its identity with no object of the run.
* `Cache.mem_keepAll`: conversely such an entry is there, if there was room for all.
* `Cache.exists_kept_iff`: after a run there is an entry for a position of it exactly if
  its object has an identity that no later object of the run has.
-/

namespace ReadThrough.Cache

variable {ι α : Type} [DecidableEq ι]

variable {c : Cache ι α} {identify : α → Option ι} {start p q : Nat} {vs : List α} {v : α}
variable {e : Entry ι α}

/-! ## One object -/

/-- An entry of another position than the one that was stored at was there before. -/
theorem survives_keep (wf : c.table.WellFormed)
    (mem : e ∈ (c.keep identify v q).table.entries) (at_e : e.position? = some p) (ne : q ≠ p) :
    e ∈ c.table.entries ∧ identify v ≠ some e.id := by
  unfold keep at mem
  split at mem
  · rename_i id named
    rcases mem_place wf mem with rfl | ⟨x, mem', other, rfl⟩
    · rw [Option.some_or] at at_e
      exact absurd (Option.some.inj at_e) ne
    · have at_x := (Entry.vacate_position?_eq_some_iff.1 at_e).1
      have same : x.vacate (some q) = x :=
        Entry.vacate_of_ne fun at_q => ne (Option.some.inj (at_q.symm.trans at_x))
      rw [same]
      refine ⟨mem', fun named' => other ?_⟩
      exact Option.some.inj (named'.symm.trans named)
  · rename_i absent
    exact ⟨mem, fun named => by cases absent.symm.trans named⟩

/-- An entry with other keys moves back by one place at most. -/
theorem entries_keep_behind (wf : c.table.WellFormed) {front back : List (Entry ι α)}
    (split : c.table.entries = front ++ e :: back) (at_e : e.position? ≠ some q)
    (ne : identify v ≠ some e.id) (room : front.length + 1 < c.sizing.capacity) :
    ∃ front' back', (c.keep identify v q).table.entries = front' ++ e :: back' ∧
      front'.length ≤ front.length + 1 := by
  unfold keep
  cases named : identify v with
  | none => exact ⟨front, back, split, Nat.le_succ _⟩
  | some id =>
    have other : e.id ≠ id := fun same => ne (same ▸ named)
    let front' : List (Entry ι α) :=
      ⟨v, id, some q⟩ :: (front.filter fun x => x.id ≠ id).map fun x => x.vacate (some q)
    have short : front'.length ≤ front.length + 1 := by
      rw [List.length_cons, List.length_map]
      exact Nat.succ_le_succ (List.length_filter_le _ _)
    obtain ⟨k, rest⟩ : ∃ k, c.sizing.capacity = front'.length + (k + 1) :=
      ⟨c.sizing.capacity - front'.length - 1, by omega⟩
    have stays : ((e :: back).filter fun x => x.id ≠ id) = e :: back.filter fun x => x.id ≠ id :=
      List.filter_cons_of_pos (decide_eq_true other)
    have placed : (c.place id v (some q)).table.entries = front' ++
        e :: ((back.filter fun x => x.id ≠ id).map fun x => x.vacate (some q)).take k := by
      rw [entries_place wf, split, List.filter_append, List.map_append, stays, List.map_cons,
        Entry.vacate_of_ne at_e, Option.some_or, rest, ← List.cons_append]
      exact List.take_length_add_append (k + 1)
    exact ⟨front', _, placed, short⟩

/-- The new entry stands in front, if there is room for any. -/
theorem entries_keep_self {id : ι} (wf : c.table.WellFormed) (named : identify v = some id)
    (room : 0 < c.sizing.capacity) :
    ∃ back, (c.keep identify v q).table.entries = [] ++ ⟨v, id, some q⟩ :: back := by
  obtain ⟨k, rest⟩ : ∃ k, c.sizing.capacity = k + 1 := ⟨c.sizing.capacity - 1, by omega⟩
  simp only [keep, named, entries_place wf, Option.some_or, rest, List.take_succ_cons]
  exact ⟨_, rfl⟩

/-! ## A run -/

theorem keepAll_wellFormed (wf : c.table.WellFormed) :
    (c.keepAll identify start vs).table.WellFormed := by
  induction vs generalizing c start with
  | nil => exact wf
  | cons v vs ih => exact ih (keep_wellFormed wf)

theorem survives_keepAll (wf : c.table.WellFormed)
    (mem : e ∈ (c.keepAll identify start vs).table.entries) (at_e : e.position? = some p)
    (outside : p < start ∨ start + vs.length ≤ p) :
    e ∈ c.table.entries ∧ ∀ v ∈ vs, identify v ≠ some e.id := by
  induction vs generalizing c start with
  | nil => exact ⟨mem, fun v mem => by cases mem⟩
  | cons v vs ih =>
    rw [List.length_cons] at outside
    obtain ⟨mem', others⟩ := ih (keep_wellFormed wf) mem (by omega)
    obtain ⟨mem'', ne⟩ := survives_keep wf mem' at_e (by omega)
    refine ⟨mem'', fun w mem_w => ?_⟩
    rcases List.mem_cons.1 mem_w with rfl | mem_w
    · exact ne
    · exact others w mem_w

theorem mem_keepAll (wf : c.table.WellFormed) {front back : List (Entry ι α)}
    (split : c.table.entries = front ++ e :: back) (at_e : e.position? = some p)
    (before : p < start) (others : ∀ v ∈ vs, identify v ≠ some e.id)
    (room : front.length + vs.length < c.sizing.capacity) :
    e ∈ (c.keepAll identify start vs).table.entries := by
  induction vs generalizing c start front back with
  | nil =>
    rw [keepAll, split]
    exact List.mem_append_right _ List.mem_cons_self
  | cons v vs ih =>
    rw [List.length_cons] at room
    have elsewhere : e.position? ≠ some start := by
      rw [at_e]
      intro same
      cases same
      omega
    obtain ⟨front', back', split', shift⟩ := entries_keep_behind wf split elsewhere
      (others v List.mem_cons_self) (by omega)
    refine ih (keep_wellFormed wf) split' (by omega)
      (fun w mem => others w (List.mem_cons_of_mem _ mem)) ?_
    rw [keep_sizing]
    omega

/-- A position that had no entry has one after a run over it exactly if its object has
an identity, and no later object of the run has the same. -/
theorem exists_kept_iff (wf : c.table.WellFormed) {i : Nat} (at_i : vs[i]? = some v)
    (absent : ∀ e ∈ c.table.entries, e.position? ≠ some (start + i))
    (room : vs.length ≤ c.sizing.capacity) :
    (∃ e ∈ (c.keepAll identify start vs).table.entries, e.position? = some (start + i)) ↔
      ∃ id, identify v = some id ∧ ∀ (j : Nat) w, i < j → vs[j]? = some w →
        identify w ≠ some id := by
  induction vs generalizing c start i with
  | nil => cases at_i
  | cons u vs ih =>
    rw [keepAll]
    rw [List.length_cons] at room
    cases i with
    | succ i =>
      have shift : start + (i + 1) = start + 1 + i := by omega
      rw [shift] at absent ⊢
      have absent' : ∀ e ∈ (c.keep identify u start).table.entries,
          e.position? ≠ some (start + 1 + i) := by
        intro e mem at_e
        exact absent e (survives_keep wf mem at_e (by omega)).1 at_e
      rw [ih (keep_wellFormed wf) at_i absent' (by rw [keep_sizing]; omega)]
      refine exists_congr fun id => and_congr_right fun _ => ⟨fun later j w lt at_j => ?_,
        fun later j w lt at_j => later (j + 1) w (by omega) at_j⟩
      obtain ⟨j, rfl⟩ : ∃ k, j = k + 1 := ⟨j - 1, by omega⟩
      exact later j w (by omega) at_j
    | zero =>
      cases at_i
      constructor
      · rintro ⟨e, mem, at_e⟩
        obtain ⟨mem', others⟩ := survives_keepAll (keep_wellFormed wf) mem at_e (by omega)
        have named : identify v = some e.id := by
          unfold keep at mem'
          split at mem'
          · rename_i id named
            rcases mem_place wf mem' with rfl | ⟨x, -, -, rfl⟩
            · exact named
            · exact absurd rfl (Entry.vacate_position?_eq_some_iff.1 at_e).2
          · exact absurd at_e (absent e mem')
        refine ⟨e.id, named, fun j w lt at_j => ?_⟩
        obtain ⟨j, rfl⟩ : ∃ k, j = k + 1 := ⟨j - 1, by omega⟩
        exact others w (List.mem_of_getElem? at_j)
      · rintro ⟨id, named, later⟩
        obtain ⟨back, split⟩ := entries_keep_self (q := start) wf named (by omega)
        refine ⟨⟨v, id, some start⟩, ?_, rfl⟩
        refine mem_keepAll (keep_wellFormed wf) split rfl (Nat.lt_succ_self _) ?_ ?_
        · intro w mem
          obtain ⟨j, at_j⟩ := List.mem_iff_getElem?.1 mem
          exact later (j + 1) w (by omega) at_j
        · rw [keep_sizing, List.length_nil]
          omega

end ReadThrough.Cache
