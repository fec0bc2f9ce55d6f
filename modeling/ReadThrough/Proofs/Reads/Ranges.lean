import ReadThrough.Proofs.Reads.Failing
import ReadThrough.Proofs.Reads.Shown

/-!
# Ranges

The cached start of a range is served, and the rest comes with one fetch, whatever of it is
cached as well.  All objects of the range are stored or promoted one after the other, so in the
end the last of them lead the cache, as many as there is room for.

* `Cache.getRange_answered` says how a range came about.
* `Cache.leads_getRange` is the order of use afterwards.
* `Cache.getRange_exact` puts the answer, the calls and the order together.
-/

namespace ReadThrough.Cache

variable {σ ι α : Type} [DecidableEq ι]

variable {src : Source σ ι α} {inv : σ → Prop} {s : Shelf ι α} {c : Cache ι α} {x : σ}
variable {start length size : Nat} {values : List α}

/-- A range was served, or the rest of it came whole and was kept. -/
theorem getRange_answered (wf : c.table.WellFormed) (told : (getSize src c x).1 = .ok size)
    (within : guardRange start length size = .ok ())
    (answered : (getRange src start length c x).1 = .ok values) :
    let count := c.runLength start length
    ∃ c₁, AfterRun (getSize src c x).2.1 (c.runEntries start count) c₁ ∧
      ((count = length ∧ (getRange src start length c x).2.1 = c₁) ∨
        ∃ rest x',
          src.range (start + count) (length - count) (getSize src c x).2.2 = (.ok rest, x') ∧
          rest.length = length - count ∧ (getRange src start length c x).2.1 =
            ((c₁.count (·.miss (length - count))).count (·.fetch rest.length)).keepAll
              (src.identify x') (start + count) rest) := by
  obtain ⟨-, c₁, after, eq⟩ := getRange_of_inside wf told within
  refine ⟨c₁, after, ?_⟩
  rw [eq] at answered ⊢
  split at answered
  · rename_i all
    rw [if_pos all]
    exact Or.inl ⟨all, rfl⟩
  · rename_i short
    rw [if_neg short]
    unfold getRest at answered ⊢
    rcases fetched : fetchRange src (start + c.runLength start length)
      (length - c.runLength start length) (c₁.count (·.miss (length - c.runLength start length)))
      (getSize src c x).2.2 with ⟨e | rest, c₂, x'⟩
    · rw [fetched] at answered
      cases answered
    · obtain ⟨brought, whole, rfl⟩ := fetchRange_of_ok fetched
      exact Or.inr ⟨rest, x', brought, whole, rfl⟩

/-- The source is asked for the rest of a range, if there is one. -/
theorem getRange_state (wf : c.table.WellFormed) (told : (getSize src c x).1 = .ok size)
    (within : guardRange start length size = .ok ()) :
    let count := c.runLength start length
    (getRange src start length c x).2.2 = if count = length then (getSize src c x).2.2
      else (src.range (start + count) (length - count) (getSize src c x).2.2).2 := by
  obtain ⟨-, c₁, -, eq⟩ := getRange_of_inside wf told within
  rw [eq]
  dsimp only
  split
  · rfl
  · rw [← getRest_state src _ _ c₁]
    rcases getRest src _ _ c₁ (getSize src c x).2.2 with ⟨e | rest, c₂, x'⟩ <;> rfl

/-- A range within bounds is answered exactly if nothing is left to fetch, or the rest comes. -/
theorem getRange_answered_iff (wf : c.table.WellFormed) (told : (getSize src c x).1 = .ok size)
    (within : guardRange start length size = .ok ()) :
    let count := c.runLength start length
    (∃ values, (getRange src start length c x).1 = .ok values) ↔ count = length ∨
      ∃ rest, (src.range (start + count) (length - count) (getSize src c x).2.2).1 = .ok rest ∧
        rest.length = length - count := by
  constructor
  · rintro ⟨values, answered⟩
    obtain ⟨c₁, -, ⟨all, -⟩ | ⟨rest, x', brought, whole, -⟩⟩ :=
      getRange_answered wf told within answered
    · exact Or.inl all
    · exact Or.inr ⟨rest, congrArg Prod.fst brought, whole⟩
  · intro either
    cases answer : (getRange src start length c x).1 with
    | ok values => exact ⟨values, rfl⟩
    | error e =>
      exfalso
      rcases getRange_failed wf answer with forestalled | letDown
      · rcases forestalled with ⟨-, unknown, failed⟩ | ⟨told', outside⟩
        · cases (getSize_eq_error_iff.2 ⟨unknown, failed⟩).symm.trans told
        · cases told.symm.trans told'
          cases within.symm.trans outside
      · rcases letDown with _ | ⟨-, -, short, failed | ⟨rest', brought', other, -⟩⟩
        · obtain ⟨rest, brought, -⟩ := either.resolve_left short
          cases brought.symm.trans failed
        · obtain ⟨rest, brought, whole⟩ := either.resolve_left short
          cases brought.symm.trans brought'
          exact other whole

/-! ## The order of use -/

/-- Objects that are kept behind a run that leads a cache lead it together with the run. -/
theorem entries_keepAll_run (identified : s.Identified) (wf : c.table.WellFormed)
    (start count : Nat) {back : List (Entry ι α)}
    (fits : (s.entries (List.range' start count)).length ≤ c.sizing.capacity)
    (split : c.table.entries = (s.entries (List.range' start count)).reverse ++ back)
    (brought : ∀ (i : Nat) v, values[i]? = some v → s.items[start + count + i]? = some v) :
    ∃ back', (c.keepAll s.identify (start + count) values).table.entries =
      (s.entries (List.range' start (count + values.length)).reverse).take c.sizing.capacity ++
        back' := by
  have kept := Shelf.entries_range' brought
  have all : s.entries (List.range' start (count + values.length)) =
      s.entries (List.range' start count) ++ fetched s.identify (start + count) values := by
    rw [← kept, ← Shelf.entries_append, List.range'_append_1]
  have ids : ((fetched s.identify (start + count) values ++
      (s.entries (List.range' start count)).reverse).map (·.id)).Nodup := by
    have nodup := identified.distinct.nodup_ids
      (List.nodup_range' (s := start) (n := count + values.length))
    rw [all] at nodup
    exact (((List.reverse_perm _).append_left _).trans List.perm_append_comm).map _ |>.nodup_iff.2
      nodup
  have before : ∀ e ∈ (s.entries (List.range' start count)).reverse, ∀ p, e.position? = some p →
      p < start + count := by
    intro e mem p at_e
    obtain ⟨q, mem_q, entry⟩ := List.mem_filterMap.1 (List.mem_reverse.1 mem)
    cases at_e.symm.trans (Shelf.entry?_eq_some_iff.1 entry).2.2
    exact (List.mem_range'_1.1 mem_q).2
  rw [Shelf.entries_reverse, all, List.reverse_append]
  have split' : c.table.entries =
      (s.entries (List.range' start count)).reverse.take c.sizing.capacity ++ back := by
    rwa [List.take_of_length_le (by rwa [List.length_reverse])]
  exact entries_keepAll wf split' ids before

/-- After a range was answered, the last of its objects lead the cache, the very last one first,
as many as there is room for. -/
theorem leads_getRange (identified : s.Identified) (shows : src.Shows s inv)
    (stocked : c.Stocked (s.answers fun _ => False)) (hx : inv x)
    (told : (getSize src c x).1 = .ok s.size) (within : guardRange start length s.size = .ok ())
    (answered : (getRange src start length c x).1 = .ok values) :
    (getRange src start length c x).2.1.Leads s
      ((List.range' start length).reverse.take c.sizing.capacity) := by
  have inside : ∀ p ∈ (List.range' start length).reverse, p < s.size := by
    intro p mem
    have lt := (List.mem_range'_1.1 (List.mem_reverse.1 mem)).2
    exact Nat.lt_of_lt_of_le lt (guardRange_eq_ok_iff.1 within).2
  have inside' : ∀ p ∈ (List.range' start length).reverse.take c.sizing.capacity, p < s.size :=
    fun p mem => inside p (List.mem_of_mem_take mem)
  suffices ends : ∃ back, (getRange src start length c x).2.1.table.entries =
      (s.entries (List.range' start length).reverse).take c.sizing.capacity ++ back by
    obtain ⟨back, split⟩ := ends
    rw [identified.entries_take inside] at split
    exact leads_of_entries identified inside' split
  have sized := getSize_served shows.truthful stocked hx
  obtain ⟨c₁, after, either⟩ := getRange_answered stocked.table told within answered
  have split := after.entries
  have moved := after.same
  rw [table_getSize] at split moved
  rw [stocked.runEntries_eq start length, fronted] at split
  have sizing : c₁.sizing = c.sizing := after.sizing.trans sized.sizing
  have fits : (s.entries (List.range' start (c.runLength start length))).length ≤
      c.sizing.capacity := by
    have same := (moved.perm stocked.table after.table).length_eq
    rw [split, List.length_append, List.length_reverse] at same
    have all := stocked.fits
    omega
  rcases either with ⟨all, eq⟩ | ⟨rest, x', brought, whole, eq⟩
  · rw [all] at split fits
    rw [eq, split, Shelf.entries_reverse, List.take_of_length_le (by rwa [List.length_reverse])]
    exact ⟨_, rfl⟩
  · have answer := shows.truthful.range (start + c.runLength start length)
      (length - c.runLength start length) _ sized.inv
    rw [brought] at answer
    obtain ⟨hx', run⟩ := answer
    have right := run rest rfl whole
    rw [eq, shows.identify x' hx']
    let counted := (c₁.count (·.miss (length - c.runLength start length))).count
      (·.fetch rest.length)
    have wf : counted.table.WellFormed := after.table
    have kept := entries_keepAll_run identified wf start _ (sizing ▸ fits) split
      fun i v at_i => Shelf.answers_nothing_item.1 (right i v at_i)
    have total : c.runLength start length + rest.length = length := by
      have le : c.runLength start length ≤ length := runLength_le
      omega
    rw [total] at kept
    exact sizing ▸ kept

/-! ## Ranges end to end -/

/-- **What a range costs, brings and leaves.**  However a cache was used before, as long as it
agrees with the objects that the source brings and these have different identities, a range
within bounds is fetched from the first position on that is not cached, in one call, or not at
all if there is none.  It is answered exactly if that call is, with the objects in their order,
and then the last of them lead the cache in the opposite order, as many as there is room for.
If the size is not to be had, the range fails without a call for objects. -/
theorem getRange_exact {sizing : Sizing} (reachable : Reachable sizing c)
    (identified : s.Identified) (coherent : c.Coherent s) (shows : src.Shows s inv) (hx : inv x)
    (log : List (Call ι α)) (within : guardRange start length s.size = .ok ()) :
    let count := c.runLength start length
    let read := getRange src.traced start length c (x, log)
    let asked := if c.size?.isSome then log else .size :: log
    (∀ size, (getSize src c x).1 = .ok size →
      read.2.2.2 = (if count = length then asked
        else .range (start + count) (length - count) :: asked) ∧
      ((∃ values, read.1 = .ok values) ↔ count = length ∨ ∃ rest,
        (src.range (start + count) (length - count) (getSize src c x).2.2).1 = .ok rest ∧
          rest.length = length - count)) ∧
    (∀ e, (getSize src c x).1 = .error e → read.1 = .error e ∧ read.2.2.2 = asked) ∧
    ∀ values, read.1 = .ok values → values = (s.items.drop start).take length ∧
      read.2.1.Leads s ((List.range' start length).reverse.take sizing.capacity) := by
  intro count read asked
  have stocked := coherent.stocked reachable
  have sized := getSize_served shows.truthful stocked hx
  obtain ⟨same, calls⟩ : _ ∧ _ = asked := getSize_traced src c x log
  have state := getSize_traced_state src c x log
  refine ⟨fun size told => ?_, fun e failed => ?_, fun values answered => ?_⟩
  · cases Shelf.answers_nothing_size.1 (sized.answer size told)
    have told' : (getSize src.traced c (x, log)).1 = .ok s.size := same.trans told
    refine ⟨?_, ?_⟩
    · have after : read.2.2 = _ := getRange_state stocked.table told' within
      rw [after, ← calls]
      split <;> rfl
    · rw [← state]
      exact getRange_answered_iff stocked.table told' within
  · obtain ⟨unknown, asked⟩ := getSize_eq_error_iff.1 (same.trans failed)
    have forestalled : Forestalled src.traced c (x, log) (.range start length) e :=
      .size trivial unknown asked
    obtain ⟨failed', after⟩ := query_forestalled forestalled
    exact ⟨failed', (congrArg (·.2.2) after).trans calls⟩
  · obtain ⟨size, told, -⟩ := exists_size_of_answered (q := .range start length) trivial answered
    cases Shelf.answers_nothing_size.1 (sized.answer size (same.symm.trans told))
    have right := (getRange_served shows.traced.truthful stocked hx start length).answer values
      answered
    have exact := Fronted.query_eq_ok_of_right right
    change s.range start length = .ok values at exact
    rw [Shelf.range, within] at exact
    refine ⟨(Except.ok.inj exact).symm, ?_⟩
    rw [← reachable.stocked.2]
    exact leads_getRange identified shows.traced stocked hx told within answered

/-- A range longer than the cache, of which the first and the third object are cached. -/
theorem getRange_exact_evicting :
    let s : Shelf Nat Nat := ⟨[10, 11, 12, 13, 14], some⟩
    let read (position : Nat) (c : Cache Nat Nat) : Cache Nat Nat :=
      (query Shelf.source (.range position 1) c s).2.1
    let c := read 0 (read 2 (empty ⟨3, 1, by decide, by decide⟩))
    c.Coherent s ∧ (getRange Shelf.source.traced 0 4 c (s, [])).1 = .ok [10, 11, 12, 13] ∧
      (getRange Shelf.source.traced 0 4 c (s, [])).2.2.2 = [.range 1 3] ∧
      (getRange Shelf.source.traced 0 4 c (s, [])).2.1.Leads s [3, 2, 1] := by
  intro s read c
  have reachable : Reachable ⟨3, 1, by decide, by decide⟩ c := .query _ _ _ (.query _ _ _ .empty)
  have identified : s.Identified := ⟨by decide, by decide⟩
  have coherent : c.Coherent s := by decide
  have within : guardRange 0 4 s.size = .ok () := by decide
  obtain ⟨costs, -, brings⟩ := getRange_exact (x := s) reachable identified coherent
    (Shelf.shows identified.distinct) rfl [] within
  have count : c.runLength 0 4 = 1 := by decide
  rw [count] at costs
  obtain ⟨calls, answered⟩ := costs 5 (by rfl)
  obtain ⟨values, answer⟩ := answered.2 (Or.inr ⟨[11, 12, 13], by rfl, rfl⟩)
  obtain ⟨rfl, leads⟩ := brings values answer
  exact ⟨coherent, answer, calls, leads⟩

end ReadThrough.Cache
