import ReadThrough.Bounded
import ReadThrough.Proofs.Recency.Lists

/-!
# Pairs under their keys

A bounded cache keeps its pairs in a recency list, and an index that leads from
each key to the place of its pair.  `Bounded.Keyed order index es` says that the
two agree on one sequence `es` of handles and pairs.

* `Keyed.push`, `Keyed.touch` and `Keyed.erase` are what the writes of a cache do
  to list and index together.
* `Bounded.WellFormed` is the agreement for a whole cache, and the lemmas on it
  give each operation by its effect on `Bounded.toList`.
-/

namespace ReadThrough.Bounded

variable {κ ν τ : Type} [DecidableEq κ]

/-! ## List and index -/

/-- The list holds `es`, and each key leads to the place of its pair. -/
structure Keyed (order : Recency (κ × ν)) (index : Index κ Handle)
    (es : List (Handle × κ × ν)) : Prop where
  lists : order.Lists es
  leads : ∀ k h, index.get? k = some h ↔ ∃ v, (h, k, v) ∈ es

theorem keyed_empty : Keyed (∅ : Recency (κ × ν)) ∅ [] where
  lists := Recency.lists_empty
  leads k h := by simp

namespace Keyed

variable {order : Recency (κ × ν)} {index : Index κ Handle} {es : List (Handle × κ × ν)}
variable {h h' : Handle} {k k' : κ} {v v' : ν}

/-- A key occurs once. -/
theorem eq_of_key (keyed : Keyed order index es) (mem : (h, k, v) ∈ es)
    (mem' : (h', k, v') ∈ es) : h = h' ∧ v = v' := by
  have first := (keyed.leads k h).2 ⟨v, mem⟩
  have second := (keyed.leads k h').2 ⟨v', mem'⟩
  have same : h = h' := Option.some.inj (first.symm.trans second)
  subst same
  exact ⟨rfl, congrArg Prod.snd (keyed.lists.value_unique mem mem')⟩

theorem nodup_keys (keyed : Keyed order index es) : (es.map fun e => e.2.1).Nodup := by
  refine List.Nodup.map_on ?_ keyed.lists.nodup.of_map
  rintro ⟨h, k, v⟩ mem ⟨h', k', v'⟩ mem' same
  cases same
  obtain ⟨rfl, rfl⟩ := keyed.eq_of_key mem mem'
  rfl

/-- To leave out a handle is to leave out the key of its pair. -/
theorem filter_handle (keyed : Keyed order index es) (mem : (h, k, v) ∈ es) :
    (es.filter fun e => e.1 ≠ h) = es.filter fun e => e.2.1 ≠ k := by
  refine List.filter_congr fun e mem' => decide_eq_decide.2 (not_congr ?_)
  obtain ⟨h', k', v'⟩ := e
  constructor
  · rintro rfl
    exact congrArg Prod.fst (keyed.lists.value_unique mem' mem)
  · rintro rfl
    exact (keyed.eq_of_key mem' mem).1

theorem map_filter (keyed : Keyed order index es) (mem : (h, k, v) ∈ es) :
    (es.filter fun e => e.1 ≠ h).map Prod.snd =
      (es.map Prod.snd).filter fun p => p.1 ≠ k := by
  rw [keyed.filter_handle mem, List.filter_map]
  rfl

theorem size_eq (keyed : Keyed order index es) : index.size = es.length := by
  refine (index.size_eq_length keyed.nodup_keys fun k => ?_).trans (List.length_map _)
  rw [List.mem_map]
  constructor
  · rintro ⟨h, bound⟩
    obtain ⟨v, mem⟩ := (keyed.leads k h).1 bound
    exact ⟨(h, k, v), mem, rfl⟩
  · rintro ⟨⟨h, k, v⟩, mem, rfl⟩
    exact ⟨h, (keyed.leads k h).2 ⟨v, mem⟩⟩

/-- A new key joins in front. -/
theorem push (keyed : Keyed order index es) (absent : index.get? k = none) (v : ν) :
    Keyed (order.push (k, v)).2 (index.insert k (order.push (k, v)).1)
      (((order.push (k, v)).1, k, v) :: es) := by
  refine ⟨(keyed.lists.push (k, v)).2, fun k' h => ?_⟩
  rw [Index.get?_insert]
  simp only [List.mem_cons, Prod.mk.injEq]
  split
  · rename_i same
    subst same
    constructor
    · intro here
      exact ⟨v, Or.inl ⟨(Option.some.inj here).symm, rfl, rfl⟩⟩
    · rintro ⟨v', ⟨rfl, -, -⟩ | mem⟩
      · rfl
      · have bound := (keyed.leads k' h).2 ⟨v', mem⟩
        rw [absent] at bound
        cases bound
  · rename_i ne
    rw [keyed.leads]
    refine exists_congr fun v' => (or_iff_right ?_).symm
    exact fun both => ne both.2.1

/-- A pair moves to the front, and its value changes. -/
theorem touch (keyed : Keyed order index es) (mem : (h, k, v) ∈ es) (f : ν → ν) :
    Keyed ((order.promote h).modify h fun p => (p.1, f p.2)) index
      ((h, k, f v) :: es.filter fun e => e.1 ≠ h) := by
  have kept : ((es.filter fun e => e.1 ≠ h).map
      fun e => if e.1 = h then (e.1, (fun p => (p.1, f p.2)) e.2) else e) =
        es.filter fun e => e.1 ≠ h := by
    refine (List.map_congr_left fun e mem' => ?_).trans (List.map_id _)
    exact if_neg (of_decide_eq_true (List.mem_filter.1 mem').2)
  have lists := (keyed.lists.promote mem).modify h fun p => (p.1, f p.2)
  rw [List.map_cons, kept, if_pos rfl] at lists
  refine ⟨lists, fun k' h' => ?_⟩
  rw [keyed.leads]
  simp only [List.mem_cons, Prod.mk.injEq, List.mem_filter, decide_eq_true_eq]
  constructor
  · rintro ⟨v', mem'⟩
    by_cases here : h' = h
    · subst here
      cases keyed.lists.value_unique mem' mem
      exact ⟨_, Or.inl ⟨rfl, rfl, rfl⟩⟩
    · exact ⟨v', Or.inr ⟨mem', here⟩⟩
  · rintro ⟨v', ⟨rfl, rfl, -⟩ | ⟨mem', -⟩⟩
    · exact ⟨v, mem⟩
    · exact ⟨v', mem'⟩

/-- A pair leaves, and its key is unbound. -/
theorem erase (keyed : Keyed order index es) (mem : (h, k, v) ∈ es) :
    (order.erase h).1 = some (k, v) ∧
      Keyed (order.erase h).2 (index.erase k) (es.filter fun e => e.1 ≠ h) := by
  obtain ⟨erased, lists⟩ := keyed.lists.erase mem
  refine ⟨erased, lists, fun k' h' => ?_⟩
  rw [Index.get?_erase]
  simp only [keyed.filter_handle mem, List.mem_filter, decide_eq_true_eq]
  split
  · rename_i same
    simp [same]
  · rename_i ne
    simp [keyed.leads, ne]

/-- The last pair leaves. -/
theorem erase_last (keyed : Keyed order index (es ++ [(h, k, v)])) :
    order.oldest? = some h ∧ order.get? h = some (k, v) ∧
      (order.erase h).1 = some (k, v) ∧ Keyed (order.erase h).2 (index.erase k) es := by
  have mem : (h, k, v) ∈ es ++ [(h, k, v)] := by simp
  have oldest : order.oldest? = some h := by
    rw [keyed.lists.oldest, List.getLast?_concat]
    rfl
  obtain ⟨erased, rest⟩ := keyed.erase mem
  rw [Recency.filter_key_ne Prod.fst keyed.lists.nodup, List.append_nil] at rest
  exact ⟨oldest, keyed.lists.get? mem, erased, rest⟩

end Keyed

/-! ## Whole caches -/

/-- List and index agree. -/
def WellFormed (b : Bounded κ ν τ) : Prop := Keyed b.order b.index b.order.entries

theorem Keyed.wellFormed {b : Bounded κ ν τ} {es : List (Handle × κ × ν)}
    (keyed : Keyed b.order b.index es) : b.WellFormed := by
  rw [WellFormed, keyed.lists.entries_eq]
  exact keyed

namespace WellFormed

variable {b : Bounded κ ν τ} {h : Handle} {k : κ} {v : ν}

theorem nodup_keys (wf : b.WellFormed) : (b.toList.map Prod.fst).Nodup := by
  have nodup := Keyed.nodup_keys wf
  rwa [toList, Recency.toList, List.map_map]

theorem size_eq (wf : b.WellFormed) : b.size = b.toList.length := by
  rw [size, Keyed.size_eq wf, toList, Recency.toList, List.length_map]

/-- A key leads to its pair, if it has one. -/
theorem handle?_cases (wf : b.WellFormed) (k : κ) :
    (b.handle? k = none ∧ b.toList.lookup k = none) ∨
      ∃ h v, b.handle? k = some h ∧ (h, k, v) ∈ b.order.entries ∧ b.toList.lookup k = some v := by
  have value_iff (v : ν) : b.toList.lookup k = some v ↔ ∃ h, (h, k, v) ∈ b.order.entries := by
    refine ((⟨b.toList, wf.nodup_keys⟩ : Index κ ν).mem_pairs_iff k v).symm.trans ?_
    refine List.mem_map.trans ?_
    constructor
    · rintro ⟨⟨h, -⟩, mem, rfl⟩
      exact ⟨h, mem⟩
    · rintro ⟨h, mem⟩
      exact ⟨_, mem, rfl⟩
  cases found : b.handle? k with
  | some h =>
    obtain ⟨v, mem⟩ := (Keyed.leads wf k h).1 found
    exact Or.inr ⟨h, v, rfl, mem, (value_iff v).2 ⟨h, mem⟩⟩
  | none =>
    refine Or.inl ⟨rfl, Option.eq_none_iff_forall_ne_some.2 fun v value => ?_⟩
    obtain ⟨h, mem⟩ := (value_iff v).1 value
    rw [handle?, (Keyed.leads wf k h).2 ⟨v, mem⟩] at found
    cases found

end WellFormed

end ReadThrough.Bounded
