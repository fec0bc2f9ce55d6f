import ReadThrough.Proofs.Recency.Traversal

/-!
# What a recency list holds

`Recency.Lists l es` says that the slots, links and ends of `l` describe one
sequence `es` of handles and values, the most recent first, and that every other
slot is free.  Each operation on the slots is then an edit of the sequence.

* `Lists.push`, `Lists.promote`, `Lists.erase`, `Lists.modify`
  are the edits.
* `Lists.get?_eq_some_iff`: a handle leads to its value.
* `Lists.entries_eq`: the traversal gives back the sequence.
-/

namespace ReadThrough.Recency

variable {α : Type}

section

variable {β κ : Type} [DecidableEq κ] (key : β → κ) {xs ys : List β} {x y : β}

omit [DecidableEq κ] in
/-- Where keys do not repeat, no other element has the key of this one. -/
theorem key_ne (nodup : ((xs ++ x :: ys).map key).Nodup) (mem : y ∈ xs ++ ys) :
    key y ≠ key x := by
  have front : (xs ++ x :: ys).Perm (x :: (xs ++ ys)) := List.perm_middle
  have moved := front.map key
  have out := (List.nodup_cons.1 (moved.nodup_iff.1 nodup)).1
  exact fun same => out (same ▸ List.mem_map_of_mem mem)

/-- Where keys do not repeat, one element is left out by its key. -/
theorem filter_key_ne (nodup : ((xs ++ x :: ys).map key).Nodup) :
    (xs ++ x :: ys).filter (fun y => key y ≠ key x) = xs ++ ys := by
  rw [List.filter_append, List.filter_cons_of_neg (by simp), ← List.filter_append]
  exact List.filter_eq_self.2 fun y mem => decide_eq_true (key_ne key nodup mem)

/-- Where keys do not repeat, one element is found by its key. -/
theorem filter_key_eq (nodup : ((xs ++ x :: ys).map key).Nodup) :
    (xs ++ x :: ys).filter (fun y => key y = key x) = [x] := by
  have out (zs : List β) (sub : zs ⊆ xs ++ ys) : zs.filter (fun y => key y = key x) = [] :=
    List.filter_eq_nil_iff.2 fun y mem same =>
      key_ne key nodup (sub mem) (of_decide_eq_true same)
  rw [List.filter_append, List.filter_cons_of_pos (by simp), out xs (by simp), out ys (by simp)]
  rfl

end

/-- A value may change where its key stands. -/
theorem keys_modify (es : List (Handle × α)) (h : Handle) (f : α → α) :
    (es.map fun e => if e.1 = h then (e.1, f e.2) else e).map Prod.fst = es.map Prod.fst := by
  rw [List.map_map]
  refine List.map_congr_left fun e _ => ?_
  by_cases here : e.1 = h <;> simp [here]

theorem filter_modify_ne (es : List (Handle × α)) (h : Handle) (f : α → α) :
    (es.map fun e => if e.1 = h then (e.1, f e.2) else e).filter (fun e => e.1 ≠ h) =
      es.filter fun e => e.1 ≠ h := by
  induction es with
  | nil => rfl
  | cons e es ih =>
    by_cases here : e.1 = h
    · simpa [here] using ih
    · simpa [here] using ih

/-! ## Lists -/

/-- The recency list holds exactly `es`, the most recent first, and every other
slot is free and holds nothing. -/
structure Lists (l : Recency α) (es : List (Handle × α)) : Prop extends l.Chain es where
  size : l.size = es.length
  free_nodup : l.free.Nodup
  mem_free : ∀ h, h ∈ l.free ↔ h < l.slots.size ∧ h ∉ es.map Prod.fst
  vacant : ∀ h ∈ l.free, l.get? h = none

theorem lists_empty : (∅ : Recency α).Lists [] where
  nodup := List.nodup_nil
  linked := trivial
  newest := rfl
  oldest := rfl
  size := rfl
  free_nodup := List.nodup_nil
  mem_free h := by
    change h ∈ [] ↔ h < 0 ∧ _
    simp
  vacant h mem := by cases mem

namespace Lists

variable {l : Recency α} {es : List (Handle × α)} {h k : Handle} {a b : α}

theorem get?_eq_some_iff (holds : l.Lists es) : l.get? h = some a ↔ (h, a) ∈ es := by
  refine ⟨fun here => ?_, holds.get?⟩
  have lt : h < l.slots.size := by
    simp only [Recency.get?, Option.bind_eq_bind, Option.bind_eq_some_iff] at here
    obtain ⟨s, slot, -⟩ := here
    exact (Array.getElem?_eq_some_iff.1 slot).1
  by_cases mem : h ∈ es.map Prod.fst
  · obtain ⟨e, he, rfl⟩ := List.mem_map.1 mem
    rw [holds.get? he] at here
    cases here
    exact he
  · have free := (holds.mem_free h).2 ⟨lt, mem⟩
    rw [holds.vacant h free] at here
    cases here

theorem get?_eq_none_iff (holds : l.Lists es) : l.get? h = none ↔ h ∉ es.map Prod.fst := by
  rw [← not_iff_not, not_not, ← ne_eq, Option.ne_none_iff_exists']
  simp [holds.get?_eq_some_iff]

/-- A handle has one value. -/
theorem value_unique (holds : l.Lists es) (ha : (h, a) ∈ es) (hb : (h, b) ∈ es) : a = b := by
  rw [← holds.get?_eq_some_iff] at ha hb
  exact Option.some.inj (ha.symm.trans hb)

/-- A value joins at the front, at a handle that was free. -/
theorem push (holds : l.Lists es) (a : α) :
    (l.push a).1 ∉ es.map Prod.fst ∧ (l.push a).2.Lists (((l.push a).1, a) :: es) := by
  unfold Recency.push
  split
  · rename_i h free heq
    have mem : h ∈ l.free := by rw [heq]; exact List.mem_cons_self
    obtain ⟨lt, out⟩ := (holds.mem_free h).1 mem
    have nodup := holds.free_nodup
    rw [heq, List.nodup_cons] at nodup
    have here : (l.modifySlot h fun _ => ⟨some a, none, none⟩).get? h = some a := by
      simp [Recency.get?, modifySlot, lt, Array.getElem_modify_self]
    refine ⟨out, ((holds.toChain.modifySlot out _).link out here).congr rfl rfl rfl,
      by simp [holds.size], nodup.2, fun k => ?_, fun k hk => ?_⟩
    · have := holds.mem_free k
      rw [heq, List.mem_cons] at this
      simp only [size_slots_link, size_slots_modifySlot, List.map_cons, List.mem_cons, not_or]
      constructor
      · intro hk
        obtain ⟨lt, out⟩ := this.1 (Or.inr hk)
        exact ⟨lt, fun eq => nodup.1 (eq ▸ hk), out⟩
      · rintro ⟨lt, ne, out⟩
        exact (this.2 ⟨lt, out⟩).resolve_left ne
    · have ne : h ≠ k := fun eq => nodup.1 (eq ▸ hk)
      have none := holds.vacant k (by rw [heq]; exact List.mem_cons_of_mem _ hk)
      change ((l.modifySlot h fun _ => ⟨some a, Option.none, Option.none⟩).link h).get? k = _
      rw [get?_link]
      simpa [Recency.get?, modifySlot, Array.getElem?_modify, ne] using none
  · rename_i heq
    have out : l.slots.size ∉ es.map Prod.fst := fun mem =>
      Nat.lt_irrefl _ (holds.lt_size mem)
    have grown : ({ l with slots := l.slots.push ⟨some a, none, none⟩ } : Recency α).Chain es :=
      ⟨holds.nodup, holds.linked.congr fun k hk => by
        rw [Array.getElem?_push, if_neg (Nat.ne_of_lt (holds.lt_size hk))],
        holds.newest, holds.oldest⟩
    refine ⟨out, (grown.link out (by simp [Recency.get?])).congr rfl rfl rfl,
      by simp [holds.size], by simp [heq], fun k => ?_, fun k hk => ?_⟩
    · have := holds.mem_free k
      rw [heq] at this
      simp only [free_link, heq, size_slots_link, Array.size_push, List.map_cons, List.mem_cons,
        not_or, List.not_mem_nil, false_iff, not_and, not_not] at this ⊢
      exact fun lt ne => this (by omega)
    · simp [heq] at hk

/-- The value at a live handle moves to the front. -/
theorem promote (holds : l.Lists es) (mem : (h, a) ∈ es) :
    (l.promote h).Lists ((h, a) :: es.filter fun e => e.1 ≠ h) := by
  obtain ⟨xs, ys, rfl⟩ := List.append_of_mem mem
  rw [filter_key_ne Prod.fst holds.nodup]
  have here : l.get? h = some a := holds.get? mem
  have live : l.live h = true := by simp [Recency.live, here]
  have perm : ((h, a) :: (xs ++ ys)).Perm (xs ++ (h, a) :: ys) := List.perm_middle.symm
  by_cases first : l.newest? = some h
  · have front : xs = [] := by
      cases xs with
      | nil => rfl
      | cons x xs =>
        have newest := holds.newest
        have nodup := holds.nodup
        rw [first] at newest
        simp only [List.cons_append, List.head?_cons, Option.map_some, Option.some.injEq] at newest
        simp [← newest] at nodup
    subst front
    simpa [Recency.promote, first] using holds
  · have moved : l.promote h = (l.unlink h).link h := by
      simp [Recency.promote, live, first]
    have nodup := (perm.map Prod.fst).nodup_iff.2 holds.nodup
    have out : h ∉ (xs ++ ys).map Prod.fst := (List.nodup_cons.1 nodup).1
    rw [moved]
    refine ⟨(holds.toChain.unlink).link out (by simpa using here), ?_, ?_, fun k => ?_, ?_⟩
    · simpa [Nat.add_assoc] using holds.size
    · simpa using holds.free_nodup
    · rw [free_link, free_unlink, size_slots_link, size_slots_unlink,
        (perm.map Prod.fst).mem_iff]
      exact holds.mem_free k
    · simpa using holds.vacant

theorem promote_of_dead (dead : l.get? h = none) : l.promote h = l := by
  simp [Recency.promote, Recency.live, dead]

/-- The value at a live handle leaves, and its slot is the next to be handed out. -/
theorem erase (holds : l.Lists es) (mem : (h, a) ∈ es) :
    (l.erase h).1 = some a ∧ (l.erase h).2.Lists (es.filter fun e => e.1 ≠ h) := by
  obtain ⟨xs, ys, rfl⟩ := List.append_of_mem mem
  rw [filter_key_ne Prod.fst holds.nodup]
  have here : l.get? h = some a := holds.get? mem
  have perm : ((h, a) :: (xs ++ ys)).Perm (xs ++ (h, a) :: ys) := List.perm_middle.symm
  have nodup := (perm.map Prod.fst).nodup_iff.2 holds.nodup
  have out : h ∉ (xs ++ ys).map Prod.fst := (List.nodup_cons.1 nodup).1
  have lt : h < l.slots.size := holds.lt_size (by simp)
  have busy : h ∉ l.free := fun mem => ((holds.mem_free h).1 mem).2 (by simp)
  simp only [Recency.erase, here, true_and]
  have unlinked := (holds.toChain.unlink).modifySlot out fun s => { s with value? := none }
  refine ⟨unlinked.congr rfl rfl rfl, ?_, ?_, fun k => ?_, fun k hk => ?_⟩
  · simp [holds.size]
  · exact List.nodup_cons.2 ⟨busy, holds.free_nodup⟩
  · have := holds.mem_free k
    simp only [← (perm.map Prod.fst).mem_iff, List.map_cons, List.mem_cons, not_or] at this
    simp only [size_slots_modifySlot, size_slots_unlink, List.mem_cons, this]
    constructor
    · rintro (rfl | ⟨lt, ne, out⟩)
      · exact ⟨lt, out⟩
      · exact ⟨lt, out⟩
    · rintro ⟨lt, out⟩
      by_cases eq : k = h
      · exact Or.inl eq
      · exact Or.inr ⟨lt, eq, out⟩
  · have still := get?_unlink l h k
    by_cases eq : h = k
    · subst eq
      simp [Recency.get?, Recency.modifySlot, Array.getElem?_modify, Option.bind_map]
    · have none := holds.vacant k ((List.mem_cons.1 hk).resolve_left (Ne.symm eq))
      rw [none] at still
      simpa [Recency.get?, Recency.modifySlot, Array.getElem?_modify, eq] using still

theorem erase_of_dead (dead : l.get? h = none) : l.erase h = (none, l) := by
  simp [Recency.erase, dead]

/-- The value at a handle changes in its place. -/
theorem modify (holds : l.Lists es) (h : Handle) (f : α → α) :
    (l.modify h f).Lists (es.map fun e => if e.1 = h then (e.1, f e.2) else e) := by
  have keys := keys_modify es h f
  refine ⟨⟨keys ▸ holds.nodup, holds.linked.modify_value h f, ?_, ?_⟩, ?_, ?_, fun k => ?_,
    fun k hk => ?_⟩
  · rw [← List.head?_map, keys, List.head?_map]
    exact holds.newest
  · rw [← List.getLast?_map, keys, List.getLast?_map]
    exact holds.oldest
  · rw [List.length_map]
    exact holds.size
  · exact holds.free_nodup
  · rw [keys, Recency.modify, size_slots_modifySlot]
    exact holds.mem_free k
  · have none := holds.vacant k hk
    simp only [Recency.get?, Option.bind_eq_bind, Option.bind_eq_none_iff] at none ⊢
    intro s slot
    simp only [Recency.modify, modifySlot, Array.getElem?_modify] at slot
    split at slot
    · obtain ⟨s', slot', rfl⟩ := Option.map_eq_some_iff.1 slot
      simp [none s' slot']
    · exact none s slot

end Lists

/-! ## Traversal -/

theorem Lists.visits {l : Recency α} {es : List (Handle × α)} (holds : l.Lists es) :
    l.Visits es where
  follows := by
    rw [holds.newest]
    exact holds.linked.follows_older
  complete _ _ := holds.get?_eq_some_iff.1
  size := holds.size

/-- The traversal shows what the list holds. -/
theorem Lists.entries_eq {l : Recency α} {es : List (Handle × α)} (holds : l.Lists es) :
    l.entries = es :=
  holds.visits.entries_eq

theorem Lists.toList_eq {l : Recency α} {es : List (Handle × α)} (holds : l.Lists es) :
    l.toList = es.map Prod.snd := by
  rw [toList, holds.entries_eq]

end ReadThrough.Recency
