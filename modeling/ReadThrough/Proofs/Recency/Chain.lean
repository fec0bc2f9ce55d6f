import Mathlib.Data.List.Nodup
import ReadThrough.Recency

/-!
# Links of a recency list

The slots of a recency list point at each other in both directions, and the list
points at both ends.  A sequence `es` of handles and values, the most recent
first, says what these links amount to.

* `Recency.Segment` is a run of slots that point at each other, between two given
  neighbours; runs can be cut and joined (`segment_append`).
* `Recency.Chain` is a run from one end of the list to the other.
* `Chain.link` and `Chain.unlink` are what the two changes of links do to it.
  Neither touches a value (`get?_link`, `get?_unlink`).
-/

namespace ReadThrough.Recency

variable {α : Type}

/-! ## Linked runs -/

/-- The slots in `es`, in this order, hold their values and are linked to each
other; `newer?` stands before the first of them and `older?` after the last. -/
def Segment (slots : Array (Slot α)) :
    Option Handle → List (Handle × α) → Option Handle → Prop
  | _, [], _ => True
  | newer?, (h, a) :: es, older? =>
    slots[h]? = some ⟨some a, newer?, (es.head?.map Prod.fst).or older?⟩ ∧
      Segment slots (some h) es older?

theorem segment_append {slots : Array (Slot α)} {newer? older? : Option Handle}
    {xs ys : List (Handle × α)} :
    Segment slots newer? (xs ++ ys) older? ↔
      Segment slots newer? xs ((ys.head?.map Prod.fst).or older?) ∧
        Segment slots ((xs.getLast?.map Prod.fst).or newer?) ys older? := by
  induction xs generalizing newer? with
  | nil => simp [Segment]
  | cons x xs ih =>
    obtain ⟨h, a⟩ := x
    cases xs with
    | nil => simp [Segment]
    | cons y xs =>
      simp only [List.cons_append, Segment] at ih ⊢
      rw [ih]
      simp [and_assoc, List.getLast?_cons]

/-- A run depends on its own slots only. -/
theorem Segment.congr {slots slots' : Array (Slot α)} {newer? older? : Option Handle}
    {es : List (Handle × α)} (same : ∀ h ∈ es.map Prod.fst, slots'[h]? = slots[h]?)
    (seg : Segment slots newer? es older?) : Segment slots' newer? es older? := by
  induction es generalizing newer? with
  | nil => trivial
  | cons x es ih =>
    obtain ⟨h, a⟩ := x
    obtain ⟨here, rest⟩ := seg
    refine ⟨(same h (by simp)).trans here, ih (fun k hk => same k ?_) rest⟩
    exact List.mem_cons_of_mem _ hk

theorem Segment.modify_of_notMem {slots : Array (Slot α)} {newer? older? : Option Handle}
    {es : List (Handle × α)} {h : Handle} (f : Slot α → Slot α)
    (out : h ∉ es.map Prod.fst) (seg : Segment slots newer? es older?) :
    Segment (slots.modify h f) newer? es older? := by
  refine seg.congr fun k hk => ?_
  rw [Array.getElem?_modify, if_neg]
  rintro rfl
  exact out hk

theorem Segment.slot {slots : Array (Slot α)} {newer? older? : Option Handle}
    {es : List (Handle × α)} (seg : Segment slots newer? es older?) {h : Handle} {a : α}
    (mem : (h, a) ∈ es) : ∃ n o, slots[h]? = some ⟨some a, n, o⟩ := by
  induction es generalizing newer? with
  | nil => cases mem
  | cons x es ih =>
    obtain ⟨k, b⟩ := x
    obtain ⟨here, rest⟩ := seg
    rcases List.mem_cons.1 mem with eq | mem
    · cases eq
      exact ⟨_, _, here⟩
    · exact ih rest mem

/-- The neighbour after a run may be replaced at its last slot. -/
theorem Segment.modify_last {slots : Array (Slot α)} {newer? older? : Option Handle}
    {es : List (Handle × α)} {h : Handle} {a : α} (next? : Option Handle)
    (nodup : ((es ++ [(h, a)]).map Prod.fst).Nodup)
    (seg : Segment slots newer? (es ++ [(h, a)]) older?) :
    Segment (slots.modify h fun s => { s with older? := next? }) newer? (es ++ [(h, a)])
      next? := by
  have out : h ∉ es.map Prod.fst := by
    intro mem
    rw [List.map_append] at nodup
    exact (List.nodup_append.1 nodup).2.2 h mem h (by simp) rfl
  rw [segment_append] at seg ⊢
  refine ⟨seg.1.modify_of_notMem _ out, ?_, trivial⟩
  obtain ⟨here, -⟩ := seg.2
  simp [Array.getElem?_modify, here]

/-- The neighbour before a run may be replaced at its first slot. -/
theorem Segment.modify_first {slots : Array (Slot α)} {newer? older? : Option Handle}
    {es : List (Handle × α)} {h : Handle} {a : α} (prev? : Option Handle)
    (out : h ∉ es.map Prod.fst) (seg : Segment slots newer? ((h, a) :: es) older?) :
    Segment (slots.modify h fun s => { s with newer? := prev? }) prev? ((h, a) :: es)
      older? := by
  obtain ⟨here, rest⟩ := seg
  refine ⟨?_, rest.modify_of_notMem _ out⟩
  simp [Array.getElem?_modify, here]

/-- Values may change where the slots stand. -/
theorem Segment.modify_value {slots : Array (Slot α)} {newer? older? : Option Handle}
    {es : List (Handle × α)} (h : Handle) (f : α → α)
    (seg : Segment slots newer? es older?) :
    Segment (slots.modify h fun s => { s with value? := s.value?.map f }) newer?
      (es.map fun e => if e.1 = h then (e.1, f e.2) else e) older? := by
  induction es generalizing newer? with
  | nil => trivial
  | cons x es ih =>
    obtain ⟨k, b⟩ := x
    obtain ⟨here, rest⟩ := seg
    have head : (es.map fun e => if e.1 = h then (e.1, f e.2) else e).head?.map Prod.fst =
        es.head?.map Prod.fst := by
      cases es with
      | nil => rfl
      | cons y es => by_cases hy : y.1 = h <;> simp [hy]
    by_cases hk : k = h
    · subst hk
      simp only [List.map_cons, if_pos]
      refine ⟨?_, ih rest⟩
      rw [head]
      simp [Array.getElem?_modify, here]
    · simp only [List.map_cons, if_neg hk]
      refine ⟨?_, ih rest⟩
      rw [head, Array.getElem?_modify, if_neg (Ne.symm hk), here]

/-! ## Links leave the values alone -/

theorem get?_modifySlot_links (l : Recency α) (h k : Handle) (newer : Option Nat → Option Nat)
    (older : Option Nat → Option Nat) :
    (l.modifySlot h fun s => ⟨s.value?, newer s.newer?, older s.older?⟩).get? k = l.get? k := by
  simp only [get?, modifySlot, Array.getElem?_modify]
  by_cases hk : h = k
  · subst hk
    rw [if_pos rfl]
    cases l.slots[h]? <;> rfl
  · rw [if_neg hk]

@[simp] theorem get?_follow (l : Recency α) (newer? older? : Option Nat) (k : Handle) :
    (l.follow newer? older?).get? k = l.get? k := by
  cases newer? with
  | none => rfl
  | some n => exact get?_modifySlot_links l n k id fun _ => older?

@[simp] theorem get?_precede (l : Recency α) (newer? older? : Option Nat) (k : Handle) :
    (l.precede newer? older?).get? k = l.get? k := by
  cases older? with
  | none => rfl
  | some o => exact get?_modifySlot_links l o k (fun _ => newer?) id

@[simp] theorem get?_unlink (l : Recency α) (h k : Handle) :
    (l.unlink h).get? k = l.get? k := by
  unfold unlink
  split
  · rfl
  · rw [get?_modifySlot_links _ h k (fun _ => none) fun _ => none, get?_precede, get?_follow]

@[simp] theorem get?_link (l : Recency α) (h k : Handle) : (l.link h).get? k = l.get? k := by
  have first := get?_modifySlot_links l h k (fun _ => none) fun _ => l.newest?
  unfold link
  split
  · exact (get?_modifySlot_links _ _ k (fun _ => some h) id).trans first
  · exact first

@[simp] theorem size_slots_modifySlot (l : Recency α) (h : Handle) (f : Slot α → Slot α) :
    (l.modifySlot h f).slots.size = l.slots.size := by
  simp [modifySlot]

@[simp] theorem size_slots_link (l : Recency α) (h : Handle) :
    (l.link h).slots.size = l.slots.size := by
  unfold link
  cases l.newest? <;> simp [modifySlot]

@[simp] theorem size_slots_follow (l : Recency α) (newer? older? : Option Nat) :
    (l.follow newer? older?).slots.size = l.slots.size := by
  cases newer? <;> simp [follow]

@[simp] theorem size_slots_precede (l : Recency α) (newer? older? : Option Nat) :
    (l.precede newer? older?).slots.size = l.slots.size := by
  cases older? <;> simp [precede]

@[simp] theorem size_slots_unlink (l : Recency α) (h : Handle) :
    (l.unlink h).slots.size = l.slots.size := by
  unfold unlink
  split <;> simp

@[simp] theorem free_link (l : Recency α) (h : Handle) : (l.link h).free = l.free := by
  unfold link
  cases l.newest? <;> rfl

@[simp] theorem free_unlink (l : Recency α) (h : Handle) : (l.unlink h).free = l.free := by
  unfold unlink
  split
  · rfl
  · rename_i newer? older? _
    cases newer? <;> cases older? <;> rfl

@[simp] theorem size_link (l : Recency α) (h : Handle) : (l.link h).size = l.size := by
  unfold link
  cases l.newest? <;> rfl

@[simp] theorem size_unlink (l : Recency α) (h : Handle) : (l.unlink h).size = l.size := by
  unfold unlink
  split
  · rfl
  · rename_i newer? older? _
    cases newer? <;> cases older? <;> rfl

/-! ## Chains -/

/-- The slots in `es` are linked to each other, the list points at both ends, and
no slot occurs twice. -/
structure Chain (l : Recency α) (es : List (Handle × α)) : Prop where
  nodup : (es.map Prod.fst).Nodup
  linked : Segment l.slots none es none
  newest : l.newest? = es.head?.map Prod.fst
  oldest : l.oldest? = es.getLast?.map Prod.fst

namespace Chain

variable {l : Recency α} {es xs ys : List (Handle × α)} {h : Handle} {a : α}

theorem get? (chain : l.Chain es) (mem : (h, a) ∈ es) : l.get? h = some a := by
  obtain ⟨n, o, slot⟩ := chain.linked.slot mem
  simp [Recency.get?, slot]

theorem lt_size (chain : l.Chain es) (mem : h ∈ es.map Prod.fst) : h < l.slots.size := by
  obtain ⟨e, he, rfl⟩ := List.mem_map.1 mem
  obtain ⟨n, o, slot⟩ := chain.linked.slot he
  exact (Array.getElem?_eq_some_iff.1 slot).1

/-- A slot outside the chain may be changed in any way. -/
theorem modifySlot (chain : l.Chain es) (out : h ∉ es.map Prod.fst) (f : Slot α → Slot α) :
    (l.modifySlot h f).Chain es :=
  ⟨chain.nodup, chain.linked.modify_of_notMem f out, chain.newest, chain.oldest⟩

/-- Only links and ends make a chain. -/
theorem congr {l' : Recency α} (chain : l.Chain es) (slots : l'.slots = l.slots)
    (newest : l'.newest? = l.newest?) (oldest : l'.oldest? = l.oldest?) : l'.Chain es :=
  ⟨chain.nodup, slots ▸ chain.linked, newest.trans chain.newest, oldest.trans chain.oldest⟩

theorem link (chain : l.Chain es) (out : h ∉ es.map Prod.fst) (here : l.get? h = some a) :
    (l.link h).Chain ((h, a) :: es) := by
  obtain ⟨n, o, slot⟩ : ∃ n o, l.slots[h]? = some ⟨some a, n, o⟩ := by
    simp only [Recency.get?, Option.bind_eq_bind, Option.bind_eq_some_iff] at here
    obtain ⟨⟨v, n, o⟩, slot, rfl⟩ := here
    exact ⟨n, o, slot⟩
  have nodup : (((h, a) :: es).map Prod.fst).Nodup := List.nodup_cons.2 ⟨out, chain.nodup⟩
  have rest := chain.linked.modify_of_notMem
    (fun s => { s with newer? := none, older? := l.newest? }) out
  cases es with
  | nil =>
    have newest : l.newest? = none := chain.newest
    have oldest : l.oldest? = none := chain.oldest
    refine ⟨nodup, ⟨?_, trivial⟩, ?_, ?_⟩ <;>
      simp [Recency.link, Recency.modifySlot, newest, oldest, Array.getElem?_modify, slot]
  | cons e es =>
    obtain ⟨k, b⟩ := e
    have newest : l.newest? = some k := chain.newest
    have hk : k ≠ h := fun eq => out (by simp [eq])
    have outer : k ∉ es.map Prod.fst := (List.nodup_cons.1 chain.nodup).1
    rw [newest] at rest
    have relinked := rest.modify_first (some h) outer
    refine ⟨nodup, ⟨?_, ?_⟩, ?_, ?_⟩
    · simp [Recency.link, Recency.modifySlot, newest, Array.getElem?_modify, slot, hk]
    · simpa [Recency.link, Recency.modifySlot, newest] using relinked
    · simp [Recency.link]
    · have oldest := chain.oldest
      rw [List.getLast?_cons] at oldest
      simp [Recency.link, Recency.modifySlot, newest, oldest, List.getLast?_cons]

/-- A slot points at the slot before it and the slot after it. -/
theorem slot (chain : l.Chain (xs ++ (h, a) :: ys)) :
    l.slots[h]? = some ⟨some a, xs.getLast?.map Prod.fst, ys.head?.map Prod.fst⟩ := by
  have here := (segment_append.1 chain.linked).2.1
  simpa using here

/-- The run before a slot gets the slot after it as its neighbour. -/
theorem follow (chain : l.Chain (xs ++ (h, a) :: ys)) (older? : Option Handle) :
    Segment (l.follow (xs.getLast?.map Prod.fst) older?).slots none xs older? ∧
      (∀ k, k ∉ xs.map Prod.fst →
        (l.follow (xs.getLast?.map Prod.fst) older?).slots[k]? = l.slots[k]?) ∧
      (l.follow (xs.getLast?.map Prod.fst) older?).newest? = (xs.head?.map Prod.fst).or older? ∧
      (l.follow (xs.getLast?.map Prod.fst) older?).oldest? = l.oldest? := by
  have nodup : (xs.map Prod.fst).Nodup := by
    have := chain.nodup
    rw [List.map_append] at this
    exact this.of_append_left
  rcases List.eq_nil_or_concat xs with rfl | ⟨init, ⟨n, b⟩, rfl⟩
  · exact ⟨trivial, fun _ _ => rfl, rfl, rfl⟩
  · rw [List.concat_eq_append] at *
    have seg := (segment_append.1 chain.linked).1.modify_last older? nodup
    have newest := chain.newest
    refine ⟨by simpa [Recency.follow, Recency.modifySlot] using seg, fun k hk => ?_, ?_, ?_⟩
    · have ne : n ≠ k := by
        rintro rfl
        exact hk (by simp)
      simp [Recency.follow, Recency.modifySlot, Array.getElem?_modify, ne]
    · cases init <;>
        simpa [Recency.follow, Recency.modifySlot, List.getLast?_cons] using newest
    · simp [Recency.follow, Recency.modifySlot]

theorem unlink (chain : l.Chain (xs ++ (h, a) :: ys)) : (l.unlink h).Chain (xs ++ ys) := by
  have nodup := chain.nodup
  simp only [List.map_append, List.map_cons, List.nodup_append, List.nodup_cons,
    List.mem_cons] at nodup
  obtain ⟨nodup₁, ⟨out₂, nodup₂⟩, apart⟩ := nodup
  have out₁ : h ∉ xs.map Prod.fst := fun mem => apart h mem h (Or.inl rfl) rfl
  have disjoint : ∀ k ∈ ys.map Prod.fst, k ∉ xs.map Prod.fst :=
    fun k hk mem => apart k mem k (Or.inr hk) rfl
  have slot := chain.slot
  -- first the run before `h`, then the run after it; each step leaves the other run alone
  obtain ⟨before, same, newest, oldest⟩ := chain.follow (ys.head?.map Prod.fst)
  have after : Segment (l.follow (xs.getLast?.map Prod.fst) (ys.head?.map Prod.fst)).slots
      (some h) ys none :=
    (segment_append.1 chain.linked).2.2.congr fun k hk => same k (disjoint k hk)
  have oldest₀ := chain.oldest
  simp only [Recency.unlink, slot]
  have out : h ∉ (xs ++ ys).map Prod.fst := by
    rw [List.map_append, List.mem_append]
    exact fun mem => mem.elim out₁ out₂
  refine Chain.modifySlot ?_ out _
  revert before newest oldest after
  generalize l.follow (xs.getLast?.map Prod.fst) (ys.head?.map Prod.fst) = m
  intro before newest oldest after
  have joined : ((xs ++ ys).map Prod.fst).Nodup := by
    rw [List.map_append, List.nodup_append]
    exact ⟨nodup₁, nodup₂, fun k hk k' hk' => by
      rintro rfl
      exact disjoint k hk' hk⟩
  cases ys with
  | nil =>
    refine ⟨joined, ?_, ?_, ?_⟩
    · simpa [Recency.precede] using before
    · simpa [Recency.precede] using newest
    · simp [Recency.precede]
  | cons y ys =>
    obtain ⟨k, b⟩ := y
    have hk : k ∉ xs.map Prod.fst := disjoint k (by simp)
    refine ⟨joined, segment_append.2 ⟨?_, ?_⟩, ?_, ?_⟩
    · simpa [Recency.precede, Recency.modifySlot] using before.modify_of_notMem _ hk
    · simpa [Recency.precede, Recency.modifySlot] using
        after.modify_first (xs.getLast?.map Prod.fst) (List.nodup_cons.1 nodup₂).1
    · cases xs <;> simpa [Recency.precede, Recency.modifySlot] using newest
    · simp only [Recency.precede, Recency.modifySlot, oldest, oldest₀]
      simp [List.getLast?_cons]

end Chain

end ReadThrough.Recency
