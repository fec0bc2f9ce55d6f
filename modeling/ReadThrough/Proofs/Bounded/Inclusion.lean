import ReadThrough.Proofs.Bounded.Refinement

/-!
# Larger caches keep more

Two bounded caches without arbiters are used alike, and one has a larger capacity.
They drift apart: what the smaller one evicts, the larger one still promotes and
overwrites.  Nevertheless the smaller one never has what the larger one lacks.

* `Lineup.Within s l` is what the two lists have in common.  The larger list is
  longer by no more than the capacity is, so it evicts only when the smaller one
  does (`Within.insert`).
* `Within.step` keeps it for every operation that goes by keys.
* `Bounded.sublist_of_capacity_le` puts it together for two empty caches.
-/

namespace ReadThrough

variable {κ ν τ : Type}

/-- The operation names the key that it is about, or is about all of them. -/
def Bounded.Op.byKey : Op κ ν τ → Bool
  | .dropOldest | .oldest | .install _ => false
  | _ => true

theorem Bounded.Op.installs_of_byKey {op : Op κ ν τ} (byKey : op.byKey = true) :
    op.installs = false := by
  cases op with
  | install arbiter? => cases byKey
  | _ => rfl

/-- Where a list loses its last element, so may a shorter one. -/
theorem sublist_dropLast {α : Type} {xs ys : List α} (sub : xs.Sublist ys) :
    xs.dropLast.Sublist ys.dropLast := by
  have reversed := (List.reverse_sublist.2 sub).tail
  rwa [List.tail_reverse, List.tail_reverse, List.reverse_sublist] at reversed

namespace Lineup

/-- All pairs of `s` are in `l`, in the same order, and `l` has no more pairs besides than its
capacity is larger. -/
structure Within (s l : Lineup κ ν τ) : Prop where
  sublist : s.pairs.Sublist l.pairs
  surplus : l.size + s.capacity ≤ s.size + l.capacity
  capacity : s.capacity ≤ l.capacity

variable {s l : Lineup κ ν τ}

/-- Both lists may change where the smaller one keeps up with the larger. -/
theorem Within.edit (within : Within s l) {s' l' : Lineup κ ν τ}
    (ofSmall : s'.capacity = s.capacity) (ofLarge : l'.capacity = l.capacity)
    (sublist : s'.pairs.Sublist l'.pairs) (surplus : l'.size + s.capacity ≤ s'.size + l.capacity) :
    Within s' l' where
  sublist := sublist
  surplus := by rwa [ofSmall, ofLarge]
  capacity := by
    rw [ofSmall, ofLarge]
    exact within.capacity

variable [DecidableEq κ]

namespace Within

theorem value? (within : Within s l) {k : κ} {v : ν} (here : s.value? k = some v) :
    l.value? k = some v := by
  rw [value?_eq_some_iff] at here ⊢
  exact within.sublist.subset here

theorem value?_eq_none (within : Within s l) {k : κ} (absent : l.value? k = none) :
    s.value? k = none :=
  Option.eq_none_iff_forall_ne_some.2 fun v here => by
    rw [within.value? here] at absent
    cases absent

theorem lead (within : Within s l) (k : κ) (v : ν) :
    (s.lead k v).pairs.Sublist (l.lead k v).pairs :=
  (within.sublist.filter _).cons_cons _

theorem insert (within : Within s l) (us : s.Unattended) (ul : l.Unattended) (k : κ) (v : ν) :
    Within (s.insert k v).2 (l.insert k v).2 := by
  have surplus := within.surplus
  have leads := within.lead k v
  have shorter := (s.lead k v).pairs.dropLast_sublist.trans leads
  rcases ul.insert_cases k v with ⟨old, here, keeps⟩ | ⟨absent, room, joins⟩ | ⟨absent, full, ousts⟩
  · have sized := size_lead here v
    rw [keeps]
    rcases us.insert_cases k v with ⟨old', here', keeps'⟩ | ⟨absent', -, joins'⟩ |
      ⟨absent', -, ousts'⟩
    · have sized' := size_lead here' v
      rw [keeps']
      exact within.edit rfl rfl leads (by omega)
    · have sized' := size_lead_of_absent (v := v) absent'
      rw [joins']
      exact within.edit rfl rfl leads (by omega)
    · have sized' := size_evict_lead (v := v) absent'
      rw [ousts']
      exact within.edit rfl rfl shorter (by omega)
  · have absent' := within.value?_eq_none absent
    have sized := size_lead_of_absent (v := v) absent
    rw [joins]
    rcases us.insert_cases k v with ⟨old', here', -⟩ | ⟨-, -, joins'⟩ | ⟨-, full', ousts'⟩
    · exact absurd (absent'.symm.trans here') (by simp)
    · have sized' := size_lead_of_absent (v := v) absent'
      rw [joins']
      exact within.edit rfl rfl leads (by omega)
    · have sized' := size_evict_lead (v := v) absent'
      rw [ousts']
      exact within.edit rfl rfl shorter (by omega)
  · -- the larger list is full, hence the smaller one too
    have absent' := within.value?_eq_none absent
    have sized := size_evict_lead (v := v) absent
    rw [ousts]
    rcases us.insert_cases k v with ⟨old', here', -⟩ | ⟨-, room', -⟩ | ⟨-, full', ousts'⟩
    · exact absurd (absent'.symm.trans here') (by simp)
    · omega
    · have sized' := size_evict_lead (v := v) absent'
      rw [ousts']
      exact within.edit rfl rfl (sublist_dropLast leads) (by omega)

theorem touch (within : Within s l) (k : κ) (f : ν → ν) : Within (s.touch k f) (l.touch k f) := by
  have surplus := within.surplus
  refine within.edit (capacity_touch f) (capacity_touch f) ?_ (by rwa [size_touch, size_touch])
  unfold Lineup.touch
  cases here' : s.value? k with
  | some v =>
    rw [within.value? here']
    exact within.lead k (f v)
  | none =>
    cases here : l.value? k with
    | some v =>
      -- the smaller list has nothing under this key, so what is in front does not matter
      dsimp only
      rw [← pairs_without_of_absent here']
      exact (within.sublist.filter _).cons _
    | none => exact within.sublist

theorem without (within : Within s l) (k : κ) : Within (s.without k) (l.without k) := by
  have surplus := within.surplus
  refine within.edit rfl rfl (within.sublist.filter _) ?_
  cases here' : s.value? k with
  | some v =>
    have sized' := size_without here'
    have sized := size_without (within.value? here')
    omega
  | none =>
    have same : (s.without k).size = s.size := congrArg List.length (pairs_without_of_absent here')
    have fewer : (l.without k).size ≤ l.size := size_without_le
    omega

/-- An operation that goes by keys keeps the smaller list within the larger one. -/
theorem step (within : Within s l) (us : s.Unattended) (ul : l.Unattended)
    {op : Bounded.Op κ ν τ} (byKey : op.byKey = true) : Within (s.step op).2 (l.step op).2 := by
  cases op with
  | insert k v => exact within.insert us ul k v
  | get k => exact within.touch k id
  | update k f => exact within.touch k f
  | peek k => exact within
  | contains k => exact within
  | erase k => exact within.without k
  | dropOldest => cases byKey
  | oldest => cases byKey
  | clear =>
    exact within.edit rfl rfl (List.Sublist.refl []) (Nat.add_le_add_left within.capacity 0)
  | install arbiter? => cases byKey

theorem after (within : Within s l) (us : s.Unattended) (ul : l.Unattended)
    {ops : List (Bounded.Op κ ν τ)} (byKey : ∀ op ∈ ops, op.byKey = true) :
    Within (s.after ops) (l.after ops) := by
  induction ops generalizing s l with
  | nil => exact within
  | cons op ops ih =>
    have first := byKey op List.mem_cons_self
    have silent := Bounded.Op.installs_of_byKey first
    exact ih (within.step us ul first) (us.step silent) (ul.step silent)
      fun op' mem => byKey op' (List.mem_cons_of_mem _ mem)

/-- A value that an operation by key finds in the smaller list, it finds in the larger one. -/
theorem reply (within : Within s l) {op : Bounded.Op κ ν τ} (byKey : op.byKey = true) {v : ν}
    (found : (s.step op).1 = .value (some v)) : (l.step op).1 = .value (some v) := by
  have larger {k : κ} (here : Bounded.Reply.value (κ := κ) (s.value? k) = .value (some v)) :
      Bounded.Reply.value (κ := κ) (l.value? k) = .value (some v) :=
    congrArg _ (within.value? (Bounded.Reply.value.inj here))
  cases op with
  | insert k w => cases found
  | get k => exact larger found
  | update k f =>
    obtain ⟨old, here, rfl⟩ := Option.map_eq_some_iff.1 (Bounded.Reply.value.inj found)
    change Bounded.Reply.value ((l.value? k).map f) = _
    rw [within.value? here]
    rfl
  | peek k => exact larger found
  | contains k => cases found
  | erase k => exact larger found
  | dropOldest => cases byKey
  | oldest => cases byKey
  | clear => cases found
  | install arbiter? => cases byKey

end Within

end Lineup

namespace Bounded

variable [DecidableEq κ]

/-- **A larger cache keeps what a smaller one keeps.**  After any operations by key on two empty
caches without arbiters, the pairs of the smaller one are among those of the larger one, in the
same order and with the same values, and the larger one has no more besides than its capacity is
larger.  What is found next in the smaller one is found in the larger one, with the same value. -/
theorem sublist_of_capacity_le {c C : Nat} (pos : 0 < c) (le : c ≤ C) {ops : List (Op κ ν τ)}
    (byKey : ∀ op ∈ ops, op.byKey = true) : ∃ small large : Bounded κ ν τ,
      ofCapacity? c none = some small ∧ ofCapacity? C none = some large ∧
      let s := small.after ops
      let l := large.after ops
      s.toList.Sublist l.toList ∧ l.size + c ≤ s.size + C ∧
      (∀ k v w, (k, v) ∈ s.toList → (k, w) ∈ l.toList → v = w) ∧
      ∀ op : Op κ ν τ, op.byKey = true →
        ∀ v, (s.step op).1 = .value (some v) → (l.step op).1 = .value (some v) := by
  obtain ⟨small, made, smalls⟩ := exists_mirrors (ν := ν) (τ := τ) (κ := κ) pos none
  obtain ⟨large, made', larges⟩ :=
    exists_mirrors (ν := ν) (τ := τ) (κ := κ) (Nat.lt_of_lt_of_le pos le) none
  refine ⟨small, large, made, made', ?_⟩
  intro s l
  have mirrors := smalls ops
  have mirrors' := larges ops
  have empty : Lineup.Within (Lineup.ofCapacity c none : Lineup κ ν τ) (.ofCapacity C none) :=
    ⟨List.Sublist.refl [], Nat.add_le_add_left le 0, le⟩
  have within :=
    empty.after (Lineup.unattended_ofCapacity c) (Lineup.unattended_ofCapacity C) byKey
  refine ⟨?_, ?_, fun k v w mem mem' => ?_, fun op byKey' v found => ?_⟩
  · rw [mirrors.pairs, mirrors'.pairs]
    exact within.sublist
  · have surplus := within.surplus
    rw [Lineup.capacity_after, Lineup.capacity_after] at surplus
    rw [mirrors.size_eq, mirrors'.size_eq]
    exact surplus
  · rw [mirrors.pairs, ← Lineup.value?_eq_some_iff] at mem
    rw [mirrors'.pairs, ← Lineup.value?_eq_some_iff] at mem'
    exact Option.some.inj ((within.value? mem).symm.trans mem')
  · rw [(mirrors.step op).1] at found
    rw [(mirrors'.step op).1]
    exact within.reply byKey' found

/-- The smaller cache evicts a pair that the larger one promotes and overwrites later. -/
theorem sublist_of_capacity_le_refilled :
    let ops : List (Op Nat Nat Unit) :=
      [.insert 1 10, .insert 2 20, .insert 3 30, .get 1, .update 2 (· + 1), .insert 1 11]
    0 < 2 ∧ 2 ≤ 3 ∧ (∀ op ∈ ops, op.byKey = true) ∧ ∃ small large : Bounded Nat Nat Unit,
      ofCapacity? 2 none = some small ∧ ofCapacity? 3 none = some large ∧
      (small.after ops).toList.Sublist (large.after ops).toList ∧
      (large.after ops).size + 2 ≤ (small.after ops).size + 3 := by
  intro ops
  have byKey : ∀ op ∈ ops, op.byKey = true := by decide
  obtain ⟨small, large, made, made', sublist, surplus, -⟩ :=
    sublist_of_capacity_le (c := 2) (C := 3) (by decide) (by decide) byKey
  exact ⟨by decide, by decide, byKey, small, large, made, made', sublist, surplus⟩

end Bounded

end ReadThrough
