import ReadThrough.Bounded
import ReadThrough.Proofs.Recency.Lists

/-!
# Lineups

A `Lineup` is what a bounded cache stands for: a plain list of pairs with
different keys, the most recently used first.  It has neither slots nor links nor
an index; each operation is an edit of the list.

* `Bounded.Op` are the operations on a bounded cache as data, `Bounded.Reply` what
  they give, and `Bounded.step` carries one out.
* `Lineup.step` says what the same operation does to a list; in `Lineup.insert` a
  new key may cost the last pair its place, and nobody else.
-/

namespace ReadThrough

variable {κ ν τ : Type}

namespace Bounded

/-- An operation on a bounded cache. -/
inductive Op (κ ν τ : Type) : Type where
  | insert (k : κ) (v : ν)
  | get (k : κ)
  /-- Get the value for change, and change it by `f`. -/
  | update (k : κ) (f : ν → ν)
  | peek (k : κ)
  | contains (k : κ)
  | erase (k : κ)
  | dropOldest
  | oldest
  | clear
  /-- Let another arbiter decide from now on, or none. -/
  | install (arbiter? : Option (Arbiter κ ν τ))

/-- What an operation gives. -/
inductive Reply (κ ν : Type) : Type where
  | stored (insertion : Insertion κ ν)
  | value (value? : Option ν)
  | known (present : Bool)
  | pair (pair? : Option (κ × ν))
  | done

/-- From now on an arbiter decides. -/
def Op.installs : Op κ ν τ → Bool
  | .install (some _) => true
  | _ => false

variable [DecidableEq κ]

def step (b : Bounded κ ν τ) : Op κ ν τ → Reply κ ν × Bounded κ ν τ
  | .insert k v => (b.insert k v).map .stored id
  | .get k => (b.get k).map .value id
  | .update k f => (b.update k f).map .value id
  | .peek k => (.value (b.peek? k), b)
  | .contains k => (.known (b.contains k), b)
  | .erase k => (b.erase k).map .value id
  | .dropOldest => b.dropOldest.map .pair id
  | .oldest => (.pair b.oldest?, b)
  | .clear => (.done, b.clear)
  | .install arbiter? => (.done, b.setArbiter arbiter?)

/-- The cache after operations. -/
def after (b : Bounded κ ν τ) (ops : List (Op κ ν τ)) : Bounded κ ν τ :=
  ops.foldl (fun b op => (b.step op).2) b

end Bounded

/-- Pairs with different keys, the most recently used first. -/
structure Lineup (κ ν τ : Type) : Type where
  pairs : List (κ × ν)
  nodup : (pairs.map Prod.fst).Nodup
  capacity : Nat
  arbiter? : Option (Arbiter κ ν τ)
  evictions : Nat

namespace Lineup

def ofCapacity (capacity : Nat) (arbiter? : Option (Arbiter κ ν τ)) : Lineup κ ν τ :=
  ⟨[], List.nodup_nil, capacity, arbiter?, 0⟩

def size (l : Lineup κ ν τ) : Nat := l.pairs.length

def clear (l : Lineup κ ν τ) : Lineup κ ν τ := { l with pairs := [], nodup := List.nodup_nil }

/-- Let another arbiter decide, or none. -/
def install (l : Lineup κ ν τ) (arbiter? : Option (Arbiter κ ν τ)) : Lineup κ ν τ :=
  { l with arbiter? := arbiter? }

def dropLast (l : Lineup κ ν τ) : Lineup κ ν τ :=
  { l with
    pairs := l.pairs.dropLast
    nodup := l.nodup.sublist (l.pairs.dropLast_sublist.map _) }

/-- The last pair goes, and is counted. -/
def evict (l : Lineup κ ν τ) : Lineup κ ν τ := { l.dropLast with evictions := l.evictions + 1 }

/-- The last pair, which is `p`, goes unless the arbiter, asked once, retains it. -/
def nominate (l : Lineup κ ν τ) (p : κ × ν) : Insertion κ ν × Lineup κ ν τ :=
  match l.arbiter? with
  | none => (⟨none, none, true⟩, l.evict)
  | some arbiter =>
    let (verdict, state) := arbiter.judge arbiter.state p.1 p.2
    let l := l.install (some { arbiter with state := state })
    match verdict with
    | .evict => (⟨none, some (p, .evict), true⟩, l.evict)
    | .retain => (⟨none, some (p, .retain), false⟩, l)

variable [DecidableEq κ]

/-- The value under a key. -/
def value? (l : Lineup κ ν τ) (k : κ) : Option ν := l.pairs.lookup k

def without (l : Lineup κ ν τ) (k : κ) : Lineup κ ν τ :=
  { l with
    pairs := l.pairs.filter fun p => p.1 ≠ k
    nodup := l.nodup.sublist (List.filter_sublist.map _) }

/-- A pair in front of all others, in place of the one with its key. -/
def lead (l : Lineup κ ν τ) (k : κ) (v : ν) : Lineup κ ν τ :=
  { l with
    pairs := (k, v) :: l.pairs.filter fun p => p.1 ≠ k
    nodup := List.nodup_cons.2 ⟨by simp, (l.without k).nodup⟩ }

/-- A key that is there moves to the front, and its value changes. -/
def touch (l : Lineup κ ν τ) (k : κ) (f : ν → ν) : Lineup κ ν τ :=
  match l.value? k with
  | some v => l.lead k (f v)
  | none => l

/-- A pair joins in front.  If its key is new, and there are too many pairs then, the
last one is nominated. -/
def insert (l : Lineup κ ν τ) (k : κ) (v : ν) : Insertion κ ν × Lineup κ ν τ :=
  let longer := l.lead k v
  match l.value? k with
  | some old => (⟨some old, none, false⟩, longer)
  | none =>
    if l.capacity < longer.size then
      longer.nominate (longer.pairs.getLast (List.cons_ne_nil _ _))
    else (⟨none, none, false⟩, longer)

def step (l : Lineup κ ν τ) : Bounded.Op κ ν τ → Bounded.Reply κ ν × Lineup κ ν τ
  | .insert k v => (l.insert k v).map .stored id
  | .get k => (.value (l.value? k), l.touch k id)
  | .update k f => (.value ((l.value? k).map f), l.touch k f)
  | .peek k => (.value (l.value? k), l)
  | .contains k => (.known (l.value? k).isSome, l)
  | .erase k => (.value (l.value? k), l.without k)
  | .dropOldest => (.pair l.pairs.getLast?, l.dropLast)
  | .oldest => (.pair l.pairs.getLast?, l)
  | .clear => (.done, l.clear)
  | .install arbiter? => (.done, l.install arbiter?)

/-- The list after operations. -/
def after (l : Lineup κ ν τ) (ops : List (Bounded.Op κ ν τ)) : Lineup κ ν τ :=
  ops.foldl (fun l op => (l.step op).2) l

/-! ## Keys and lengths -/

variable {l : Lineup κ ν τ} {k k' : κ} {v : ν}

omit [DecidableEq κ] in
@[simp] theorem pairs_dropLast : l.dropLast.pairs = l.pairs.dropLast := rfl

omit [DecidableEq κ] in
@[simp] theorem pairs_evict : l.evict.pairs = l.pairs.dropLast := rfl

@[simp] theorem pairs_lead :
    (l.lead k v).pairs = (k, v) :: l.pairs.filter fun p => p.1 ≠ k := rfl

theorem value?_eq_some_iff : l.value? k = some v ↔ (k, v) ∈ l.pairs :=
  ((⟨l.pairs, l.nodup⟩ : Index κ ν).mem_pairs_iff k v).symm

theorem value?_eq_none_iff : l.value? k = none ↔ k ∉ l.pairs.map Prod.fst := by
  rw [Option.eq_none_iff_forall_ne_some]
  simp [value?_eq_some_iff]

theorem pairs_without_of_absent (absent : l.value? k = none) :
    (l.without k).pairs = l.pairs := by
  refine List.filter_eq_self.2 fun p mem => decide_eq_true ?_
  rintro rfl
  exact value?_eq_none_iff.1 absent (List.mem_map_of_mem mem)

/-- A new pair joins all the others. -/
theorem pairs_lead_of_absent (absent : l.value? k = none) :
    (l.lead k v).pairs = (k, v) :: l.pairs :=
  congrArg ((k, v) :: ·) (pairs_without_of_absent absent)

theorem size_lead_of_absent (absent : l.value? k = none) : (l.lead k v).size = l.size + 1 :=
  congrArg List.length (pairs_lead_of_absent absent)

theorem size_without (here : l.value? k = some v) : (l.without k).size + 1 = l.size := by
  obtain ⟨xs, ys, split⟩ := List.append_of_mem (value?_eq_some_iff.1 here)
  have nodup := l.nodup
  rw [split] at nodup
  have rest : (l.without k).pairs = xs ++ ys := by
    change l.pairs.filter _ = _
    rw [split]
    exact Recency.filter_key_ne Prod.fst nodup
  rw [size, rest, size, split]
  simp only [List.length_append, List.length_cons]
  omega

theorem size_lead (here : l.value? k = some v) (v' : ν) : (l.lead k v').size = l.size :=
  size_without here

theorem value?_touch (f : ν → ν) : (l.touch k f).value? k = (l.value? k).map f := by
  unfold touch
  cases here : l.value? k with
  | none => exact here
  | some v => simp [value?]

theorem size_touch (f : ν → ν) : (l.touch k f).size = l.size := by
  unfold touch
  cases here : l.value? k with
  | none => rfl
  | some v => exact size_lead here (f v)

theorem size_without_le : (l.without k).size ≤ l.size := List.length_filter_le _ _

/-! ## What insertion comes to -/

/-- What inserting a pair can come to. -/
inductive Inserts (l : Lineup κ ν τ) (k : κ) (v : ν) : Insertion κ ν × Lineup κ ν τ → Prop
  /-- The key was there. -/
  | refresh {old : ν} : l.value? k = some old → Inserts l k v (⟨some old, none, false⟩, l.lead k v)
  /-- There was room for a new key. -/
  | join : l.value? k = none → l.size < l.capacity →
    Inserts l k v (⟨none, none, false⟩, l.lead k v)
  /-- Nobody was asked, and the last pair went. -/
  | oust : l.value? k = none → l.capacity ≤ l.size → l.arbiter? = none →
    Inserts l k v (⟨none, none, true⟩, (l.lead k v).evict)
  /-- The arbiter let the last pair go. -/
  | release {arbiter : Arbiter κ ν τ} {p : κ × ν} {state : τ} :
    l.value? k = none → l.capacity ≤ l.size → (l.lead k v).pairs.getLast? = some p →
    l.arbiter? = some arbiter → arbiter.judge arbiter.state p.1 p.2 = (.evict, state) →
    Inserts l k v (⟨none, some (p, .evict), true⟩,
      ((l.lead k v).install (some { arbiter with state := state })).evict)
  /-- The arbiter retained the last pair. -/
  | retain {arbiter : Arbiter κ ν τ} {p : κ × ν} {state : τ} :
    l.value? k = none → l.capacity ≤ l.size → (l.lead k v).pairs.getLast? = some p →
    l.arbiter? = some arbiter → arbiter.judge arbiter.state p.1 p.2 = (.retain, state) →
    Inserts l k v (⟨none, some (p, .retain), false⟩,
      (l.lead k v).install (some { arbiter with state := state }))

theorem inserts_nominate {p : κ × ν} (absent : l.value? k = none) (full : l.capacity ≤ l.size)
    (last : (l.lead k v).pairs.getLast? = some p) :
    Inserts l k v ((l.lead k v).nominate p) := by
  unfold nominate
  cases known : (l.lead k v).arbiter? with
  | none => exact .oust absent full known
  | some arbiter =>
    rcases judged : arbiter.judge arbiter.state p.1 p.2 with ⟨_ | _, state⟩
    · simp only [judged]
      exact .release absent full last known judged
    · simp only [judged]
      exact .retain absent full last known judged

theorem inserts (l : Lineup κ ν τ) (k : κ) (v : ν) : Inserts l k v (l.insert k v) := by
  unfold insert
  cases here : l.value? k with
  | some old => exact .refresh here
  | none =>
    dsimp only
    rw [size_lead_of_absent here]
    split
    · rename_i crowded
      exact inserts_nominate here (Nat.le_of_lt_succ crowded) (List.getLast?_eq_some_getLast _)
    · rename_i room
      exact .join here (by omega)

theorem Inserts.capacity {r : Insertion κ ν × Lineup κ ν τ} (inserts : Inserts l k v r) :
    r.2.capacity = l.capacity := by
  cases inserts <;> rfl

/-- The list that loses its last pair for a new one is as long as before. -/
theorem size_evict_lead (absent : l.value? k = none) : (l.lead k v).evict.size = l.size := by
  rw [size, pairs_evict, List.length_dropLast, pairs_lead_of_absent absent]
  rfl

/-- A pair that was just put in front is not the one that has to go. -/
theorem Inserts.head? {r : Insertion κ ν × Lineup κ ν τ} (inserts : Inserts l k v r)
    (pos : 0 < l.capacity) : r.2.pairs.head? = some (k, v) := by
  have spared (absent : l.value? k = none) (full : l.capacity ≤ l.size) :
      (l.lead k v).evict.pairs.head? = some (k, v) := by
    have others : l.pairs ≠ [] := List.length_pos_iff.1 (Nat.lt_of_lt_of_le pos full)
    rw [pairs_evict, pairs_lead_of_absent absent, List.dropLast_cons_of_ne_nil others]
    rfl
  cases inserts with
  | refresh => rfl
  | join => rfl
  | oust absent full => exact spared absent full
  | release absent full => exact spared absent full
  | retain => rfl

/-- The arbiter is shown the pair that was the last one before, on account of a new key. -/
theorem Inserts.consulted? {r : Insertion κ ν × Lineup κ ν τ} {p : κ × ν} {verdict : Verdict}
    (inserts : Inserts l k v r) (pos : 0 < l.capacity)
    (asked : r.1.consulted? = some (p, verdict)) :
    l.value? k = none ∧ l.pairs.getLast? = some p := by
  have before {p : κ × ν} (absent : l.value? k = none) (full : l.capacity ≤ l.size)
      (last : (l.lead k v).pairs.getLast? = some p) : l.pairs.getLast? = some p := by
    rw [pairs_lead_of_absent absent] at last
    cases others : l.pairs with
    | nil =>
      rw [size, others] at full
      exact absurd (Nat.lt_of_lt_of_le pos full) (Nat.lt_irrefl 0)
    | cons q ps => rwa [others, List.getLast?_cons_cons] at last
  cases inserts with
  | refresh => cases asked
  | join => cases asked
  | oust => cases asked
  | release absent full last =>
    cases asked
    exact ⟨absent, before absent full last⟩
  | retain absent full last =>
    cases asked
    exact ⟨absent, before absent full last⟩

/-! ## Steps -/

@[simp] theorem capacity_touch (f : ν → ν) : (l.touch k f).capacity = l.capacity := by
  unfold touch
  cases l.value? k <;> rfl

@[simp] theorem arbiter?_touch (f : ν → ν) : (l.touch k f).arbiter? = l.arbiter? := by
  unfold touch
  cases l.value? k <;> rfl

@[simp] theorem evictions_touch (f : ν → ν) : (l.touch k f).evictions = l.evictions := by
  unfold touch
  cases l.value? k <;> rfl

@[simp] theorem capacity_step (op : Bounded.Op κ ν τ) : (l.step op).2.capacity = l.capacity := by
  cases op with
  | insert k v => exact (l.inserts k v).capacity
  | get k => exact capacity_touch id
  | update k f => exact capacity_touch f
  | _ => rfl

@[simp] theorem capacity_after (ops : List (Bounded.Op κ ν τ)) :
    (l.after ops).capacity = l.capacity := by
  induction ops generalizing l with
  | nil => rfl
  | cons op ops ih => exact ih.trans (capacity_step op)

/-- No arbiter decides, and there are no more pairs than the capacity allows. -/
structure Unattended (l : Lineup κ ν τ) : Prop where
  arbiter? : l.arbiter? = none
  fits : l.size ≤ l.capacity

omit [DecidableEq κ] in
theorem unattended_ofCapacity (capacity : Nat) :
    (ofCapacity capacity none : Lineup κ ν τ).Unattended :=
  ⟨rfl, Nat.zero_le _⟩

namespace Unattended

/-- Without an arbiter, a new key costs the last pair its place where there is no room. -/
theorem insert_cases (unattended : l.Unattended) (k : κ) (v : ν) :
    (∃ old, l.value? k = some old ∧ (l.insert k v).2 = l.lead k v) ∨
      (l.value? k = none ∧ l.size < l.capacity ∧ (l.insert k v).2 = l.lead k v) ∨
      l.value? k = none ∧ l.size = l.capacity ∧ (l.insert k v).2 = (l.lead k v).evict := by
  have unasked (arbiter : Arbiter κ ν τ) : l.arbiter? ≠ some arbiter := by
    rw [unattended.arbiter?]
    exact (Option.some_ne_none arbiter).symm
  have fits := unattended.fits
  have inserts := l.inserts k v
  revert inserts
  generalize l.insert k v = r
  intro inserts
  cases inserts with
  | refresh here => exact Or.inl ⟨_, here, rfl⟩
  | join absent room => exact Or.inr (Or.inl ⟨absent, room, rfl⟩)
  | oust absent full => exact Or.inr (Or.inr ⟨absent, Nat.le_antisymm fits full, rfl⟩)
  | @release arbiter _ _ _ _ _ known => exact absurd known (unasked arbiter)
  | @retain arbiter _ _ _ _ _ known => exact absurd known (unasked arbiter)

theorem insert (unattended : l.Unattended) (k : κ) (v : ν) :
    (l.insert k v).2.Unattended := by
  have fits := unattended.fits
  rcases unattended.insert_cases k v with ⟨old, here, keeps⟩ | ⟨absent, room, joins⟩ |
    ⟨absent, full, ousts⟩
  · rw [keeps]
    exact ⟨unattended.arbiter?, by rw [size_lead here]; exact fits⟩
  · rw [joins]
    exact ⟨unattended.arbiter?, by rw [size_lead_of_absent absent]; exact room⟩
  · rw [ousts]
    exact ⟨unattended.arbiter?, by rw [size_evict_lead absent]; exact fits⟩

theorem touch (unattended : l.Unattended) (k : κ) (f : ν → ν) : (l.touch k f).Unattended where
  arbiter? := (arbiter?_touch f).trans unattended.arbiter?
  fits := by
    rw [size_touch, capacity_touch]
    exact unattended.fits

theorem step (unattended : l.Unattended) {op : Bounded.Op κ ν τ}
    (silent : op.installs = false) : (l.step op).2.Unattended := by
  cases op with
  | insert k v => exact unattended.insert k v
  | get k => exact unattended.touch k id
  | update k f => exact unattended.touch k f
  | erase k => exact ⟨unattended.arbiter?, Nat.le_trans size_without_le unattended.fits⟩
  | dropOldest =>
    have shorter : l.dropLast.size ≤ l.size := l.pairs.dropLast_sublist.length_le
    exact ⟨unattended.arbiter?, Nat.le_trans shorter unattended.fits⟩
  | clear => exact ⟨unattended.arbiter?, Nat.zero_le _⟩
  | install arbiter? =>
    cases arbiter? with
    | none => exact ⟨rfl, unattended.fits⟩
    | some arbiter => cases silent
  | _ => exact unattended

theorem after (unattended : l.Unattended) {ops : List (Bounded.Op κ ν τ)}
    (silent : ∀ op ∈ ops, op.installs = false) : (l.after ops).Unattended := by
  induction ops generalizing l with
  | nil => exact unattended
  | cons op ops ih =>
    exact ih (unattended.step (silent op List.mem_cons_self)) fun op' mem =>
      silent op' (List.mem_cons_of_mem _ mem)

end Unattended

end Lineup

end ReadThrough
