import ReadThrough.Index
import ReadThrough.Proofs.Recency.Lists

/-!
# Rosters

A `Roster` is what a recency list stands for: a plain list of numbered values, the most recently
used first.  It has neither links nor ends; each operation is an edit of the list.  Numbers are
handed out from a pile: the one that came back last is the next to go, and a new one is made
where none is left.

* `Roster.issued` is part of the data: each number that was ever made is on the list or on the
  pile, once.
* `Recency.Op` are the operations on a recency list as data, `Recency.Reply` what they give, and
  `Recency.step` carries one out; `Roster.step` says what the same operation does to a roster.
-/

namespace ReadThrough

variable {α : Type}

namespace Recency

/-- An operation on a recency list.  What is not there cannot be addressed wrongly: any number
serves as a handle. -/
inductive Op (α : Type) : Type where
  | push (a : α)
  | promote (h : Handle)
  | erase (h : Handle)
  | dropOldest
  | set (h : Handle) (a : α)
  | modify (h : Handle) (f : α → α)
  | clear
  | get (h : Handle)
  | newest
  | oldest
  | size
  | isEmpty
  | entries

/-- What an operation gives. -/
inductive Reply (α : Type) : Type where
  | done
  | slot (h? : Option Handle)
  | value (a? : Option α)
  | count (n : Nat)
  | flag (b : Bool)
  | listing (es : List (Handle × α))
  deriving DecidableEq

/-- Whoever modifies a value finds it there first. -/
def step (l : Recency α) : Op α → Reply α × Recency α
  | .push a => (l.push a).map (fun h => .slot (some h)) id
  | .promote h => (.done, l.promote h)
  | .erase h => (l.erase h).map .value id
  | .dropOldest => l.dropOldest.map .value id
  | .set h a => (l.set h a).map .value id
  | .modify h f => (.value (l.get? h), l.modify h f)
  | .clear => (.done, ∅)
  | .get h => (.value (l.get? h), l)
  | .newest => (.slot l.newest?, l)
  | .oldest => (.slot l.oldest?, l)
  | .size => (.count l.size, l)
  | .isEmpty => (.flag l.isEmpty, l)
  | .entries => (.listing l.entries, l)

/-- Where `oldest?` is the last value, the operation takes out what is at `h`. -/
def Op.Frees (oldest? : Option Handle) (h : Handle) : Op α → Prop
  | .erase k => k = h
  | .dropOldest => oldest? = some h
  | .clear => True
  | _ => False

/-- What the operation makes of the value `a` at `h`. -/
def Op.write (h : Handle) (a : α) : Op α → α
  | .set k b => if k = h then b else a
  | .modify k f => if k = h then f a else a
  | _ => a

/-- None of the operations, one after the other, takes out what is at `h`. -/
def Spares (l : Recency α) (h : Handle) : List (Op α) → Prop
  | [] => True
  | op :: ops => ¬op.Frees l.oldest? h ∧ (l.step op).2.Spares h ops

/-- The list after operations. -/
def after (l : Recency α) (ops : List (Op α)) : Recency α :=
  ops.foldl (fun l op => (l.step op).2) l

end Recency

/-- Numbered values, the most recently used first. -/
structure Roster (α : Type) : Type where
  entries : List (Handle × α)
  /-- The numbers that hold nothing, the one that came back last first. -/
  freed : List Handle
  /-- How many numbers were made. -/
  slots : Nat
  /-- Each of them holds a value or is free. -/
  issued : (entries.map Prod.fst ++ freed).Perm (List.range slots)

namespace Roster

variable {r : Roster α} {h : Handle} {a b : α}

def empty : Roster α := ⟨[], [], 0, .refl _⟩

instance : EmptyCollection (Roster α) := ⟨empty⟩

/-- The values by their numbers. -/
def value? (r : Roster α) (h : Handle) : Option α := r.entries.lookup h

def newest? (r : Roster α) : Option Handle := r.entries.head?.map Prod.fst

def oldest? (r : Roster α) : Option Handle := r.entries.getLast?.map Prod.fst

/-- The number that is handed out next. -/
def next (r : Roster α) : Handle := r.freed.headD r.slots

/-! ## Numbers -/

theorem nodup_issued (r : Roster α) : (r.entries.map Prod.fst ++ r.freed).Nodup :=
  r.issued.nodup_iff.2 List.nodup_range

theorem nodup (r : Roster α) : (r.entries.map Prod.fst).Nodup :=
  (List.nodup_append.1 r.nodup_issued).1

/-- A number that was made is free unless it holds a value. -/
theorem mem_freed_iff : h ∈ r.freed ↔ h < r.slots ∧ h ∉ r.entries.map Prod.fst := by
  have made : h ∈ r.entries.map Prod.fst ++ r.freed ↔ h < r.slots :=
    r.issued.mem_iff.trans List.mem_range
  have apart := (List.nodup_append.1 r.nodup_issued).2.2
  rw [List.mem_append] at made
  constructor
  · intro free
    exact ⟨made.1 (Or.inr free), fun taken => apart h taken h free rfl⟩
  · rintro ⟨lt, out⟩
    exact (made.2 lt).resolve_left out

theorem value?_eq_some_iff : r.value? h = some a ↔ (h, a) ∈ r.entries :=
  ((⟨r.entries, r.nodup⟩ : Index Handle α).mem_pairs_iff h a).symm

theorem value?_eq_none_iff : r.value? h = none ↔ h ∉ r.entries.map Prod.fst := by
  rw [Option.eq_none_iff_forall_ne_some]
  simp [value?_eq_some_iff]

theorem issued_push (r : Roster α) :
    (r.next :: r.entries.map Prod.fst ++ r.freed.tail).Perm
      (List.range (max r.slots (r.next + 1))) := by
  have issued := r.issued
  unfold next
  cases free : r.freed with
  | nil =>
    rw [free, List.append_nil] at issued
    have grown : max r.slots (r.slots + 1) = r.slots + 1 := by omega
    simp only [List.headD_nil, List.tail_nil, List.append_nil, grown, List.range_succ]
    exact (issued.cons _).trans (List.perm_append_singleton _ _).symm
  | cons h freed =>
    rw [free] at issued
    have lt : h < r.slots := (mem_freed_iff.1 (free ▸ List.mem_cons_self)).1
    have kept : max r.slots (h + 1) = r.slots := Nat.max_eq_left lt
    simp only [List.headD_cons, List.tail_cons, kept]
    exact List.perm_middle.symm.trans issued

theorem issued_promote (r : Roster α) (h : Handle) :
    ((r.entries.filter (fun e => e.1 = h) ++ r.entries.filter (fun e => e.1 ≠ h)).map Prod.fst ++
      r.freed).Perm (List.range r.slots) := by
  have split := List.filter_append_perm (fun e => decide (e.1 = h)) r.entries
  simp only [← decide_not] at split
  exact ((split.map Prod.fst).append_right r.freed).trans r.issued

theorem issued_erase (mem : h ∈ r.entries.map Prod.fst) :
    ((r.entries.filter (fun e => e.1 ≠ h)).map Prod.fst ++ h :: r.freed).Perm
      (List.range r.slots) := by
  obtain ⟨e, here, rfl⟩ := List.mem_map.1 mem
  obtain ⟨xs, ys, split⟩ := List.append_of_mem here
  have nodup := r.nodup
  have issued := r.issued
  rw [split] at nodup issued ⊢
  rw [Recency.filter_key_ne Prod.fst nodup]
  refine List.perm_middle.trans (.trans ?_ issued)
  rw [List.map_append, List.map_append, List.append_assoc, List.append_assoc]
  exact List.perm_middle.symm

/-! ## Operations -/

/-- A value joins in front. -/
def push (r : Roster α) (a : α) : Handle × Roster α :=
  (r.next, ⟨(r.next, a) :: r.entries, r.freed.tail, max r.slots (r.next + 1), r.issued_push⟩)

/-- The value with this number comes first, and the others stay in their order. -/
def promote (r : Roster α) (h : Handle) : Roster α :=
  ⟨r.entries.filter (fun e => e.1 = h) ++ r.entries.filter (fun e => e.1 ≠ h), r.freed, r.slots,
    r.issued_promote h⟩

/-- A value leaves, and its number comes back. -/
def erase (r : Roster α) (h : Handle) : Option α × Roster α :=
  if mem : h ∈ r.entries.map Prod.fst then
    (r.value? h, ⟨r.entries.filter (fun e => e.1 ≠ h), h :: r.freed, r.slots, issued_erase mem⟩)
  else (none, r)

/-- The last value leaves. -/
def dropOldest (r : Roster α) : Option α × Roster α :=
  match r.oldest? with
  | some h => r.erase h
  | none => (none, r)

/-- A value changes, and keeps its place. -/
def modify (r : Roster α) (h : Handle) (f : α → α) : Roster α :=
  ⟨r.entries.map fun e => if e.1 = h then (e.1, f e.2) else e, r.freed, r.slots,
    (Recency.keys_modify r.entries h f).symm ▸ r.issued⟩

/-- Every value changes, and keeps its place. -/
def map (r : Roster α) (f : α → α) : Roster α :=
  ⟨r.entries.map fun e => (e.1, f e.2), r.freed, r.slots, by
    rw [List.map_map]
    exact r.issued⟩

def step (r : Roster α) : Recency.Op α → Recency.Reply α × Roster α
  | .push a => (r.push a).map (fun h => .slot (some h)) id
  | .promote h => (.done, r.promote h)
  | .erase h => (r.erase h).map .value id
  | .dropOldest => r.dropOldest.map .value id
  | .set h a => (.value (r.value? h), r.modify h fun _ => a)
  | .modify h f => (.value (r.value? h), r.modify h f)
  | .clear => (.done, ∅)
  | .get h => (.value (r.value? h), r)
  | .newest => (.slot r.newest?, r)
  | .oldest => (.slot r.oldest?, r)
  | .size => (.count r.entries.length, r)
  | .isEmpty => (.flag r.entries.isEmpty, r)
  | .entries => (.listing r.entries, r)

/-- The roster after operations. -/
def after (r : Roster α) (ops : List (Recency.Op α)) : Roster α :=
  ops.foldl (fun r op => (r.step op).2) r

/-! ## What stays -/

theorem mem_promote_iff {e : Handle × α} : e ∈ (r.promote h).entries ↔ e ∈ r.entries := by
  simp only [promote, List.mem_append, List.mem_filter, decide_eq_true_eq, ← and_or_left]
  exact and_iff_left (Classical.em _)

theorem entries_promote (mem : (h, a) ∈ r.entries) :
    (r.promote h).entries = (h, a) :: r.entries.filter fun e => e.1 ≠ h := by
  obtain ⟨xs, ys, split⟩ := List.append_of_mem mem
  have nodup := r.nodup
  rw [split] at nodup
  have found := Recency.filter_key_eq Prod.fst nodup
  rw [← split] at found
  exact congrArg (· ++ _) found

theorem entries_promote_of_notMem (out : h ∉ r.entries.map Prod.fst) :
    (r.promote h).entries = r.entries := by
  have ne : ∀ e ∈ r.entries, e.1 ≠ h := fun e mem eq => out (eq ▸ List.mem_map_of_mem mem)
  have absent : r.entries.filter (fun e => e.1 = h) = [] :=
    List.filter_eq_nil_iff.2 fun e mem eq => ne e mem (of_decide_eq_true eq)
  have others : r.entries.filter (fun e => e.1 ≠ h) = r.entries :=
    List.filter_eq_self.2 fun e mem => decide_eq_true (ne e mem)
  exact congrArg₂ (· ++ ·) absent others

theorem fst_erase (r : Roster α) (h : Handle) : (r.erase h).1 = r.value? h := by
  unfold erase
  split
  · rfl
  · rename_i out
    exact (value?_eq_none_iff.2 out).symm

theorem erase_of_notMem (out : h ∉ r.entries.map Prod.fst) : r.erase h = (none, r) :=
  dif_neg out

theorem entries_erase (r : Roster α) (h : Handle) :
    (r.erase h).2.entries = r.entries.filter fun e => e.1 ≠ h := by
  unfold erase
  split
  · rfl
  · rename_i out
    refine (List.filter_eq_self.2 fun e mem => decide_eq_true ?_).symm
    rintro rfl
    exact out (List.mem_map_of_mem mem)

theorem mem_erase_iff {e : Handle × α} :
    e ∈ (r.erase h).2.entries ↔ e ∈ r.entries ∧ e.1 ≠ h := by
  rw [entries_erase, List.mem_filter, decide_eq_true_eq]

theorem mem_dropOldest_iff {e : Handle × α} :
    e ∈ r.dropOldest.2.entries ↔ e ∈ r.entries ∧ r.oldest? ≠ some e.1 := by
  unfold dropOldest
  cases r.oldest? with
  | none => simp
  | some h =>
    rw [mem_erase_iff]
    simp [eq_comm]

theorem mem_modify (mem : (h, a) ∈ r.entries) (k : Handle) (f : α → α) :
    (h, if k = h then f a else a) ∈ (r.modify k f).entries := by
  refine List.mem_map.2 ⟨(h, a), mem, ?_⟩
  by_cases eq : k = h
  · simp [eq]
  · simp [eq, Ne.symm eq]

theorem entries_promote_modify (mem : (h, a) ∈ r.entries) (f : α → α) :
    ((r.modify h f).promote h).entries = (h, f a) :: r.entries.filter fun e => e.1 ≠ h := by
  have modified := mem_modify mem h f
  rw [if_pos rfl] at modified
  rw [entries_promote modified]
  exact congrArg _ (Recency.filter_modify_ne r.entries h f)

/-- A value keeps its number unless it is taken out, and changes only where it is written to. -/
theorem mem_step {op : Recency.Op α} (mem : (h, a) ∈ r.entries) (kept : ¬op.Frees r.oldest? h) :
    (h, op.write h a) ∈ (r.step op).2.entries := by
  cases op with
  | push b => exact List.mem_cons_of_mem _ mem
  | promote k => exact mem_promote_iff.2 mem
  | erase k => exact mem_erase_iff.2 ⟨mem, Ne.symm kept⟩
  | dropOldest => exact mem_dropOldest_iff.2 ⟨mem, kept⟩
  | set k b => exact mem_modify mem k fun _ => b
  | modify k f => exact mem_modify mem k f
  | clear => exact absurd trivial kept
  | _ => exact mem

/-- Where something is taken out, nothing is left. -/
theorem notMem_step {op : Recency.Op α} (freed : op.Frees r.oldest? h) :
    h ∉ (r.step op).2.entries.map Prod.fst := by
  intro mem
  obtain ⟨e, still, rfl⟩ := List.mem_map.1 mem
  cases op with
  | erase k => exact (mem_erase_iff.1 still).2 (Eq.symm freed)
  | dropOldest => exact (mem_dropOldest_iff.1 still).2 freed
  | clear => cases still
  | _ => exact absurd freed id

end Roster

end ReadThrough
