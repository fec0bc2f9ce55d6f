import ReadThrough.Network.Command
import ReadThrough.Proofs.Shelf.Distinct

/-!
# Edits, whole or not at all

A shelf is edited by a few calls.  Each of them is refused, and then nothing happens and nothing
is announced; or it is carried out, and then its announcements tell of every object that is not
there any more or not where it was, and of every new one.

* `Shelf.Deed` is such a call, and `Deed.on` what it gives, the shelf after it, and what it
  announces.
* `Deed.Refused` and `Deed.Done` say when a call is refused, and what it does otherwise.
* `Change.TellsOf` says which objects a change tells of; `Deed.Carried` that all are told of that
  a call touches.
* `Deed.refused_or_carried`: one or the other, whatever is on the shelf and however its objects
  are identified.
-/

namespace ReadThrough

variable {ι α β : Type}

/-- The change tells of an object with this identity, or without any, at a position: it moves
objects, or names the identity, or the position if there is no identity to name. -/
def Change.TellsOf (change : Change ι) (id? : Option ι) (p : Nat) : Prop :=
  change.shiftsPositions = true ∨ (∃ id, id? = some id ∧ change = .objectChanged id) ∨
    id? = none ∧ ∃ first last, change = .rangeChanged first last ∧ first ≤ p ∧ p ≤ last

namespace Shelf

/-- A call that edits a shelf. -/
inductive Deed (ι α : Type) where
  | push (value : α)
  | insert (position : Nat) (value : α)
  | removeAt (position : Nat)
  | removeId (id : ι)
  | replaceAll (items : List α)
  | updateAt (value : α) (position : Nat)
  | update (value : α)

namespace Deed

/-- The operation by which a node is called so. -/
def operation : Deed ι α → Operation ι α
  | push v => .push v
  | insert position v => .insert position v
  | removeAt position => .removeAt position
  | removeId id => .removeId id
  | replaceAll items => .replaceAll items
  | updateAt v position => .updateAt v position
  | update v => .update v

/-- An edit with its result as an outcome. -/
def shown (f : β → Outcome ι α) (e : Edit ι α β) : Outcome ι α × Shelf ι α × List (Change ι) :=
  (.ofExcept f e.1, e.2)

variable [DecidableEq ι]

/-- What the call gives, the shelf after it, and what it announces. -/
def on [ToString ι] (s : Shelf ι α) : Deed ι α → Outcome ι α × Shelf ι α × List (Change ι)
  | push v => shown .number (s.push v)
  | insert position v => shown (fun _ => .done) (s.insert position v)
  | removeAt position => shown .object (s.removeAt position)
  | removeId id => shown .object? (s.removeId id)
  | replaceAll items => shown (fun _ => .done) (s.replaceAll items)
  | updateAt v position => shown (fun _ => .done) (s.updateAt v position)
  | update v => shown (fun _ => .done) (s.update v)

/-- No object of these has the identity. -/
def Lacks (s : Shelf ι α) (items : List α) (id : ι) : Prop := ∀ v ∈ items, s.identify v ≠ some id

/-- The call is refused, with this outcome. -/
inductive Refused [ToString ι] (s : Shelf ι α) : Deed ι α → Outcome ι α → Prop
  | insert {position : Nat} (v : α) : s.size < position →
    Refused s (.insert position v) (.failed (.outOfBounds position s.size))
  | removeAt {position : Nat} : s.size ≤ position →
    Refused s (.removeAt position) (.failed (.outOfBounds position s.size))
  | removeId {id : ι} : Lacks s s.items id → Refused s (.removeId id) (.object? none)
  | updateAt (v : α) {position : Nat} : s.size ≤ position →
    Refused s (.updateAt v position) (.failed (.outOfBounds position s.size))
  | unidentified {v : α} : s.identify v = none →
    Refused s (.update v) (.failed (.badRequest .unidentified))
  | unknown {v : α} {id : ι} : s.identify v = some id → Lacks s s.items id →
    Refused s (.update v) (.failed (.badRequest (.unknownIdentity (toString id))))

/-- The call is carried out: its outcome, the objects after it, and what it announces.  Where it
goes by an identity, it acts on the first object that has it. -/
inductive Done (s : Shelf ι α) : Deed ι α → Outcome ι α → List α → List (Change ι) → Prop
  | push (v : α) :
    Done s (.push v) (.number s.size) (s.items ++ [v]) [.rangeAdded s.size s.size]
  | insert {before behind : List α} (v : α) : s.items = before ++ behind →
    Done s (.insert before.length v) .done (before ++ v :: behind)
      [.rangeAdded before.length before.length]
  | removeAt {before behind : List α} {old : α} : s.items = before ++ old :: behind →
    Done s (.removeAt before.length) (.object old) (before ++ behind)
      [.rangeDeleted before.length before.length]
  | removeId {before behind : List α} {old : α} {id : ι} : s.items = before ++ old :: behind →
    s.identify old = some id → Lacks s before id →
    Done s (.removeId id) (.object? (some old)) (before ++ behind) [.objectDeleted id]
  | replaceAll (items : List α) : Done s (.replaceAll items) .done items [.contentsChanged]
  | updateAt {before behind : List α} {old : α} (v : α) : s.items = before ++ old :: behind →
    Done s (.updateAt v before.length) .done (before ++ v :: behind)
      (replacement before.length (s.identify old) (s.identify v))
  | update {before behind : List α} {old v : α} {id : ι} : s.items = before ++ old :: behind →
    s.identify v = some id → s.identify old = some id → Lacks s before id →
    Done s (.update v) .done (before ++ v :: behind) [.objectChanged id]

/-- The positions at which the call replaces an object; all of them if it may move objects. -/
def Touches (s : Shelf ι α) : Deed ι α → Nat → Prop
  | updateAt _ position, p => p = position
  | update v, p => ∃ id, s.identify v = some id ∧ s.position? id = some p
  | _, _ => True

/-- The call is carried out as a whole, and what it announces covers what it does. -/
structure Carried (s : Shelf ι α) (d : Deed ι α) (outcome : Outcome ι α) (s' : Shelf ι α)
    (changes : List (Change ι)) : Prop where
  done : d.Done s outcome s'.items changes
  identify : s'.identify = s.identify
  /-- Where the call does not touch anything, the same object stands as before. -/
  still : ∀ p, ¬d.Touches s p → s'.items[p]? = s.items[p]?
  /-- Where it does, it tells of the object that stood there, and of the one that stands there. -/
  told : ∀ p v, d.Touches s p → s.items[p]? = some v ∨ s'.items[p]? = some v →
    ∃ change ∈ changes, change.TellsOf (s.identify v) p

variable {s : Shelf ι α} {d : Deed ι α} {outcome : Outcome ι α} {items before behind : List α}
variable {changes : List (Change ι)} {p : Nat} {old v w : α} {id : ι}

/-! ## An object in a list -/

omit [DecidableEq ι] in
theorem exists_split (at_p : s.items[p]? = some old) :
    ∃ before behind, s.items = before ++ old :: behind ∧ before.length = p := by
  obtain ⟨lt, rfl⟩ := List.getElem?_eq_some_iff.1 at_p
  refine ⟨s.items.take p, s.items.drop (p + 1), ?_, List.length_take_of_le (Nat.le_of_lt lt)⟩
  rw [← List.drop_eq_getElem_cons lt, List.take_append_drop]

theorem insertIdx_length_append (before behind : List α) (v : α) :
    (before ++ behind).insertIdx before.length v = before ++ v :: behind := by
  induction before with
  | nil => rfl
  | cons a before ih => exact congrArg (a :: ·) ih

theorem eraseIdx_length_append (before behind : List α) (old : α) :
    (before ++ old :: behind).eraseIdx before.length = before ++ behind := by
  rw [List.eraseIdx_append_of_length_le (Nat.le_refl _), Nat.sub_self, List.eraseIdx_cons_zero]

theorem set_length_append (before behind : List α) (old v : α) :
    (before ++ old :: behind).set before.length v = before ++ v :: behind := by
  rw [List.set_append_right _ _ (Nat.le_refl _), Nat.sub_self, List.set_cons_zero]

theorem getElem?_length_append (before behind : List α) (v : α) :
    (before ++ v :: behind)[before.length]? = some v := by
  rw [List.getElem?_append_right (Nat.le_refl _), Nat.sub_self, List.getElem?_cons_zero]

theorem position?_eq_none_iff : s.position? id = none ↔ Lacks s s.items id := by
  rw [position?, List.findIdx?_eq_none_iff]
  exact forall₂_congr fun v _ => decide_eq_false_iff_not

/-- The first object with an identity. -/
theorem position?_eq_some_iff : s.position? id = some p ↔ ∃ before old behind,
    s.items = before ++ old :: behind ∧ before.length = p ∧ s.identify old = some id ∧
      Lacks s before id := by
  constructor
  · intro found
    obtain ⟨lt, is_id, first⟩ := List.findIdx?_eq_some_iff_getElem.1 found
    obtain ⟨before, behind, split, length⟩ := exists_split (List.getElem?_eq_getElem lt)
    refine ⟨before, _, behind, split, length, of_decide_eq_true is_id, fun v mem has_id => ?_⟩
    obtain ⟨q, at_q⟩ := List.mem_iff_getElem?.1 mem
    have lt_q : q < before.length := (List.getElem?_eq_some_iff.1 at_q).1
    have stands : s.items[q]? = some v := by rw [split, List.getElem?_append_left lt_q, at_q]
    obtain ⟨_, same⟩ := List.getElem?_eq_some_iff.1 stands
    rw [← same] at has_id
    exact first q (length ▸ lt_q) (decide_eq_true has_id)
  · rintro ⟨before, old, behind, split, rfl, is_id, first⟩
    have none : before.findIdx? (s.hasId id) = none :=
      List.findIdx?_eq_none_iff.2 fun v mem => decide_eq_false (first v mem)
    have here : s.hasId id old = true := decide_eq_true is_id
    rw [position?, split, List.findIdx?_append, none, List.findIdx?_cons, if_pos here]
    exact congrArg some (Nat.zero_add _)

/-! ## What the announcements cover -/

/-- The announcements of a replacement tell of the old object and of the new one. -/
theorem exists_tells_replacement {old? new? id? : Option ι} (one : id? = old? ∨ id? = new?) :
    ∃ change ∈ replacement p old? new?, change.TellsOf id? p := by
  have of_id : ∀ {changes : List (Change ι)} {id : ι}, .objectChanged id ∈ changes →
      ∃ change ∈ changes, change.TellsOf (some id) p :=
    fun mem => ⟨_, mem, Or.inr (Or.inl ⟨_, rfl, rfl⟩)⟩
  have of_none : ∀ {changes : List (Change ι)}, .rangeChanged p p ∈ changes →
      ∃ change ∈ changes, change.TellsOf none p :=
    fun mem => ⟨_, mem, Or.inr (Or.inr ⟨rfl, p, p, rfl, Nat.le_refl p, Nat.le_refl p⟩)⟩
  cases old? with
  | none =>
    cases new? with
    | none =>
      rcases one with rfl | rfl <;> exact of_none (by simp [replacement, Change.single])
    | some new =>
      rcases one with rfl | rfl
      · exact of_none (by simp [replacement, Change.single])
      · exact of_id (by simp [replacement])
  | some old =>
    cases new? with
    | none =>
      rcases one with rfl | rfl
      · exact of_id (by simp [replacement])
      · exact of_none (by simp [replacement, Change.single])
    | some new =>
      by_cases same : old = new
      · rcases one with rfl | rfl <;> exact of_id (by simp [replacement, same])
      · rcases one with rfl | rfl <;> exact of_id (by simp [replacement, same])

/-- What is carried out is told of. -/
theorem Done.carried (done : d.Done s outcome items changes) :
    d.Carried s outcome (s.withItems items) changes := by
  -- a call that may move objects announces this
  have moved : ∀ {change : Change ι}, change.shiftsPositions = true → ∀ (p : Nat) (v : α),
      ∃ ch ∈ [change], ch.TellsOf (s.identify v) p :=
    fun shifts _ _ => ⟨_, List.mem_singleton_self _, Or.inl shifts⟩
  have elsewhere : ∀ {before behind : List α} {old v : α} {p : Nat},
      s.items = before ++ old :: behind → p ≠ before.length →
      (before ++ v :: behind)[p]? = s.items[p]? := by
    intro before behind old v p split other
    rw [split, ← set_length_append before behind old v, List.getElem?_set_ne other.symm]
  have there : ∀ {before behind : List α} {old v w : α}, s.items = before ++ old :: behind →
      s.items[before.length]? = some w ∨ (before ++ v :: behind)[before.length]? = some w →
      w = old ∨ w = v := by
    intro before behind old v w split stands
    rw [split, getElem?_length_append, getElem?_length_append] at stands
    exact stands.imp (fun eq => (Option.some.inj eq).symm) fun eq => (Option.some.inj eq).symm
  refine ⟨done, rfl, fun p untouched => ?_, fun p w touched stands => ?_⟩
  · cases done with
    | updateAt v split => exact elsewhere split untouched
    | update split named is_id first =>
      refine elsewhere split fun same => untouched ⟨_, named, ?_⟩
      exact position?_eq_some_iff.2 ⟨_, _, _, split, same.symm, is_id, first⟩
    | _ => exact absurd trivial untouched
  · cases done with
    | updateAt v split =>
      cases touched
      refine exists_tells_replacement ((there split stands).imp ?_ ?_) <;> exact congrArg _
    | @update before behind old v id split named is_id first =>
      obtain ⟨id', named', found⟩ := touched
      cases named.symm.trans named'
      have here := position?_eq_some_iff.2 ⟨_, _, _, split, rfl, is_id, first⟩
      cases Option.some.inj (here.symm.trans found)
      have same : s.identify w = some id := by
        rcases there split stands with rfl | rfl
        · exact is_id
        · exact named
      exact ⟨_, List.mem_singleton_self _, Or.inr (Or.inl ⟨id, same, rfl⟩)⟩
    | _ => exact moved rfl p w

/-! ## Refused or carried out -/

/-- A call gives neither a fault nor nothing if it is carried out. -/
theorem Done.outcome_ne (done : d.Done s outcome items changes) :
    (∀ fault, outcome ≠ .failed fault) ∧ outcome ≠ .object? none := by
  cases done <;> exact ⟨nofun, nofun⟩

variable [ToString ι]

/-- A call is refused, or it is done. -/
theorem refused_or_done (s : Shelf ι α) (d : Deed ι α) :
    (d.Refused s (d.on s).1 ∧ (d.on s).2 = (s, [])) ∨
      ∃ items changes, d.Done s (d.on s).1 items changes ∧
        (d.on s).2 = (s.withItems items, changes) := by
  cases d with
  | push v => exact Or.inr ⟨_, _, .push v, rfl⟩
  | replaceAll items => exact Or.inr ⟨_, _, .replaceAll items, rfl⟩
  | insert position v =>
    rw [on, Shelf.insert]
    split
    · rename_i le
      have split : s.items = s.items.take position ++ s.items.drop position :=
        (List.take_append_drop position s.items).symm
      have length : (s.items.take position).length = position := List.length_take_of_le le
      have done := Done.insert v split
      have put := insertIdx_length_append (s.items.take position) (s.items.drop position) v
      rw [length] at done put
      rw [← split] at put
      rw [← put] at done
      exact Or.inr ⟨_, _, done, rfl⟩
    · rename_i beyond
      exact Or.inl ⟨.insert v (Nat.lt_of_not_le beyond), rfl⟩
  | removeAt position =>
    rw [on, Shelf.removeAt]
    cases at_p : s.items[position]? with
    | none => exact Or.inl ⟨.removeAt (List.getElem?_eq_none_iff.1 at_p), rfl⟩
    | some old =>
      obtain ⟨before, behind, split, rfl⟩ := exists_split at_p
      refine Or.inr ⟨_, _, .removeAt split, ?_⟩
      rw [shown, split, eraseIdx_length_append]
      rfl
  | removeId id =>
    rw [on, Shelf.removeId]
    cases found : s.position? id with
    | none => exact Or.inl ⟨.removeId (position?_eq_none_iff.1 found), rfl⟩
    | some position =>
      obtain ⟨before, old, behind, split, rfl, is_id, first⟩ := position?_eq_some_iff.1 found
      refine Or.inr ⟨before ++ behind, [.objectDeleted id], ?_, ?_⟩
      · have done := Done.removeId split is_id first
        rwa [← getElem?_length_append before behind old, ← split] at done
      · dsimp only [shown]
        rw [split, eraseIdx_length_append]
  | updateAt v position =>
    rw [on, Shelf.updateAt]
    cases at_p : s.items[position]? with
    | none => exact Or.inl ⟨.updateAt v (List.getElem?_eq_none_iff.1 at_p), rfl⟩
    | some old =>
      obtain ⟨before, behind, split, rfl⟩ := exists_split at_p
      refine Or.inr ⟨_, _, .updateAt v split, ?_⟩
      rw [shown, split, set_length_append]
  | update v =>
    rw [on, Shelf.update]
    cases named : s.identify v with
    | none => exact Or.inl ⟨.unidentified named, rfl⟩
    | some id =>
      dsimp only
      cases found : s.position? id with
      | none => exact Or.inl ⟨.unknown named (position?_eq_none_iff.1 found), rfl⟩
      | some position =>
        obtain ⟨before, old, behind, split, rfl, is_id, first⟩ := position?_eq_some_iff.1 found
        refine Or.inr ⟨_, _, .update split named is_id first, ?_⟩
        dsimp only [shown]
        rw [split, set_length_append]

/-- Either nothing happens, or everything that has to. -/
theorem refused_or_carried (s : Shelf ι α) (d : Deed ι α) :
    (d.Refused s (d.on s).1 ∧ (d.on s).2 = (s, [])) ∨
      d.Carried s (d.on s).1 (d.on s).2.1 (d.on s).2.2 := by
  refine (refused_or_done s d).imp_right fun ⟨items, changes, done, result⟩ => ?_
  rw [result]
  exact done.carried

/-- A call that gives a fault, or nothing, has left the shelf alone and announces nothing. -/
theorem eq_of_failed
    (failed : (∃ fault, (d.on s).1 = .failed fault) ∨ (d.on s).1 = .object? none) :
    (d.on s).2 = (s, []) := by
  rcases refused_or_done s d with ⟨-, same⟩ | ⟨items, changes, done, -⟩
  · exact same
  · rcases failed with ⟨fault, failed⟩ | nothing
    · exact absurd failed (done.outcome_ne.1 fault)
    · exact absurd nothing done.outcome_ne.2

end Deed

end Shelf

end ReadThrough
