import ReadThrough.Proofs.Cache.Changes
import ReadThrough.Proofs.Shelf.Distinct

/-!
# Answers while changes are still to be heard of

A reader that has not heard of all changes yet may go by what a shelf held before,
but only where an announcement on its way will tell it so.

* `Shelf.answers s pending`: what is right over `s` for a reader to which the
  changes `pending` are still to be announced.  A shifting change excuses
  everything, a changed object what is told of its identity.
* `Cache.Stocked.announced`: handling a change takes it off the pending ones.
* `Shelf.Covers s s' changes`: the changes excuse whatever was right before an edit
  and is not after it; `covers_push` and its companions say that each edit does.
-/

namespace ReadThrough

variable {σ ι α : Type}

/-- What is right by one standard is right by the other, in entries and sizes. -/
structure Answers.Within (right right' : Answers ι α) : Prop where
  entry : ∀ e, right.entry e → right'.entry e
  size : ∀ n, right.size n → right'.size n

/-- Every single answer that is right by one standard is right by the other. -/
structure Answers.Looser (right right' : Answers ι α) : Prop where
  size : ∀ n, right.size n → right'.size n
  item : ∀ p v, right.item p v → right'.item p v
  named : ∀ id v?, right.named id v? → right'.named id v?

theorem Answers.Looser.within {right right' : Answers ι α} (looser : right.Looser right') :
    right.Within right' :=
  ⟨fun _ good => ⟨looser.named _ _ good.1, fun p at_p => looser.item p _ (good.2 p at_p)⟩,
    looser.size⟩

theorem Cache.Stocked.mono [DecidableEq ι] {c : Cache ι α} {right right' : Answers ι α}
    (stocked : c.Stocked right) (within : right.Within right') : c.Stocked right' :=
  ⟨stocked.table, stocked.fits, fun e mem => within.entry e (stocked.entries e mem),
    fun n known => within.size n (stocked.size n known)⟩

/-- One of the changes moves objects. -/
def Change.Shifting (pending : Change ι → Prop) : Prop :=
  ∃ change, pending change ∧ change.shiftsPositions = true

namespace Shelf

variable [DecidableEq ι]

/-- What may be told of the shelf while `pending` changes are still to be heard of. -/
def answers (s : Shelf ι α) (pending : Change ι → Prop) : Answers ι α where
  size n := Change.Shifting pending ∨ n = s.size
  item p v := Change.Shifting pending ∨ s.items[p]? = some v ∨
    ∃ id, s.identify v = some id ∧ pending (.objectChanged id)
  named id v? := Change.Shifting pending ∨ v? = s.byId? id ∨
    (∀ v, v? = some v → s.identify v = some id) ∧ pending (.objectChanged id)

variable {s s' : Shelf ι α} {pending pending' : Change ι → Prop} {e : Entry ι α}

omit [DecidableEq ι] in
theorem not_shifting_nothing : ¬ Change.Shifting fun _ : Change ι => False :=
  fun ⟨_, told, _⟩ => told

/-! When every change has been heard of, only what the shelf holds is right. -/

@[simp] theorem answers_nothing_size {n : Nat} :
    (s.answers fun _ => False).size n ↔ n = s.size :=
  or_iff_right not_shifting_nothing

@[simp] theorem answers_nothing_item {p : Nat} {v : α} :
    (s.answers fun _ => False).item p v ↔ s.items[p]? = some v := by
  simp [answers, not_shifting_nothing]

@[simp] theorem answers_nothing_named {id : ι} {v? : Option α} :
    (s.answers fun _ => False).named id v? ↔ v? = s.byId? id := by
  simp [answers, not_shifting_nothing]

/-- An entry is excused as a whole, or identified rightly. -/
theorem identify_of_entry (good : (s.answers pending).entry e) :
    Change.Shifting pending ∨ s.identify e.value = some e.id := by
  rcases good.1 with shifting | found | ⟨named, -⟩
  · exact Or.inl shifting
  · exact Or.inr (exists_of_byId? found.symm).1
  · exact Or.inr (named e.value rfl)

theorem Distinct.identify_answers (distinct : s.Distinct) {p : Nat} {v : α} {id : ι}
    (item : (s.answers pending).item p v) (hv : s.identify v = some id) :
    (s.answers pending).named id (some v) := by
  rcases item with shifting | at_p | ⟨id', hv', told⟩
  · exact Or.inl shifting
  · exact Or.inr (Or.inl (distinct.byId?_eq at_p hv).symm)
  · cases hv.symm.trans hv'
    exact Or.inr (Or.inr ⟨fun w eq => Option.some.inj eq ▸ hv, told⟩)

theorem range_answers {start length : Nat} {vs : List α}
    (brought : s.range start length = .ok vs) : (s.answers pending).run start vs := by
  unfold range at brought
  split at brought
  · cases brought
    intro i v at_i
    rw [List.getElem?_take] at at_i
    split at at_i
    · rw [List.getElem?_drop] at at_i
      exact Or.inr (Or.inl at_i)
    · cases at_i
  · cases brought

/-! ## Hearing of changes -/

theorem answers_of_shifting (shifting : Change.Shifting pending) {right : Answers ι α} :
    right.Within (s.answers pending) :=
  ⟨fun _ _ => ⟨Or.inl shifting, fun _ _ => Or.inl shifting⟩, fun _ _ => Or.inl shifting⟩

theorem answers_looser (more : ∀ change, pending change → pending' change) :
    (s.answers pending).Looser (s.answers pending') := by
  have shifts : Change.Shifting pending → Change.Shifting pending' :=
    fun ⟨change, told, shift⟩ => ⟨change, more change told, shift⟩
  refine ⟨fun n => Or.imp_left shifts, fun p v => ?_, fun id v? => ?_⟩
  · exact Or.imp shifts (Or.imp_right fun ⟨id, hv, told⟩ => ⟨id, hv, more _ told⟩)
  · exact Or.imp shifts (Or.imp_right fun old => ⟨old.1, more _ old.2⟩)

theorem answers_mono (more : ∀ change, pending change → pending' change) :
    (s.answers pending).Within (s.answers pending') :=
  (answers_looser more).within

omit [DecidableEq ι] in
theorem shifting_of_handled {change : Change ι} (stays : change.shiftsPositions = false)
    (shifting : Change.Shifting fun ch => ch = change ∨ pending ch) : Change.Shifting pending := by
  obtain ⟨ch, rfl | told, shift⟩ := shifting
  · exact absurd (stays.symm.trans shift) Bool.false_ne_true
  · exact ⟨ch, told, shift⟩

omit [DecidableEq ι] in
theorem not_shifting_of_keeps {change : Change ι} (keeps : change.forgetsSize = false) :
    change.shiftsPositions = false := by
  cases change <;> first | rfl | cases keeps

theorem not_shifting_of_kept {change : Change ι} (kept : change.drops e = false) :
    change.shiftsPositions = false := by
  cases change <;> first | rfl | cases kept

/-- A change excuses no entry that stays when it is handled. -/
theorem entry_of_handled {change : Change ι}
    (good : (s.answers fun ch => ch = change ∨ pending ch).entry e)
    (kept : change.drops e = false) : (s.answers pending).entry e := by
  have stays := not_shifting_of_kept kept
  rcases identify_of_entry good with shifting | named
  · exact (answers_of_shifting (shifting_of_handled stays shifting)).entry e good
  · have told : (Change.objectChanged e.id = change ∨ pending (.objectChanged e.id)) →
        pending (.objectChanged e.id) := by
      intro either
      rcases either with rfl | told
      · exact absurd rfl (of_decide_eq_false kept)
      · exact told
    refine ⟨?_, fun p at_p => ?_⟩
    · exact good.1.imp (shifting_of_handled stays) (Or.imp_right (And.imp_right told))
    · refine (good.2 p at_p).imp (shifting_of_handled stays) (Or.imp_right ?_)
      intro ⟨id, hv, old⟩
      cases hv.symm.trans named
      exact ⟨e.id, named, told old⟩

theorem size_of_handled {change : Change ι} (keeps : change.forgetsSize = false) {n : Nat}
    (size : (s.answers fun ch => ch = change ∨ pending ch).size n) : (s.answers pending).size n :=
  size.imp_left (shifting_of_handled (not_shifting_of_keeps keeps))

end Shelf

/-- A change that was handled excuses nothing any more. -/
theorem Cache.Stocked.announced [DecidableEq ι] {c : Cache ι α} {s : Shelf ι α}
    {pending : Change ι → Prop} {change : Change ι}
    (stocked : c.Stocked (s.answers fun ch => ch = change ∨ pending ch)) :
    (c.apply change).Stocked (s.answers pending) :=
  stocked.apply (fun _ good kept => Shelf.entry_of_handled good kept)
    fun keeps _ size => Shelf.size_of_handled keeps size

namespace Shelf

/-! ## Edits -/

variable [DecidableEq ι] {s s' : Shelf ι α}

/-- Whatever was right and is not after an edit is excused by the changes that it
announces. -/
structure Covers (s s' : Shelf ι α) (changes : List (Change ι)) : Prop where
  identify : s'.identify = s.identify
  within : s'.Distinct → ∀ pending : Change ι → Prop,
    (s.answers pending).Within (s'.answers fun ch => ch ∈ changes ∨ pending ch)

theorem covers_refl : s.Covers s [] where
  identify := rfl
  within _ _ := answers_mono fun _ told => Or.inr told

theorem covers_of_shifting {items : List α} {change : Change ι}
    (shifts : change.shiftsPositions = true) : s.Covers (s.withItems items) [change] where
  identify := rfl
  within _ _ := answers_of_shifting ⟨change, Or.inl (List.mem_singleton_self _), shifts⟩

/-- Replacing an object in place is announced by its old identity. -/
theorem covers_set {p : Nat} {old v : α} {changes : List (Change ι)}
    (at_p : s.items[p]? = some old)
    (told : ∀ id, s.identify old = some id → .objectChanged id ∈ changes) :
    s.Covers (s.withItems (s.items.set p v)) changes where
  identify := rfl
  within distinct pending := by
    have more : (s.answers pending).Within (s.answers fun ch => ch ∈ changes ∨ pending ch) :=
      answers_mono fun _ told => Or.inr told
    refine ⟨fun e good => ?_, fun n size => ?_⟩
    · rcases identify_of_entry good with shifting | named
      · exact (answers_of_shifting
          (shifting.imp fun ch told => ⟨Or.inr told.1, told.2⟩)).entry e good
      -- the object of the entry still stands where it was, or it is the old one
      have stays : ∀ q : Nat, s.items[q]? = some e.value →
          (s.items.set p v)[q]? = some e.value ∨ .objectChanged e.id ∈ changes := by
        intro q at_q
        by_cases same : p = q
        · cases same
          cases Option.some.inj (at_p.symm.trans at_q)
          exact Or.inr (told e.id named)
        · exact Or.inl ((List.getElem?_set_ne same).trans at_q)
      have excused : .objectChanged e.id ∈ changes →
          ((s.withItems (s.items.set p v)).answers
            fun ch => ch ∈ changes ∨ pending ch).entry e := by
        intro told
        refine ⟨Or.inr (Or.inr ⟨fun w eq => Option.some.inj eq ▸ named, Or.inl told⟩), ?_⟩
        exact fun q _ => Or.inr (Or.inr ⟨e.id, named, Or.inl told⟩)
      have good' := more.entry e good
      refine ⟨?_, fun q at_q => ?_⟩
      · rcases good'.1 with shifting | found | old
        · exact Or.inl shifting
        · obtain ⟨-, q, at_q⟩ := exists_of_byId? found.symm
          rcases stays q at_q with at_q | told
          · exact Or.inr (Or.inl (distinct.byId?_eq at_q named).symm)
          · exact (excused told).1
        · exact Or.inr (Or.inr old)
      · rcases good'.2 q at_q with shifting | found | old
        · exact Or.inl shifting
        · rcases stays q found with at_q' | told
          · exact Or.inr (Or.inl at_q')
          · exact (excused told).2 q at_q
        · exact Or.inr (Or.inr old)
    · refine (more.size n size).imp_right fun eq => ?_
      rw [eq, size_withItems, List.length_set]
      rfl

theorem covers_push {v : α} : s.Covers (s.push v).2.1 (s.push v).2.2 :=
  covers_of_shifting rfl

theorem covers_insert {position : Nat} {v : α} :
    s.Covers (s.insert position v).2.1 (s.insert position v).2.2 := by
  unfold insert
  split
  · exact covers_of_shifting rfl
  · exact covers_refl

theorem covers_removeAt {position : Nat} :
    s.Covers (s.removeAt position).2.1 (s.removeAt position).2.2 := by
  unfold removeAt
  split
  · exact covers_of_shifting rfl
  · exact covers_refl

theorem covers_removeId {id : ι} : s.Covers (s.removeId id).2.1 (s.removeId id).2.2 := by
  unfold removeId
  split
  · exact covers_of_shifting rfl
  · exact covers_refl

theorem covers_replaceAll {items : List α} :
    s.Covers (s.replaceAll items).2.1 (s.replaceAll items).2.2 :=
  covers_of_shifting rfl

theorem mem_replacement {position : Nat} {old : ι} {new? : Option ι} :
    .objectChanged old ∈ replacement position (some old) new? := by
  unfold replacement
  cases new? with
  | none => exact List.mem_cons_self
  | some new =>
    dsimp only
    split
    · rename_i same
      exact same ▸ List.mem_singleton_self _
    · exact List.mem_cons_self

theorem covers_updateAt {v : α} {position : Nat} :
    s.Covers (s.updateAt v position).2.1 (s.updateAt v position).2.2 := by
  unfold updateAt
  split
  · rename_i old at_p
    refine covers_set at_p fun id named => ?_
    rw [named]
    exact mem_replacement
  · exact covers_refl

theorem covers_update [ToString ι] {v : α} : s.Covers (s.update v).2.1 (s.update v).2.2 := by
  unfold update
  split
  · exact covers_refl
  · rename_i id named
    split
    · rename_i position found
      obtain ⟨old, at_p, named⟩ := exists_of_position? found
      refine covers_set at_p fun id' named' => ?_
      cases named.symm.trans named'
      exact List.mem_singleton_self _
    · exact covers_refl

theorem covers_write [ToString ι] {u : Update α} : s.Covers (s.write u).2.1 (s.write u).2.2 := by
  cases u with
  | place v position => exact covers_updateAt
  | renew v => exact covers_update

end Shelf

end ReadThrough
