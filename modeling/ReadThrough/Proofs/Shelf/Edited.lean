import ReadThrough.Proofs.Fronted.Sequential

/-!
# What edits do to a shelf

Every edit either is refused, or announces that objects have moved, or puts another
object in the place of one whose identity it announces.

* `Shelf.Edited` says so, and `Shelf.Mutator.edited` that it holds of all edits.
* `Shelf.placed` is what may be told of a shelf on which objects may share identities:
  what stands where, and of an identity any object that has it.
* `Shelf.Edited.stocked`: a cache that holds no more than that before an edit does so
  after it, once it has handled what was announced.
-/

namespace ReadThrough

variable {ι α β : Type} [DecidableEq ι]

namespace Shelf

/-- A shelf, and changes that are announced, after one edit. -/
inductive Edited (s : Shelf ι α) : Shelf ι α → List (Change ι) → Prop
  | refused : Edited s s []
  | shifted (items : List α) {change : Change ι} : change.shiftsPositions = true →
    Edited s (s.withItems items) [change]
  | replaced {p : Nat} {old : α} (v : α) {changes : List (Change ι)} :
    s.items[p]? = some old →
    (∀ id, s.identify old = some id → .objectChanged id ∈ changes) →
    Edited s (s.withItems (s.items.set p v)) changes

theorem Mutator.edited [ToString ι] {e : Shelf ι α → Edit ι α β} (mutator : Mutator e)
    (s : Shelf ι α) : s.Edited (e s).2.1 (e s).2.2 := by
  cases mutator with
  | push v => exact .shifted _ rfl
  | insert position v =>
    dsimp only [Shelf.insert]
    split
    · exact .shifted _ rfl
    · exact .refused
  | removeAt position =>
    dsimp only [Shelf.removeAt]
    split
    · exact .shifted _ rfl
    · exact .refused
  | removeId id =>
    dsimp only [Shelf.removeId]
    split
    · exact .shifted _ rfl
    · exact .refused
  | replaceAll items => exact .shifted _ rfl
  | updateAt v position =>
    dsimp only [Shelf.updateAt]
    split
    · rename_i old at_p
      exact .replaced v at_p fun id named => named ▸ mem_replacement
    · exact .refused
  | update v =>
    dsimp only [Shelf.update]
    split
    · exact .refused
    · rename_i id named
      split
      · rename_i position found
        obtain ⟨old, at_p, named'⟩ := exists_of_position? found
        refine .replaced v at_p fun id' named'' => ?_
        cases named'.symm.trans named''
        exact List.mem_singleton_self _
      · exact .refused

/-! ## Shelves that repeat identities -/

/-- What may be told of a shelf, whatever its objects share. -/
def placed (s : Shelf ι α) : Answers ι α where
  size n := n = s.size
  item p v := s.items[p]? = some v
  named id v? := ∀ v, v? = some v → s.identify v = some id

variable {s s' : Shelf ι α} {changes : List (Change ι)}

theorem truthful_placed (s : Shelf ι α) : source.Truthful s.placed fun t => t = s where
  size t same := by
    refine ⟨same, fun n told => ?_⟩
    cases told
    exact same ▸ rfl
  range start length t same := by
    refine ⟨same, fun vs brought _ i v at_i => ?_⟩
    subst same
    have told : (t.answers fun _ => False).item (start + i) v := range_answers brought i v at_i
    exact answers_nothing_item.1 told
  byId id t same := by
    refine ⟨same, fun v? told v found => ?_⟩
    subst same
    cases told
    exact (exists_of_byId? found).1
  identify t same p v id _ named w eq := by
    cases eq
    exact same ▸ named

/-- What the changes of an edit leave in a cache is still as it was told. -/
theorem Edited.stocked (edited : s.Edited s' changes) {c : Cache ι α}
    (stocked : c.Stocked s.placed) : (changes.foldl Cache.apply c).Stocked s'.placed := by
  cases edited with
  | refused => exact stocked
  | shifted items shifts =>
    refine stocked.applyAll (fun e _ kept => ?_) fun keep => ?_
    · have stays := not_shifting_of_kept (kept _ (List.mem_singleton_self _))
      exact absurd (stays.symm.trans shifts) Bool.false_ne_true
    · have stays := not_shifting_of_keeps (keep _ (List.mem_singleton_self _))
      exact absurd (stays.symm.trans shifts) Bool.false_ne_true
  | @replaced p old v _ at_p told =>
    refine stocked.applyAll (fun e good kept => ⟨good.1, fun q at_q => ?_⟩) fun _ n size => ?_
    · -- an entry of the place that changed has the old identity, so that it was dropped
      have stood : s.items[q]? = some e.value := good.2 q at_q
      refine (List.getElem?_set_ne fun same => ?_).trans stood
      cases same
      cases Option.some.inj (at_p.symm.trans stood)
      exact of_decide_eq_false (kept _ (told e.id (good.1 _ rfl))) rfl
    · exact size.trans List.length_set.symm

end Shelf

end ReadThrough
