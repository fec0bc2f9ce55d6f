import Mathlib.Algebra.Order.BigOperators.Group.List
import Mathlib.Algebra.Order.Group.Nat
import ReadThrough.Proofs.Cache.Lookups
import ReadThrough.Proofs.Cache.Reachable
import ReadThrough.Proofs.Cache.Window
import ReadThrough.Proofs.Tower.Frugal

/-!
# What a miss asks for

The lookup of a position is a hit or a miss, unless there is no such position.  A hit asks the
source for no objects.  A miss asks it once, for the largest window around the position that
keeps its share of a chunk and fetches nothing a second time.

* `Cache.get_of_covered`, `Cache.get_of_missing` and `Cache.get_of_outside` are the three ends
  of a lookup.
* `Cache.getSize_traced` is what the source was asked before.
* `Cache.get_fetches_maximal` puts them together for all reachable caches.
-/

namespace ReadThrough.Cache

variable {σ ι α : Type}

section

variable {src : Source σ ι α} {c : Cache ι α} {s : σ}

/-- Asking for the size leaves all else alone. -/
theorem exists_getSize (src : Source σ ι α) (c : Cache ι α) (s : σ) :
    ∃ size?, (getSize src c s).2.1 = { c with size? := size? } := by
  unfold getSize
  split
  · exact ⟨c.size?, rfl⟩
  · split
    · exact ⟨some _, rfl⟩
    · exact ⟨c.size?, rfl⟩

@[simp] theorem stats_getSize : (getSize src c s).2.1.stats = c.stats := by
  obtain ⟨size?, same⟩ := exists_getSize src c s
  rw [same]

/-- The window does not depend on who told the size. -/
theorem missWindow_getSize (position size : Nat) :
    (getSize src c s).2.1.missWindow position size = c.missWindow position size := by
  obtain ⟨size?, same⟩ := exists_getSize src c s
  rw [same]
  rfl

theorem stats_hit (h : Handle) : (c.hit h).2.stats = c.stats.hit := by
  unfold hit
  dsimp only
  split <;> rfl

/-- The source is asked for the size if it is not known. -/
theorem getSize_traced (src : Source σ ι α) (c : Cache ι α) (s : σ) (log : List (Call ι α)) :
    (getSize src.traced c (s, log)).1 = (getSize src c s).1 ∧
      (getSize src.traced c (s, log)).2.2.2 = if c.size?.isSome then log else .size :: log := by
  unfold getSize
  cases c.size? with
  | some size => exact ⟨rfl, rfl⟩
  | none =>
    unfold Source.traced
    dsimp only
    rcases src.size s with ⟨_ | size, s'⟩ <;> exact ⟨rfl, rfl⟩

/-- Keeping a record changes nothing else. -/
theorem getSize_traced_state (src : Source σ ι α) (c : Cache ι α) (s : σ)
    (log : List (Call ι α)) : (getSize src.traced c (s, log)).2.2.1 = (getSize src c s).2.2 := by
  unfold getSize
  cases c.size? with
  | some size => rfl
  | none =>
    unfold Source.traced
    dsimp only
    rcases src.size s with ⟨_ | size, s'⟩ <;> rfl

end

variable [DecidableEq ι] {src : Source σ ι α} {c : Cache ι α} {s : σ} {position size : Nat}

/-! ## The ends of a lookup -/

theorem get_of_outside (outside : ∀ size, (getSize src c s).1 = .ok size → size ≤ position) :
    (get src position c s).2 = (getSize src c s).2 := by
  unfold get
  rcases told : getSize src c s with ⟨_ | size, c₁, s₁⟩
  · rfl
  · rw [told] at outside
    have beyond : ¬ position < size := Nat.not_lt.2 (outside size rfl)
    simp only [guardPosition, if_neg beyond]

/-- Where the position exists, the lookup goes by the cache. -/
theorem get_of_inside (told : (getSize src c s).1 = .ok size) (inside : position < size) :
    get src position c s = match c.table.atPosition? position with
      | some h => (((getSize src c s).2.1.hit h).1, ((getSize src c s).2.1.hit h).2,
          (getSize src c s).2.2)
      | none => getMissing src position size (getSize src c s).2.1 (getSize src c s).2.2 := by
  have same := table_getSize src c s
  unfold get
  rcases sized : getSize src c s with ⟨_ | size', c₁, s₁⟩
  · rw [sized] at told
    cases told
  · rw [sized] at told same
    cases told
    dsimp only at same
    cases found : c.table.atPosition? position <;>
      simp only [guardPosition_eq_ok_iff.2 inside, same, found]

theorem get_of_covered (told : (getSize src c s).1 = .ok size) (inside : position < size)
    (covered : c.coversPosition position = true) :
    (get src position c s).2.2 = (getSize src c s).2.2 ∧
      (get src position c s).2.1.stats = c.stats.hit := by
  obtain ⟨h, found⟩ := Option.isSome_iff_exists.1 covered
  have served := get_of_inside told inside
  rw [Table.atPosition?, found] at served
  rw [served]
  exact ⟨rfl, (stats_hit h).trans (congrArg Stats.hit stats_getSize)⟩

omit [DecidableEq ι] in
theorem missed_le_lookups (acts : List (Act ι α)) :
    (acts.map Act.missed).sum ≤ (acts.map Act.lookups).sum := by
  refine List.sum_le_sum fun act _ => ?_
  cases act with
  | hit id => exact Nat.zero_le 1
  | _ => exact Nat.le_refl _

/-- A miss is one lookup, and it is not served. -/
theorem stats_getMissing (wf : c.table.WellFormed) (src : Source σ ι α) (position size : Nat)
    (s : σ) : (getMissing src position size c s).2.1.stats.misses = c.stats.misses + 1 ∧
      (getMissing src position size c s).2.1.stats.hits = c.stats.hits := by
  have books := books_replay (c := c) (missActs src position size c s)
  rw [← getMissing_eq wf] at books
  have looked := books.lookups
  have missed := books.misses
  have one := lookups_missActs wf src position size s
  have all : ((missActs src position size c s).map Act.missed).sum = 1 :=
    Nat.le_antisymm (one ▸ missed_le_lookups _) (Nat.le_add_right 1 _)
  rw [one] at looked
  rw [all] at missed
  unfold Stats.lookups at looked
  omega

theorem get_of_missing (wf : c.table.WellFormed) (told : (getSize src c s).1 = .ok size)
    (inside : position < size) (missing : c.coversPosition position = false) :
    (get src position c s).2.2 = (src.range (c.missWindow position size).start
        (c.missWindow position size).length (getSize src c s).2.2).2 ∧
      (get src position c s).2.1.stats.misses = c.stats.misses + 1 ∧
      (get src position c s).2.1.stats.hits = c.stats.hits := by
  have absent := coversPosition_eq_false_iff.1 missing
  have wf' : (getSize src c s).2.1.table.WellFormed := by rwa [table_getSize]
  have fetched := get_of_inside told inside
  rw [absent] at fetched
  obtain ⟨misses, hits⟩ := stats_getMissing wf' src position size (getSize src c s).2.2
  rw [fetched, misses, hits, stats_getSize, getMissing_state, missWindow_getSize]
  exact ⟨rfl, rfl, rfl⟩

/-! ## All lookups -/

/-- **A miss fetches the largest window that it may.**  Around a position that no table covers
there is a largest window of at most a chunk with nothing cached in it, and this is the window
of a miss.  However a cache was used before, a lookup that misses asks the source for just that
range, after the size if it was not known.  One that hits asks for no range, and one of a
position that does not exist counts for nothing. -/
theorem get_fetches_maximal (sizing : Sizing) :
    (∀ (t : Table ι α) (position size chunk : Nat), 0 < chunk → position < size →
      t.covers position = false →
      (Window.around t.covers position size chunk).Maximal t.covers position size chunk) ∧
    ∀ c : Cache ι α, Reachable sizing c →
      ∀ (src : Source σ ι α) (position : Nat) (s : σ) (log : List (Call ι α)),
      let read := get src.traced position c (s, log)
      let asked := if c.size?.isSome then log else .size :: log
      (∀ size, (getSize src c s).1 = .ok size → position < size →
        if c.coversPosition position then
          read.2.2.2 = asked ∧ read.2.1.stats.hits = c.stats.hits + 1 ∧
            read.2.1.stats.misses = c.stats.misses
        else
          let w := Window.around c.table.covers position size sizing.chunk
          read.2.2.2 = .range w.start w.length :: asked ∧ read.2.1.stats.hits = c.stats.hits ∧
            read.2.1.stats.misses = c.stats.misses + 1) ∧
      ((∀ size, (getSize src c s).1 = .ok size → size ≤ position) →
        read.2.2.2 = asked ∧ read.2.1.stats = c.stats) := by
  refine ⟨fun t position size chunk pos inside missing => Window.maximal_around pos inside missing,
    fun c reachable src position s log => ?_⟩
  obtain ⟨stocked, sized⟩ := reachable.stocked
  obtain ⟨same, calls⟩ := getSize_traced src c s log
  rw [← same]
  refine ⟨fun size told inside => ?_, fun outside => ?_⟩
  · split
    · rename_i covered
      obtain ⟨state, stats⟩ := get_of_covered told inside covered
      rw [state, stats]
      exact ⟨calls, rfl, rfl⟩
    · rename_i missing
      obtain ⟨state, misses, hits⟩ :=
        get_of_missing stocked.table told inside (eq_false_of_ne_true missing)
      rw [state, misses, hits, ← sized]
      exact ⟨congrArg (_ :: ·) calls, rfl, rfl⟩
  · rw [get_of_outside outside, calls, stats_getSize]
    exact ⟨rfl, rfl⟩

/-- Between two positions that are cached. -/
theorem get_fetches_maximal_between :
    let shelf : Shelf Nat Nat := ⟨[10, 11, 12, 13, 14, 15, 16, 17, 18, 19], some⟩
    let sizing : Sizing := ⟨6, 4, by decide, by decide⟩
    let read (position : Nat) (c : Cache Nat Nat) : Cache Nat Nat :=
      (query Shelf.source (.range position 1) c shelf).2.1
    let c := read 6 (read 2 (empty sizing))
    c.table.covers 4 = false ∧
      (Window.around c.table.covers 4 10 9).Maximal c.table.covers 4 10 9 ∧
      (get Shelf.source.traced 4 c (shelf, [])).2.2.2 = [.range 3 3] ∧
      (get Shelf.source.traced 4 c (shelf, [])).2.1.stats.misses = 3 := by
  intro shelf sizing read c
  have missing : c.table.covers 4 = false := by decide
  obtain ⟨maximal, all⟩ := get_fetches_maximal (σ := Shelf Nat Nat) (ι := Nat) (α := Nat) sizing
  have reachable : Reachable sizing c := .query _ _ _ (.query _ _ _ .empty)
  have fetched := (all c reachable Shelf.source 4 shelf []).1 10 (by rfl) (by decide)
  have window : Window.around c.table.covers 4 10 sizing.chunk = ⟨3, 6⟩ := by decide
  rw [if_neg (by decide)] at fetched
  dsimp only at fetched
  rw [window] at fetched
  obtain ⟨calls, -, misses⟩ := fetched
  exact ⟨missing, maximal c.table 4 10 9 (by decide) (by decide) missing, calls, misses⟩

end ReadThrough.Cache
