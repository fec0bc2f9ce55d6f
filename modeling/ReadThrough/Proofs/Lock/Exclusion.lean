import Mathlib.Tactic.Common
import ReadThrough.Lock.Basic

/-!
# Exclusion of writers

A lock never records a hold that is worth nothing, and while it records a writer no
other thread reads.  `Lock.Exclusive` says so, and each of the four operations keeps it.

* `Lock.foreignReaders_eq_false_iff`: the number of readers tells whether others read.
* `Exclusive.alone`: while a thread writes, no other one holds the lock.
-/

namespace ReadThrough.Lock

variable {τ : Type} {l l' : Lock τ}

/-- Recorded counts are positive, and nobody but the writer reads. -/
structure Exclusive (l : Lock τ) : Prop where
  readers_pos : ∀ t n, (t, n) ∈ l.readers.pairs → 1 ≤ n
  writer_pos : ∀ owner n, l.writer? = some (owner, n) → 1 ≤ n
  writer_only : ∀ owner n, l.writer? = some (owner, n) → ∀ t ∈ l.readers.keys, t = owner

theorem exclusive_free : (free : Lock τ).Exclusive where
  readers_pos _ _ mem := absurd mem List.not_mem_nil
  writer_pos _ _ writes := by cases writes
  writer_only _ _ writes := by cases writes

variable [DecidableEq τ] {me t u : τ}

/-- The thread reads or writes. -/
def heldBy (l : Lock τ) (t : τ) : Bool := l.readsBy t || l.writesBy t

theorem readsBy_iff : l.readsBy t = true ↔ t ∈ l.readers.keys := by
  rw [readsBy, Index.contains, Option.isSome_iff_exists, Index.mem_keys_iff]

theorem writesBy_iff : l.writesBy t = true ↔ ∃ n, l.writer? = some (t, n) := by
  unfold writesBy
  split
  · rename_i owner n writes
    rw [decide_eq_true_eq, writes]
    simp
  · rename_i free
    rw [free]
    simp

/-- Nobody is counted twice, so a single reader is the thread itself or another one. -/
theorem foreignReaders_eq_false_iff :
    l.foreignReaders me = false ↔ ∀ t ∈ l.readers.keys, t = me := by
  have nodup : l.readers.keys.Nodup := l.readers.nodup
  have length : l.readers.size = l.readers.keys.length := (List.length_map _).symm
  rw [foreignReaders, length]
  match keys : l.readers.keys with
  | [] => simp
  | [t] =>
    have reads : l.readsBy me = true ↔ t = me := by
      rw [readsBy_iff, keys, List.mem_singleton, eq_comm]
    simp [reads]
  | t :: u :: rest =>
    rw [keys, List.nodup_cons] at nodup
    have differ : t ≠ u := fun same => nodup.1 (same ▸ List.mem_cons_self)
    simp only [List.length_cons, Bool.true_eq_false, false_iff]
    intro all
    exact differ ((all t (by simp)).trans (all u (by simp)).symm)

namespace Exclusive

/-- While a thread writes, no other one holds the lock. -/
theorem alone (lock : l.Exclusive) (writes : l.writesBy t = true) (held : l.heldBy u = true) :
    u = t := by
  obtain ⟨n, writer⟩ := writesBy_iff.1 writes
  rw [heldBy, Bool.or_eq_true] at held
  rcases held with reads | writes'
  · exact lock.writer_only t n writer u (readsBy_iff.1 reads)
  · obtain ⟨n', writer'⟩ := writesBy_iff.1 writes'
    exact (Prod.mk.inj (Option.some.inj (writer'.symm.trans writer))).1

/-- A lock with other readers and the same writer. -/
theorem withReaders (lock : l.Exclusive) {readers : Index τ Nat}
    (pos : ∀ t n, readers.get? t = some n → l.readers.get? t = some n ∨ 1 ≤ n)
    (only : ∀ owner n, l.writer? = some (owner, n) → ∀ t n, readers.get? t = some n →
      t = owner ∨ ∃ n, l.readers.get? t = some n) :
    ({ l with readers := readers } : Lock τ).Exclusive where
  readers_pos t n mem := by
    rcases pos t n ((Index.mem_pairs_iff _ _ _).1 mem) with old | new
    · exact lock.readers_pos t n ((Index.mem_pairs_iff _ _ _).2 old)
    · exact new
  writer_pos := lock.writer_pos
  writer_only owner n writes t reads := by
    obtain ⟨k, counted⟩ := (Index.mem_keys_iff _ _).1 reads
    rcases only owner n writes t k counted with same | old
    · exact same
    · exact lock.writer_only owner n writes t ((Index.mem_keys_iff _ _).2 old)

theorem acquireRead (lock : l.Exclusive) (granted : l.acquireRead? me = some l') :
    l'.Exclusive := by
  unfold acquireRead? at granted
  split at granted
  · cases granted
  · rename_i need_not
    cases granted
    refine lock.withReaders (fun t n counted => ?_) fun owner n writes t k counted => ?_
    · rw [Index.get?_insert] at counted
      split at counted
      · cases counted
        exact Or.inr (Nat.le_add_left 1 _)
      · exact Or.inl counted
    · rw [Index.get?_insert] at counted
      split at counted
      · rename_i same
        rw [mustWaitRead, foreignWriter, writes, decide_eq_true_eq, not_not] at need_not
        exact Or.inl (same.trans need_not.symm)
      · exact Or.inr ⟨k, counted⟩

theorem acquireWrite (lock : l.Exclusive) (granted : l.acquireWrite? me = some l') :
    l'.Exclusive := by
  unfold acquireWrite? at granted
  split at granted
  · cases granted
  · rename_i need_not
    split at granted
    · rename_i owner count writes
      cases granted
      refine ⟨lock.readers_pos, fun owner' n writes' => ?_, fun owner' n writes' => ?_⟩
      · cases writes'
        exact Nat.le_add_left 1 count
      · cases writes'
        exact lock.writer_only owner count writes
    · rename_i unwritten
      cases granted
      have alone : l.foreignReaders me = false := by
        rw [mustWaitWrite, writesBy, unwritten] at need_not
        simpa using need_not
      refine ⟨lock.readers_pos, fun owner n writes => ?_, fun owner n writes => ?_⟩
      · cases writes
        exact Nat.le_refl 1
      · cases writes
        exact foreignReaders_eq_false_iff.1 alone

theorem releaseRead (lock : l.Exclusive) (given_back : l.releaseRead me = .ok l') :
    l'.Exclusive := by
  unfold Lock.releaseRead at given_back
  split at given_back
  · cases given_back
  · rename_i count reads
    split at given_back
    · cases given_back
      have fewer : ∀ t n, (l.readers.erase me).get? t = some n → l.readers.get? t = some n := by
        intro t n counted
        rw [Index.get?_erase] at counted
        split at counted
        · cases counted
        · exact counted
      exact lock.withReaders (fun t n counted => Or.inl (fewer t n counted))
        fun _ _ _ t n counted => Or.inr ⟨n, fewer t n counted⟩
    · rename_i more
      cases given_back
      refine lock.withReaders (fun t n counted => ?_) fun _ _ _ t n counted => Or.inr ?_
      · rw [Index.get?_insert] at counted
        split at counted
        · cases counted
          exact Or.inr (Nat.one_le_iff_ne_zero.2 more)
        · exact Or.inl counted
      · rw [Index.get?_insert] at counted
        split at counted
        · rename_i same
          exact ⟨count, same ▸ reads⟩
        · exact ⟨n, counted⟩

theorem releaseWrite (lock : l.Exclusive) (given_back : l.releaseWrite me = .ok l') :
    l'.Exclusive := by
  unfold Lock.releaseWrite at given_back
  split at given_back
  · rename_i owner count writes
    split at given_back
    · cases given_back
      refine ⟨lock.readers_pos, fun owner' n writes' => ?_, fun owner' n writes' => ?_⟩
      · dsimp only at writes'
        split at writes'
        · cases writes'
        · rename_i more
          cases writes'
          exact Nat.one_le_iff_ne_zero.2 more
      · dsimp only at writes'
        split at writes'
        · cases writes'
        · cases writes'
          exact lock.writer_only owner count writes
    · cases given_back
  · cases given_back

end Exclusive

end ReadThrough.Lock
