import ReadThrough.Proofs.Cache.Phrases
import ReadThrough.Proofs.Tower.Misses
import ReadThrough.Proofs.Words.Arithmetic

/-!
# Reads within words

Reads compute with positions and lengths: the ends of a window, the position of each fetched
object, what is left of a range.  Here they do so with sums and differences that may be refused.
If the size that was told fits into a word, then none of them is, and the reads are the same.

* `Cache.get?` and `Cache.getRange?` are the reads, and `Table.removePositions?` drops a range.
* `Cache.get?_eq`, `Cache.getRange?_eq`, `Table.removePositions?_eq`: nothing is refused.
-/

namespace ReadThrough

variable {σ ι α : Type} [DecidableEq ι]

/-! ## Dropping a range -/

namespace Table

/-- Remove the entries whose position lies from `first` to `last`, and count them. -/
def removePositions? (t : Table ι α) (first last : Nat) : Option (Nat × Table ι α) := do
  let doomed ←
    if span first last ≤ t.positions.size then
      (upTo? last (last - first) first).map (List.filterMap t.atPosition?)
    else some (t.scanRange first last)
  some (t.removeAll doomed)

theorem removePositions?_eq (t : Table ι α) {last : Nat} (fits : last < wordLimit) (first : Nat) :
    t.removePositions? first last = some (t.removePositions first last) := by
  rw [removePositions?, upTo?_eq fits, removePositions]
  split <;> rfl

end Table

namespace Cache

variable {src : Source σ ι α} {c : Cache ι α} {s : σ} {position start length size : Nat}

/-! ## Single objects -/

/-- The window to fetch for a miss at `position`. -/
def missWindow? (c : Cache ι α) (position size : Nat) : Option Window :=
  Window.around? c.coversPosition position size c.sizing.chunk

/-- Store the fetched objects, each for its position. -/
def keepPlaced (identify : α → Option ι) (c : Cache ι α) (placed : List (α × Nat)) : Cache ι α :=
  placed.foldl (fun c p => c.keep identify p.1 p.2) c

/-- Serve a position that is not cached. -/
def getMissing? (src : Source σ ι α) (position size : Nat) (c : Cache ι α) (s : σ) :
    Option (Except Fault α × Cache ι α × σ) := do
  let w ← c.missWindow? position size
  let length ← checkedSub? w.stop w.start
  match fetchRange src w.start length (c.count (·.miss 1)) s with
  | (.error e, c, s) => some (.error e, c, s)
  | (.ok values, c, s) => do
    let placed ← positioned? w.start 0 values
    let identify := src.identify s
    let requested? := (placed.find? fun p => p.2 = position).map Prod.fst
    let (answer, c) := (c.keepPlaced identify placed).answerFetched identify position requested?
    some (answer, c, s)

/-- The object at `position`. -/
def get? (src : Source σ ι α) (position : Nat) (c : Cache ι α) (s : σ) :
    Option (Except Fault α × Cache ι α × σ) :=
  match getSize src c s with
  | (.error e, c, s) => some (.error e, c, s)
  | (.ok size, c, s) =>
    match guardPosition position size with
    | .error e => some (.error e, c, s)
    | .ok () =>
      match c.table.atPosition? position with
      | some h =>
        let (answer, c) := c.hit h
        some (answer, c, s)
      | none => getMissing? src position size c s

omit [DecidableEq ι] in
theorem missWindow?_eq (inside : position < size) (fits : size < wordLimit) :
    c.missWindow? position size = some (c.missWindow position size) :=
  Window.around?_eq inside fits

theorem keepPlaced_zipIdx (identify : α → Option ι) (c : Cache ι α) (start : Nat) (vs : List α) :
    c.keepPlaced identify (vs.zipIdx start) = c.keepAll identify start vs := by
  induction vs generalizing c start with
  | nil => rfl
  | cons v vs ih => exact ih (c.keep identify v start) (start + 1)

theorem getMissing?_eq (inside : position < size) (fits : size < wordLimit) :
    getMissing? src position size c s = some (getMissing src position size c s) := by
  have first : (c.missWindow position size).start ≤ position := Window.start_around_le
  have last : position < (c.missWindow position size).stop := Window.lt_stop_around
  have stop : (c.missWindow position size).stop ≤ size := Window.stop_around_le inside
  have length : checkedSub? (c.missWindow position size).stop (c.missWindow position size).start =
      some (c.missWindow position size).length := checkedSub?_eq (by omega)
  rw [getMissing?, missWindow?_eq inside fits]
  dsimp only [Option.bind_eq_bind, Option.bind_some]
  rw [length]
  dsimp only [Option.bind_some]
  unfold getMissing
  dsimp only
  rcases fetched : fetchRange src (c.missWindow position size).start
    (c.missWindow position size).length (c.count (·.miss 1)) s with ⟨e | values, c', s'⟩
  · rfl
  · obtain ⟨-, whole, -⟩ := fetchRange_of_ok fetched
    rw [Window.length] at whole
    dsimp only
    rw [positioned?_eq (by omega)]
    dsimp only [Option.bind_some]
    rw [keepPlaced_zipIdx, find?_zipIdx values (by omega)]
    rfl

theorem get?_eq (sized : ∀ size, (getSize src c s).1 = .ok size → size < wordLimit)
    (position : Nat) : get? src position c s = some (get src position c s) := by
  unfold get? get
  rcases told : getSize src c s with ⟨_ | size, c₁, s₁⟩
  · rfl
  · rw [told] at sized
    dsimp only
    rcases guard : guardPosition position size with _ | _
    · rfl
    · dsimp only
      cases c₁.table.atPosition? position with
      | some h => rfl
      | none => exact getMissing?_eq (guardPosition_eq_ok_iff.1 guard) (sized size rfl)

/-! ## Ranges -/

/-- Serve the cached objects from `cursor` on and before `stop`, so many at most; also says where
they end. -/
def serveUpTo? (stop : Nat) :
    Nat → Nat → Cache ι α → Option (Except Fault (List α × Nat) × Cache ι α)
  | 0, cursor, c => if cursor < stop then none else some (.ok ([], cursor), c)
  | steps + 1, cursor, c =>
    if cursor < stop then
      match c.table.atPosition? cursor with
      | none => some (.ok ([], cursor), c)
      | some h =>
        match c.hit h with
        | (.error e, c) => some (.error e, c)
        | (.ok v, c) => do
          match ← serveUpTo? stop steps (← checkedAdd? cursor 1) c with
          | (.error e, c) => some (.error e, c)
          | (.ok (vs, cursor), c) => some (.ok (v :: vs, cursor), c)
    else some (.ok ([], cursor), c)

/-- The objects at `length` positions from `start` on. -/
def getRange? (src : Source σ ι α) (start length : Nat) (c : Cache ι α) (s : σ) :
    Option (Except Fault (List α) × Cache ι α × σ) :=
  match getSize src c s with
  | (.error e, c, s) => some (.error e, c, s)
  | (.ok size, c, s) =>
    match guardRange start length size with
    | .error e => some (.error e, c, s)
    | .ok () => do
      let stop ← checkedAdd? start length
      match ← serveUpTo? stop length start c with
      | (.error e, c) => some (.error e, c, s)
      | (.ok (served, cursor), c) =>
        if cursor = stop then some (.ok served, c, s)
        else do
          let missing ← checkedSub? stop cursor
          match fetchRange src cursor missing (c.count (·.miss missing)) s with
          | (.error e, c, s) => some (.error e, c, s)
          | (.ok values, c, s) => do
            let placed ← positioned? cursor 0 values
            some (.ok (served ++ values), c.keepPlaced (src.identify s) placed, s)

omit [DecidableEq ι] in
theorem serveUpTo?_eq (fits : start + length < wordLimit) :
    serveUpTo? (start + length) length start c =
      some ((serveRun length start c).1.map fun vs => (vs, start + vs.length),
        (serveRun length start c).2) := by
  induction length generalizing start c with
  | zero => exact if_neg (Nat.lt_irrefl start)
  | succ length ih =>
    have next : checkedAdd? start 1 = some (start + 1) := checkedAdd?_eq (by omega)
    have stop : start + (length + 1) = start + 1 + length := by omega
    unfold serveUpTo? serveRun
    rw [if_pos (by omega)]
    cases c.table.atPosition? start with
    | none => rfl
    | some h =>
      dsimp only
      rcases c.hit h with ⟨e | v, c'⟩
      · rfl
      · have rest : serveUpTo? (start + 1 + length) length (start + 1) c' = _ := ih (by omega)
        dsimp only
        rw [next, stop]
        dsimp only [Option.bind_eq_bind, Option.bind_some]
        rw [rest]
        rcases serveRun length (start + 1) c' with ⟨e | vs, c''⟩
        · rfl
        · have ends : start + (v :: vs).length = start + 1 + vs.length := by
            rw [List.length_cons]
            omega
          dsimp only [Option.bind_some, Except.map]
          rw [ends]

/-- Whatever size is told, a range that passes the check against it fits. -/
theorem getRange?_eq (wf : c.table.WellFormed) (src : Source σ ι α) (start length : Nat) (s : σ) :
    getRange? src start length c s = some (getRange src start length c s) := by
  have same := table_getSize src c s
  unfold getRange? getRange
  rcases told : getSize src c s with ⟨_ | size, c₁, s₁⟩
  · rfl
  · rw [told] at same
    have wf₁ : c₁.table.WellFormed := same ▸ wf
    dsimp only
    rcases guard : guardRange start length size with _ | _
    · rfl
    · obtain ⟨fits, -⟩ := guardRange_eq_ok_iff.1 guard
      obtain ⟨served, ran, count⟩ := serveRun_eq wf₁ length start
      have few := length_serveActs_le (c := c₁) length start
      rw [← count] at few
      dsimp only
      rw [checkedAdd?_eq fits]
      dsimp only [Option.bind_eq_bind, Option.bind_some]
      rw [serveUpTo?_eq fits, ran]
      dsimp only [Option.bind_some, Except.map]
      by_cases whole : served.length = length
      · rw [if_pos (congrArg (start + ·) whole), if_pos whole]
      · have missing : checkedSub? (start + length) (start + served.length) =
            some (length - served.length) := by
          rw [checkedSub?_eq (by omega), Nat.add_sub_add_left]
        rw [if_neg (by omega), if_neg whole, missing]
        dsimp only [Option.bind_some]
        unfold getRest
        rcases fetched : fetchRange src (start + served.length) (length - served.length) _ s₁ with
          ⟨e | values, c₂, s₂⟩
        · rfl
        · obtain ⟨-, brought, -⟩ := fetchRange_of_ok fetched
          dsimp only
          rw [positioned?_eq (by omega)]
          dsimp only [Option.bind_some]
          rw [keepPlaced_zipIdx]
          rfl

end Cache

end ReadThrough
