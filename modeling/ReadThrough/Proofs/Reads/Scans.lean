import ReadThrough.Proofs.Reads.Windows

/-!
# Scans

When all positions are looked up in their order, a miss finds nothing cached on the side where the
scan goes and everything on the side where it comes from.  So its window reaches in the direction
of the scan only, and the next lookups are hits until the window is used up.  Nothing is ever
fetched twice, however small the cache.

* `Window.Tile`: windows that have no position in common and together all of a range.
* `Cache.scan` looks up positions one after the other; `Cache.Swept` is what that comes to.
* `Cache.scan_block` is one miss with the hits that follow.
* `Cache.scan_fetches_once` puts the blocks together, for a scan in either direction.
-/

namespace ReadThrough

variable {σ ι α : Type}

namespace Window

/-- The windows have no position in common, and together all from `first` up to, not including,
`last`. -/
structure Tile (ws : List Window) (first last : Nat) : Prop where
  inside : ∀ w ∈ ws, first ≤ w.start ∧ w.start ≤ w.stop ∧ w.stop ≤ last
  disjoint : ws.Pairwise fun w w' => w.stop ≤ w'.start ∨ w'.stop ≤ w.start
  cover : ∀ q, (∃ w ∈ ws, w.start ≤ q ∧ q < w.stop) ↔ first ≤ q ∧ q < last
  total : (ws.map length).sum = last - first

namespace Tile

variable {ws : List Window} {w : Window} {first last : Nat}

theorem nil (first : Nat) : Tile [] first first where
  inside _ mem := absurd mem List.not_mem_nil
  disjoint := .nil
  cover q := ⟨fun ⟨_, mem, _⟩ => absurd mem List.not_mem_nil, fun ⟨from_first, lt⟩ => by omega⟩
  total := (Nat.sub_self first).symm

/-- A window in front of the others. -/
theorem before (tile : Tile ws w.stop last) (order : w.start ≤ w.stop) (stop : w.stop ≤ last) :
    Tile (w :: ws) w.start last where
  inside w' mem := by
    rcases List.mem_cons.1 mem with rfl | mem
    · exact ⟨Nat.le_refl _, order, stop⟩
    · obtain ⟨after, order', stop'⟩ := tile.inside w' mem
      exact ⟨Nat.le_trans order after, order', stop'⟩
  disjoint := List.pairwise_cons.2
    ⟨fun w' mem => Or.inl (tile.inside w' mem).1, tile.disjoint⟩
  cover q := by
    have rest := tile.cover q
    rw [List.exists_mem_cons_iff fun v : Window => v.start ≤ q ∧ q < v.stop, rest]
    omega
  total := by
    rw [List.map_cons, List.sum_cons, tile.total, length]
    omega

/-- A window behind the others. -/
theorem behind (tile : Tile ws first w.start) (order : w.start ≤ w.stop) (start : first ≤ w.start) :
    Tile (w :: ws) first w.stop where
  inside w' mem := by
    rcases List.mem_cons.1 mem with rfl | mem
    · exact ⟨start, order, Nat.le_refl _⟩
    · obtain ⟨start', order', before⟩ := tile.inside w' mem
      exact ⟨start', order', Nat.le_trans before order⟩
  disjoint := List.pairwise_cons.2
    ⟨fun w' mem => Or.inr (tile.inside w' mem).2.2, tile.disjoint⟩
  cover q := by
    have rest := tile.cover q
    rw [List.exists_mem_cons_iff fun v : Window => v.start ≤ q ∧ q < v.stop, rest]
    omega
  total := by
    rw [List.map_cons, List.sum_cons, tile.total, length]
    omega

end Tile

/-! ## The window of a scan -/

variable {cached : Nat → Bool} {position size chunk : Nat}

/-- With all free ahead and the position before cached, the window reaches ahead only. -/
theorem around_of_free_ahead (inside : position < size)
    (free : ∀ q, position < q → cached q = false)
    (behind : position = 0 ∨ cached (position - 1) = true) :
    around cached position size chunk =
      ⟨position, min (position + ((chunk - 1) / 2 + 1)) size⟩ := by
  have start : (around cached position size chunk).start = position := by
    have le : (around cached position size chunk).start ≤ position := start_around_le
    rcases Nat.eq_or_lt_of_le le with eq | lt
    · exact eq
    · have missing : cached (position - 1) = false :=
        not_cached_reachBack (Nat.le_sub_one_of_lt lt) (by omega)
      rcases behind with rfl | covered
      · exact absurd lt (Nat.not_lt_zero _)
      · cases missing.symm.trans covered
  have stop : (around cached position size chunk).stop =
      min (position + ((chunk - 1) / 2 + 1)) size := by
    have near : (around cached position size chunk).stop ≤ position + 1 + (chunk - 1) / 2 :=
      reachForward_le_add
    have far : min (position + ((chunk - 1) / 2 + 1)) size ≤
        (around cached position size chunk).stop :=
      le_reachForward_of_free (Nat.min_le_right _ _) (by omega) fun q after _ => free q after
    have within : (around cached position size chunk).stop ≤ size := stop_around_le inside
    omega
  exact congrArg₂ mk start stop

/-- With all free behind and the position after cached, the window reaches back only. -/
theorem around_of_free_behind (inside : position < size)
    (free : ∀ q, q < position → cached q = false)
    (ahead : position + 1 = size ∨ cached (position + 1) = true) :
    around cached position size chunk = ⟨position - chunk / 2, position + 1⟩ := by
  have start : (around cached position size chunk).start = position - chunk / 2 := by
    have near : position ≤ (around cached position size chunk).start + chunk / 2 :=
      le_reachBack_add
    have far : (around cached position size chunk).start ≤ position - chunk / 2 :=
      reachBack_le_of_free (by omega) fun q _ lt => free q lt
    omega
  have stop : (around cached position size chunk).stop = position + 1 := by
    have le : position < (around cached position size chunk).stop := lt_stop_around
    rcases Nat.eq_or_lt_of_le le with eq | lt
    · exact eq.symm
    · have missing : cached (position + 1) = false :=
        not_cached_reachForward (Nat.le_refl (position + 1)) lt
      have within : (around cached position size chunk).stop ≤ size := stop_around_le inside
      rcases ahead with end_ | covered
      · omega
      · cases missing.symm.trans covered
  exact congrArg₂ mk start stop

end Window

/-- The source brings the objects of the shelf whenever it is asked, and each of them has an
identity of its own. -/
structure Source.Serves [DecidableEq ι] (src : Source σ ι α) (s : Shelf ι α) (inv : σ → Prop) :
    Prop where
  identified : s.Identified
  shows : src.Shows s inv
  reliable : src.Reliable (s.answers fun _ => False) inv fun _ => False

namespace Cache

variable [DecidableEq ι]

/-- Look up these positions, one after the other. -/
def scan (src : Source σ ι α) : List Nat → Cache ι α → σ → List (Except Fault α) × Cache ι α × σ
  | [], c, x => ([], c, x)
  | p :: ps, c, x =>
    let first := get src p c x
    let rest := scan src ps first.2.1 first.2.2
    (first.1 :: rest.1, rest.2)

theorem scan_append (src : Source σ ι α) (ps qs : List Nat) (c : Cache ι α) (x : σ) :
    scan src (ps ++ qs) c x =
      ((scan src ps c x).1 ++ (scan src qs (scan src ps c x).2.1 (scan src ps c x).2.2).1,
        (scan src qs (scan src ps c x).2.1 (scan src ps c x).2.2).2) := by
  induction ps generalizing c x with
  | nil => rfl
  | cons p ps ih =>
    rw [List.cons_append, scan, ih]
    rfl

@[simp] theorem scan_singleton (src : Source σ ι α) (p : Nat) (c : Cache ι α) (x : σ) :
    scan src [p] c x = ([(get src p c x).1], (get src p c x).2) := rfl

/-- The positions were looked up and `ws` fetched, one call for each of them. -/
structure Swept (s : Shelf ι α) (ps : List Nat) (ws : List Window) (before : Stats)
    (log : List (Call ι α)) (r : List (Except Fault α) × Cache ι α × σ × List (Call ι α)) :
    Prop where
  answers : r.1 = ps.map s.get
  calls : r.2.2.2 = (ws.map fun w => Call.range w.start w.length).reverse ++ log
  hits : r.2.1.stats.hits + ws.length = before.hits + ps.length
  misses : r.2.1.stats.misses = before.misses + ws.length
  fetches : r.2.1.stats.fetches = before.fetches + ws.length
  fetchedObjects : r.2.1.stats.fetchedObjects =
    before.fetchedObjects + (ws.map Window.length).sum

/-- The cache keeps what the shelf holds, and knows the size. -/
structure Steady (s : Shelf ι α) (inv : σ → Prop) (sizing : Sizing) (c : Cache ι α) (x : σ) :
    Prop where
  stocked : c.Stocked (s.answers fun _ => False)
  known : c.size? = some s.size
  sized : c.sizing = sizing
  inv : inv x

variable {src : Source σ ι α} {inv : σ → Prop} {sizing : Sizing} {s : Shelf ι α}
variable {c : Cache ι α} {y : σ × List (Call ι α)} {ps qs : List Nat} {ws ws' : List Window}
variable {position : Nat}

theorem Swept.append
    (first : Swept s ps ws c.stats y.2 (scan src.traced ps c y))
    (second : Swept s qs ws' (scan src.traced ps c y).2.1.stats (scan src.traced ps c y).2.2.2
      (scan src.traced qs (scan src.traced ps c y).2.1 (scan src.traced ps c y).2.2)) :
    Swept s (ps ++ qs) (ws ++ ws') c.stats y.2 (scan src.traced (ps ++ qs) c y) := by
  rw [scan_append]
  constructor
  · rw [first.answers, second.answers, List.map_append]
  · rw [second.calls, first.calls, List.map_append, List.reverse_append, List.append_assoc]
  · have hits := first.hits
    have hits' := second.hits
    rw [List.length_append, List.length_append]
    dsimp only
    omega
  · rw [second.misses, first.misses, List.length_append, Nat.add_assoc]
  · rw [second.fetches, first.fetches, List.length_append, Nat.add_assoc]
  · rw [second.fetchedObjects, first.fetchedObjects, List.map_append, List.sum_append,
      Nat.add_assoc]

/-! ## One lookup -/

theorem lookup_answer (serves : src.Serves s inv)
    (steady : Steady s (fun y => inv y.1) sizing c y) (position : Nat) :
    (get src.traced position c y).1 = s.get position :=
  query_eq serves.reliable.traced serves.shows.traced.truthful steady.stocked steady.inv
    (.get position)

/-- A lookup of a cached position is a hit, and the same positions are cached after it. -/
theorem lookup_hit (serves : src.Serves s inv)
    (steady : Steady s (fun y => inv y.1) sizing c y) (inside : position < s.size)
    (covered : c.coversPosition position = true) :
    let r := scan src.traced [position] c y
    Steady s (fun y => inv y.1) sizing r.2.1 r.2.2 ∧ Swept s [position] [] c.stats y.2 r ∧
      r.2.1.coversPosition = c.coversPosition := by
  obtain ⟨e, found⟩ := steady.stocked.table.covers_eq_true_iff.1 covered
  have answer := lookup_answer serves steady position
  have served := get_served serves.shows.traced.truthful steady.stocked steady.inv position
  have eq := get_of_cached steady.stocked.table steady.known inside found src.traced y
  have moved := reordered_perform_hit steady.stocked.table found
  rw [scan_singleton, answer, eq]
  rw [eq] at served
  refine ⟨⟨served.stocked, size?_touch.trans steady.known, served.sizing.trans steady.sized,
    served.inv⟩, ⟨rfl, rfl, ?_, ?_, ?_, ?_⟩, funext moved.covers⟩ <;>
  · dsimp only
    rw [stats_perform_hit]
    rfl

/-- A lookup of a position that is not cached fetches its window, and all of this is cached after
it, and nothing else that was not before. -/
theorem lookup_miss (serves : src.Serves s inv)
    (steady : Steady s (fun y => inv y.1) sizing c y) (inside : position < s.size)
    (missing : c.coversPosition position = false) :
    let r := scan src.traced [position] c y
    let w := c.missWindow position s.size
    Steady s (fun y => inv y.1) sizing r.2.1 r.2.2 ∧ Swept s [position] [w] c.stats y.2 r ∧
      (∀ q, w.start ≤ q → q < w.stop → r.2.1.coversPosition q = true) ∧
      ∀ q, q < w.start ∨ w.stop ≤ q → r.2.1.coversPosition q = true →
        c.coversPosition q = true := by
  intro r w
  have stocked := steady.stocked
  have answer := lookup_answer serves steady position
  have served := get_served serves.shows.traced.truthful stocked steady.inv position
  have told : (getSize src.traced c y).1 = .ok s.size :=
    congrArg Prod.fst (getSize_of_known steady.known)
  have here : s.get position = .ok s.items[position] := by
    rw [Shelf.get, List.getElem?_eq_getElem inside]
  obtain ⟨-, -, stop, fits, -⟩ : c.Fits s position w := fits_missWindow inside
  obtain ⟨state, misses, hits⟩ := get_of_missing stocked.table told inside missing
  rw [getSize_of_known steady.known] at state
  have windowed : Windowed s c position w (get src.traced position c y).2.1 :=
    windowed_get serves.identified serves.shows.traced stocked steady.inv told inside missing
      (answer.trans here)
  refine ⟨⟨served.stocked, windowed.size, served.sizing.trans steady.sized, served.inv⟩,
    ⟨congrArg ([·]) answer, congrArg Prod.snd state, congrArg (· + 1) hits, misses,
      windowed.fetches, windowed.fetchedObjects⟩, fun q from_start lt => ?_, windowed.outside⟩
  obtain ⟨e, kept⟩ := serves.identified.exists_entry? (Nat.lt_of_lt_of_le lt fits)
  have mem : q ∈ windowOrder position w :=
    mem_windowOrder_iff.2 (Or.inr ⟨from_start, Nat.lt_of_lt_of_eq lt stop.symm⟩)
  exact served.stocked.table.covers_eq_true_iff.2
    ⟨e, windowed.cached served.stocked.table mem kept⟩

/-! ## One block -/

/-- Lookups of cached positions are hits, and change nothing about what is cached. -/
theorem scan_hits (serves : src.Serves s inv)
    (steady : Steady s (fun y => inv y.1) sizing c y) (qs : List Nat)
    (covered : ∀ q ∈ qs, q < s.size ∧ c.coversPosition q = true) :
    let r := scan src.traced qs c y
    Steady s (fun y => inv y.1) sizing r.2.1 r.2.2 ∧ Swept s qs [] c.stats y.2 r ∧
      r.2.1.coversPosition = c.coversPosition := by
  induction qs generalizing c y with
  | nil => exact ⟨steady, ⟨rfl, rfl, rfl, rfl, rfl, rfl⟩, rfl⟩
  | cons q qs ih =>
    obtain ⟨inside, here⟩ := covered q List.mem_cons_self
    obtain ⟨steady₁, swept₁, same₁⟩ := lookup_hit serves steady inside here
    have covered₁ : ∀ p ∈ qs, p < s.size ∧
        (scan src.traced [q] c y).2.1.coversPosition p = true := by
      intro p mem
      rw [same₁]
      exact covered p (List.mem_cons_of_mem q mem)
    obtain ⟨steady₂, swept₂, same₂⟩ := ih steady₁ covered₁
    exact ⟨steady₂, swept₁.append swept₂, same₂.trans same₁⟩

/-- A miss, and the lookups of other positions of its window: that is one fetch.  All of the
window is cached afterwards, and nothing else that was not before. -/
theorem scan_block (serves : src.Serves s inv)
    (steady : Steady s (fun y => inv y.1) sizing c y) {w : Window}
    (window : c.missWindow position s.size = w) (inside : position < s.size)
    (missing : c.coversPosition position = false) (qs : List Nat)
    (others : ∀ q ∈ qs, w.start ≤ q ∧ q < w.stop) :
    let r := scan src.traced (position :: qs) c y
    Steady s (fun y => inv y.1) sizing r.2.1 r.2.2 ∧ Swept s (position :: qs) [w] c.stats y.2 r ∧
      (∀ q, w.start ≤ q → q < w.stop → r.2.1.coversPosition q = true) ∧
      ∀ q, q < w.start ∨ w.stop ≤ q → c.coversPosition q = false →
        r.2.1.coversPosition q = false := by
  obtain ⟨-, -, -, fits, -⟩ : c.Fits s position w := window ▸ fits_missWindow inside
  obtain ⟨steady₁, swept₁, all, only⟩ := lookup_miss serves steady inside missing
  rw [window] at swept₁ all only
  obtain ⟨steady₂, swept₂, same⟩ := scan_hits serves steady₁ qs fun q mem =>
    ⟨Nat.lt_of_lt_of_le (others q mem).2 fits, all q (others q mem).1 (others q mem).2⟩
  refine ⟨steady₂, swept₁.append swept₂, fun q from_start lt => ?_, fun q outside free => ?_⟩
  · exact (congrFun same q).trans (all q from_start lt)
  · refine (congrFun same q).trans (eq_false_of_ne_true fun covered => ?_)
    cases free.symm.trans (only q outside covered)

/-! ## Both directions -/

/-- One block less to go. -/
theorem blocks_succ {rest block : Nat} (more : 0 < rest) (pos : 0 < block) :
    (rest + block - 1) / block = (rest - block + block - 1) / block + 1 := by
  have last : rest + block - 1 = rest - 1 + block := by omega
  rw [last, Nat.add_div_right _ pos]
  rcases Nat.lt_or_ge rest block with short | long
  · rw [Nat.div_eq_of_lt (by omega), Nat.div_eq_of_lt (by omega)]
  · rw [Nat.sub_add_cancel long]

/-- The rest of a scan from the front. -/
theorem scan_ahead (serves : src.Serves s inv)
    (steady : Steady s (fun y => inv y.1) sizing c y) {rest : Nat}
    (total : position + rest = s.size)
    (free : ∀ q, position ≤ q → c.coversPosition q = false)
    (behind : position = 0 ∨ c.coversPosition (position - 1) = true) :
    let block := (sizing.chunk - 1) / 2 + 1
    ∃ ws, Window.Tile ws position s.size ∧ ws.length = (rest + block - 1) / block ∧
      Swept s (List.range' position rest) ws c.stats y.2
        (scan src.traced (List.range' position rest) c y) := by
  intro block
  have pos : 0 < block := Nat.succ_pos _
  induction rest using Nat.strong_induction_on generalizing position c y with
  | _ rest ih =>
    rcases Nat.eq_zero_or_pos rest with rfl | more
    · have none : (0 + block - 1) / block = 0 := Nat.div_eq_of_lt (by omega)
      exact ⟨[], total ▸ .nil position, none.symm, ⟨rfl, rfl, rfl, rfl, rfl, rfl⟩⟩
    · have inside : position < s.size := by omega
      obtain ⟨stop, stop_eq⟩ : ∃ stop, stop = min (position + block) s.size := ⟨_, rfl⟩
      obtain ⟨len, stop_len⟩ : ∃ len, stop = position + (len + 1) :=
        ⟨stop - position - 1, by omega⟩
      have window : c.missWindow position s.size = ⟨position, stop⟩ := by
        rw [missWindow, steady.sized, stop_eq]
        exact Window.around_of_free_ahead inside (fun q lt => free q (Nat.le_of_lt lt)) behind
      obtain ⟨steady₁, swept₁, all, only⟩ := scan_block serves steady window inside
        (free position (Nat.le_refl _)) (List.range' (position + 1) len) fun q mem => by
          obtain ⟨after, lt⟩ := List.mem_range'_1.1 mem
          exact ⟨Nat.le_of_succ_le after, show q < stop by omega⟩
      obtain ⟨ws, tile, count, swept₂⟩ := @ih (rest - (len + 1)) (by omega) _ _ stop steady₁
        (by omega) (fun q after => only q (Or.inr after) (free q (by omega)))
        (Or.inr (all (stop - 1) (show position ≤ stop - 1 by omega)
          (show stop - 1 < stop by omega)))
      have order : List.range' position rest =
          (position :: List.range' (position + 1) len) ++ List.range' stop (rest - (len + 1)) := by
        rw [← List.range'_succ, stop_len, List.range'_append_1, Nat.add_sub_cancel' (by omega)]
      have blocks : rest - (len + 1) = rest - block := by omega
      have tiled := Window.Tile.before (w := ⟨position, stop⟩) tile (show position ≤ stop by omega)
        (show stop ≤ s.size by omega)
      refine ⟨⟨position, stop⟩ :: ws, tiled, ?_, ?_⟩
      · rw [List.length_cons, count, blocks, ← blocks_succ more pos]
      · rw [order]
        exact swept₁.append swept₂

/-- The rest of a scan from the back. -/
theorem scan_back (serves : src.Serves s inv)
    (steady : Steady s (fun y => inv y.1) sizing c y) {rest : Nat} (within : rest ≤ s.size)
    (free : ∀ q, q < rest → c.coversPosition q = false)
    (ahead : rest = s.size ∨ c.coversPosition rest = true) :
    let block := sizing.chunk / 2 + 1
    ∃ ws, Window.Tile ws 0 rest ∧ ws.length = (rest + block - 1) / block ∧
      Swept s (List.range rest).reverse ws c.stats y.2
        (scan src.traced (List.range rest).reverse c y) := by
  intro block
  have pos : 0 < block := Nat.succ_pos _
  induction rest using Nat.strong_induction_on generalizing c y with
  | _ rest ih =>
    rcases Nat.eq_zero_or_pos rest with rfl | more
    · have none : (0 + block - 1) / block = 0 := Nat.div_eq_of_lt (by omega)
      exact ⟨[], .nil 0, none.symm, ⟨rfl, rfl, rfl, rfl, rfl, rfl⟩⟩
    · obtain ⟨position, rfl⟩ : ∃ position, rest = position + 1 := ⟨rest - 1, by omega⟩
      obtain ⟨start, start_eq⟩ : ∃ start, start = position - sizing.chunk / 2 := ⟨_, rfl⟩
      have window : c.missWindow position s.size = ⟨start, position + 1⟩ := by
        rw [missWindow, steady.sized, start_eq]
        exact Window.around_of_free_behind within
          (fun q lt => free q (Nat.lt_succ_of_lt lt)) ahead
      obtain ⟨steady₁, swept₁, all, only⟩ := scan_block serves steady window within
        (free position (Nat.lt_succ_self _)) (List.range' start (position - start)).reverse
        fun q mem => by
          obtain ⟨from_start, lt⟩ := List.mem_range'_1.1 (List.mem_reverse.1 mem)
          exact ⟨from_start, show q < position + 1 by omega⟩
      obtain ⟨ws, tile, count, swept₂⟩ := ih start (by omega) steady₁ (by omega)
        (fun q lt => only q (Or.inl lt) (free q (by omega)))
        (Or.inr (all start (Nat.le_refl _) (show start < position + 1 by omega)))
      have order : (List.range (position + 1)).reverse =
          (position :: (List.range' start (position - start)).reverse) ++
            (List.range start).reverse := by
        have split : List.range position =
            List.range start ++ List.range' start (position - start) := by
          have append := @List.range'_append_1 0 start (position - start)
          rw [Nat.zero_add, Nat.add_sub_cancel' (by omega)] at append
          rw [List.range_eq_range', List.range_eq_range', append]
        rw [List.range_succ, List.reverse_append, split, List.reverse_append]
        rfl
      have blocks : start = position + 1 - block := by omega
      have tiled := Window.Tile.behind (w := ⟨start, position + 1⟩) tile
        (show start ≤ position + 1 by omega) (Nat.zero_le _)
      refine ⟨⟨start, position + 1⟩ :: ws, tiled, ?_, ?_⟩
      · rw [List.length_cons, count, blocks, ← blocks_succ more pos]
      · rw [order]
        exact swept₁.append swept₂

/-! ## From the start -/

/-- Whether the size is asked for before a lookup or by it makes no difference. -/
theorem get_getSize {src : Source σ ι α} {x : σ} {size : Nat}
    (told : (getSize src c x).1 = .ok size) (position : Nat) :
    get src position (getSize src c x).2.1 (getSize src c x).2.2 = get src position c x := by
  have known := size?_getSize told
  unfold get
  rw [getSize_of_known known]
  rcases sized : getSize src c x with ⟨_ | size', c₁, x₁⟩
  · rw [sized] at told
    cases told
  · rw [sized] at told
    cases told
    rfl

theorem scan_getSize {src : Source σ ι α} {x : σ} {size : Nat}
    (told : (getSize src c x).1 = .ok size) (some : ps ≠ []) :
    scan src ps (getSize src c x).2.1 (getSize src c x).2.2 = scan src ps c x := by
  cases ps with
  | nil => exact absurd rfl some
  | cons p ps => rw [scan, scan, get_getSize told]

theorem coversPosition_of_isEmpty (wf : c.table.WellFormed) (empty : c.isEmpty = true)
    (q : Nat) : c.coversPosition q = false := by
  refine eq_false_of_ne_true fun covered => ?_
  obtain ⟨e, found⟩ := wf.covers_eq_true_iff.1 covered
  have none : c.table.entries.length = 0 := wf.size_eq ▸ of_decide_eq_true empty
  have mem := (wf.entryAt?_eq_some_iff.1 found).1
  rw [List.length_eq_zero_iff.1 none] at mem
  cases mem

/-- A scan in this order answers like the shelf.  Its fetches are no more than so many blocks
need, they have no position in common, and together they bring every object. -/
def FetchesOnce (src : Source σ ι α) (s : Shelf ι α) (block : Nat) (order : List Nat)
    (c : Cache ι α) (x : σ) (log : List (Call ι α)) : Prop :=
  let r := scan src.traced order c (x, log)
  let asked := if s.size = 0 ∨ c.size?.isSome = true then log else .size :: log
  ∃ ws, Window.Tile ws 0 s.size ∧ ws.length = (s.size + block - 1) / block ∧
    Swept s order ws c.stats asked r ∧
    r.2.1.stats.fetchedObjects = c.stats.fetchedObjects + s.size

/-- **A scan fetches every object exactly once.**  From an empty cache, over a source that brings
the objects of the shelf whenever it is asked, each under an identity of its own, a scan in
either direction is answered like the shelf.  It comes to one fetch for each block of as many
objects as the window of a miss has in this direction, however small the cache is. -/
theorem scan_fetches_once {x : σ} (reachable : Reachable sizing c) (empty : c.isEmpty = true)
    (coherent : c.Coherent s) (serves : src.Serves s inv) (hx : inv x) (log : List (Call ι α)) :
    FetchesOnce src s ((sizing.chunk - 1) / 2 + 1) (List.range s.size) c x log ∧
      FetchesOnce src s (sizing.chunk / 2 + 1) (List.range s.size).reverse c x log := by
  have stocked := coherent.stocked reachable
  have sized := getSize_served serves.shows.traced.truthful stocked (s := (x, log)) hx
  have told : (getSize src.traced c (x, log)).1 = .ok s.size := by
    cases told : (getSize src.traced c (x, log)).1 with
    | error e => exact (getSize_error serves.reliable.traced (s := (x, log)) hx told).elim
    | ok size => rw [Shelf.answers_nothing_size.1 (sized.answer size told)]
  have steady : Steady s (fun y => inv y.1) sizing (getSize src.traced c (x, log)).2.1
      (getSize src.traced c (x, log)).2.2 :=
    ⟨sized.stocked, size?_getSize told, sized.sizing.trans reachable.stocked.2, sized.inv⟩
  have free : ∀ q, (getSize src.traced c (x, log)).2.1.coversPosition q = false := fun q => by
    rw [coversPosition_getSize]
    exact coversPosition_of_isEmpty stocked.table empty q
  have calls := (getSize_traced src c x log).2
  -- both scans start by asking for the size, if there is anything to look up
  have start : ∀ {share : Nat} {order : List Nat}, order.length = s.size →
      (∃ ws, Window.Tile ws 0 s.size ∧ ws.length = (s.size + (share + 1) - 1) / (share + 1) ∧
        Swept s order ws (getSize src.traced c (x, log)).2.1.stats
          (getSize src.traced c (x, log)).2.2.2 (scan src.traced order
            (getSize src.traced c (x, log)).2.1 (getSize src.traced c (x, log)).2.2)) →
      FetchesOnce src s (share + 1) order c x log := by
    rintro share order length ⟨ws, tile, count, swept⟩
    by_cases none : s.size = 0
    · rw [none, List.length_eq_zero_iff] at length
      subst length
      have blocks : (0 + (share + 1) - 1) / (share + 1) = 0 := Nat.div_eq_of_lt (by omega)
      rw [FetchesOnce, none, if_pos (Or.inl rfl), blocks]
      exact ⟨[], .nil 0, rfl, ⟨rfl, rfl, rfl, rfl, rfl, rfl⟩, rfl⟩
    · have some : order ≠ [] := fun nil => none (by rw [← length, nil]; rfl)
      have asked : (getSize src.traced c (x, log)).2.2.2 =
          if s.size = 0 ∨ c.size?.isSome = true then log else .size :: log :=
        calls.trans (if_congr (or_iff_right none).symm rfl rfl)
      rw [scan_getSize told some, asked, stats_getSize] at swept
      refine ⟨ws, tile, count, swept, ?_⟩
      rw [swept.fetchedObjects, tile.total, Nat.sub_zero]
  refine ⟨start List.length_range ?_, start (by rw [List.length_reverse, List.length_range]) ?_⟩
  · obtain ⟨ws, tile, count, swept⟩ := scan_ahead serves steady (Nat.zero_add s.size)
      (fun q _ => free q) (Or.inl rfl)
    rw [← List.range_eq_range'] at swept
    exact ⟨ws, tile, count, swept⟩
  · exact scan_back serves steady (Nat.le_refl s.size) (fun q _ => free q) (Or.inl rfl)

/-- Seven objects through a cache for four: in blocks of two from the front, and of three from
the back. -/
theorem scan_fetches_once_seven :
    let s : Shelf Nat Nat := ⟨[10, 11, 12, 13, 14, 15, 16], some⟩
    let c : Cache Nat Nat := empty ⟨4, 4, by decide, by decide⟩
    FetchesOnce Shelf.source s 2 [0, 1, 2, 3, 4, 5, 6] c s [] ∧
      FetchesOnce Shelf.source s 3 [6, 5, 4, 3, 2, 1, 0] c s [] := by
  intro s c
  have identified : s.Identified := ⟨by decide, by decide⟩
  have serves : Shelf.source.Serves s fun t => t = s :=
    ⟨identified, Shelf.shows identified.distinct, Shelf.reliable ⟨identified.distinct, by decide⟩⟩
  exact scan_fetches_once (x := s) (c := c) .empty (by decide) (by decide) serves rfl []

end Cache

end ReadThrough
