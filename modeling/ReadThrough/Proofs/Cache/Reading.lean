import ReadThrough.Cache.Read
import ReadThrough.Proofs.Cache.Storing
import ReadThrough.Proofs.Cache.Window

/-!
# What reads give

A cache over a source whose answers count as right gives right answers itself and
keeps nothing else, whether a read succeeds or fails.

* `Query` are the four reads of a source as data; `Cache.query` carries one out
  through a cache.
* `Cache.query_served`: the answer of a read is right, and the cache stays
  `Stocked`.
* `Source.Truthful.through`: a cache over a truthful source is one again.
-/

namespace ReadThrough

/-- A read of a source. -/
inductive Query (ι : Type) : Type where
  | size
  | get (position : Nat)
  | range (start length : Nat)
  | byId (id : ι)

/-- What a read asks for. -/
def Query.Result {ι : Type} (α : Type) : Query ι → Type
  | .size => Nat
  | .get _ => α
  | .range _ _ => List α
  | .byId _ => Option α

/-- The answers to a read that count as right.  A range must also have been found
to lie within a size that does. -/
def Query.Right {ι α : Type} (right : Answers ι α) : (q : Query ι) → q.Result α → Prop
  | .size => right.size
  | .get position => right.item position
  | .range start length => fun vs => vs.length = length ∧ right.run start vs ∧
      ∃ n, right.size n ∧ guardRange start length n = .ok ()
  | .byId id => right.named id

namespace Cache

variable {σ ι α β : Type} [DecidableEq ι]

/-- Carry out a read. -/
def query (src : Source σ ι α) :
    (q : Query ι) → Cache ι α → σ → Except Fault (q.Result α) × Cache ι α × σ
  | .size => getSize src
  | .get position => get src position
  | .range start length => getRange src start length
  | .byId id => getById src id

/-- A step of a read from `c`: the invariants stay, and an answer that is no fault is
as `ok` says. -/
structure Served (right : Answers ι α) (inv : σ → Prop) (c : Cache ι α) (ok : β → Prop)
    (r : Except Fault β × Cache ι α × σ) : Prop where
  inv : inv r.2.2
  stocked : r.2.1.Stocked right
  sizing : r.2.1.sizing = c.sizing
  answer : ∀ b, r.1 = .ok b → ok b

variable {src : Source σ ι α} {right : Answers ι α} {inv : σ → Prop}
variable {c c' : Cache ι α} {s s' : σ} {ok : β → Prop}

theorem Served.failed (hs : inv s) (stocked : c'.Stocked right) (sizing : c'.sizing = c.sizing)
    {e : Fault} : Served right inv c ok (.error e, c', s) :=
  ⟨hs, stocked, sizing, fun _ eq => by cases eq⟩

theorem Served.done (hs : inv s) (stocked : c'.Stocked right) (sizing : c'.sizing = c.sizing)
    {b : β} (fine : ok b) : Served right inv c ok (.ok b, c', s) :=
  ⟨hs, stocked, sizing, fun _ eq => Except.ok.inj eq ▸ fine⟩

theorem getSize_served (truthful : src.Truthful right inv) (stocked : c.Stocked right)
    (hs : inv s) : Served right inv c right.size (getSize src c s) := by
  obtain ⟨inv', told⟩ := truthful.size s hs
  unfold getSize
  split
  · rename_i size known
    exact .done hs stocked rfl (stocked.size size known)
  · split
    · rename_i size s' asked
      rw [asked] at inv' told
      have fine : right.size size := told size rfl
      have learnt : { c with size? := some size }.Stocked right :=
        ⟨stocked.table, stocked.fits, stocked.entries, fun n eq => Option.some.inj eq ▸ fine⟩
      exact .done (c := c) inv' learnt rfl fine
    · rename_i e s' asked
      rw [asked] at inv'
      exact .failed inv' stocked rfl

theorem fetchRange_served (truthful : src.Truthful right inv) (stocked : c.Stocked right)
    (hs : inv s) (start length : Nat) :
    Served right inv c (fun vs => vs.length = length ∧ right.run start vs)
      (fetchRange src start length c s) := by
  obtain ⟨inv', brought⟩ := truthful.range start length s hs
  unfold fetchRange
  split
  · rename_i e s' asked
    rw [asked] at inv'
    exact .failed inv' stocked rfl
  · rename_i values s' asked
    rw [asked] at inv' brought
    have counted := stocked.count (·.fetch values.length)
    dsimp only
    split
    · rename_i whole
      exact .done (c := c) inv' counted rfl (And.intro whole (brought values rfl whole))
    · exact .failed (c := c) inv' counted rfl

/-! ## One object -/

theorem answerFetched_served (stocked : c.Stocked right) (hs : inv s) (identify : α → Option ι)
    {position : Nat} {fetched? : Option α}
    (item : ∀ v, fetched? = some v → right.item position v) :
    Served right inv c (right.item position)
      ((c.answerFetched identify position fetched?).1,
        (c.answerFetched identify position fetched?).2, s) := by
  unfold answerFetched
  split
  · rename_i h found
    obtain ⟨e, here, at_e⟩ := stocked.table.exists_of_atPosition? found
    simp only [stocked.table.entry?_promote here]
    have entry := stocked.entries e (stocked.table.mem_of_entry? here)
    exact .done (c := c) hs (stocked.promote here) rfl (entry.2 position at_e)
  · split
    · rename_i v
      split
      · exact .done hs stocked rfl (item v rfl)
      · exact .failed hs stocked rfl
    · exact .failed hs stocked rfl

theorem getMissing_served (truthful : src.Truthful right inv) (stocked : c.Stocked right)
    (hs : inv s) (position size : Nat) :
    Served right inv c (right.item position) (getMissing src position size c s) := by
  have window : (c.missWindow position size).start ≤ position := Window.start_around_le
  have served := fetchRange_served truthful (stocked.count (·.miss 1)) hs
    (c.missWindow position size).start (c.missWindow position size).length
  unfold getMissing
  dsimp only
  split
  · rename_i e c' s' fetch
    rw [fetch] at served
    exact .failed (c := c) served.inv served.stocked served.sizing
  · rename_i values c' s' fetch
    rw [fetch] at served
    obtain ⟨-, run⟩ := served.answer values rfl
    have kept := served.stocked.keepAll (truthful.identify s' served.inv) run
    have item : ∀ v, values[position - (c.missWindow position size).start]? = some v →
        right.item position v := by
      intro v at_v
      have item := run _ v at_v
      rwa [Nat.add_sub_cancel' window] at item
    have answered := answerFetched_served kept served.inv (src.identify s') item
    exact ⟨answered.inv, answered.stocked,
      answered.sizing.trans (keepAll_sizing.trans served.sizing), answered.answer⟩

theorem get_served (truthful : src.Truthful right inv) (stocked : c.Stocked right)
    (hs : inv s) (position : Nat) :
    Served right inv c (right.item position) (get src position c s) := by
  have sized := getSize_served truthful stocked hs
  unfold get
  split
  · rename_i e c' s' told
    rw [told] at sized
    exact .failed sized.inv sized.stocked sized.sizing
  · rename_i size c' s' told
    rw [told] at sized
    have stocked' : c'.Stocked right := sized.stocked
    split
    · exact .failed sized.inv stocked' sized.sizing
    · split
      · rename_i h found
        obtain ⟨e, here, at_e⟩ := stocked'.table.exists_of_atPosition? found
        have entry := stocked'.entries e (stocked'.table.mem_of_entry? here)
        have hit := stocked'.hit here
        rw [hit_eq stocked'.table here] at hit ⊢
        exact .done (c := c) sized.inv hit sized.sizing (entry.2 position at_e)
      · have missed := getMissing_served truthful stocked' sized.inv position size
        exact ⟨missed.inv, missed.stocked, missed.sizing.trans sized.sizing, missed.answer⟩

theorem getById_served (truthful : src.Truthful right inv) (stocked : c.Stocked right)
    (hs : inv s) (id : ι) : Served right inv c (right.named id) (getById src id c s) := by
  unfold getById
  split
  · rename_i h found
    obtain ⟨e, here, rfl⟩ := stocked.table.exists_of_ofId? found
    have entry := stocked.entries e (stocked.table.mem_of_entry? here)
    have hit := stocked.hit here
    rw [hit_eq stocked.table here] at hit ⊢
    exact .done (c := c) hs hit rfl entry.1
  · rename_i absent
    obtain ⟨inv', told⟩ := truthful.byId id s hs
    have missed := stocked.count (·.miss 1)
    dsimp only
    split
    · rename_i e s' asked
      rw [asked] at inv'
      exact .failed (c := c) inv' missed rfl
    · rename_i s' asked
      rw [asked] at inv' told
      exact .done (c := c) inv' (missed.count (·.fetch 0)) rfl (told none rfl)
    · rename_i v s' asked
      rw [asked] at inv' told
      have placed : (((c.count (·.miss 1)).count (·.fetch 1)).place id v none).Stocked right :=
        (missed.count (·.fetch 1)).placeNew absent (told (some v) rfl)
      exact .done (c := c) inv' placed place_sizing (told (some v) rfl)

/-! ## A range -/

/-- The cached objects at the start of a run are served without fail. -/
theorem serveRun_spec (stocked : c.Stocked right) (length start : Nat) :
    (serveRun length start c).2.Stocked right ∧
      (serveRun length start c).2.sizing = c.sizing ∧
      ∃ vs, (serveRun length start c).1 = .ok vs ∧ vs.length ≤ length ∧ right.run start vs := by
  induction length generalizing start c with
  | zero => exact ⟨stocked, rfl, [], rfl, Nat.le_refl _, Answers.run_nil⟩
  | succ length ih =>
    unfold serveRun
    split
    · exact ⟨stocked, rfl, [], rfl, Nat.zero_le _, Answers.run_nil⟩
    · rename_i h found
      obtain ⟨e, here, at_e⟩ := stocked.table.exists_of_atPosition? found
      have entry := stocked.entries e (stocked.table.mem_of_entry? here)
      have hit := stocked.hit here
      rw [hit_eq stocked.table here] at hit ⊢
      obtain ⟨rest, sizing, vs, served, le, run⟩ := ih hit (start + 1)
      dsimp only at rest served ⊢
      split
      · rename_i e' c' failed
        rw [failed] at served
        cases served
      · rename_i ws c' ran
        rw [ran] at served rest sizing
        cases served
        exact ⟨rest, sizing, _, rfl, Nat.succ_le_succ le,
          Answers.run_cons.2 ⟨entry.2 start at_e, run⟩⟩

theorem getRest_served (truthful : src.Truthful right inv) (stocked : c.Stocked right)
    (hs : inv s) (start length : Nat) :
    Served right inv c (fun vs => vs.length = length ∧ right.run start vs)
      (getRest src start length c s) := by
  have served := fetchRange_served truthful (stocked.count (·.miss length)) hs start length
  unfold getRest
  split
  · rename_i e c' s' fetch
    rw [fetch] at served
    exact .failed (c := c) served.inv served.stocked served.sizing
  · rename_i values c' s' fetch
    rw [fetch] at served
    have brought := served.answer values rfl
    have kept := served.stocked.keepAll (truthful.identify s' served.inv) brought.2
    exact .done (c := c) served.inv kept (keepAll_sizing.trans served.sizing) brought

theorem getRange_served (truthful : src.Truthful right inv) (stocked : c.Stocked right)
    (hs : inv s) (start length : Nat) :
    Served right inv c ((Query.range start length).Right right)
      (getRange src start length c s) := by
  have sized := getSize_served truthful stocked hs
  unfold getRange
  split
  · rename_i e c' s' told
    rw [told] at sized
    exact .failed sized.inv sized.stocked sized.sizing
  · rename_i size c' s' told
    rw [told] at sized
    have stocked' : c'.Stocked right := sized.stocked
    have known : right.size size := sized.answer size rfl
    split
    · exact .failed sized.inv stocked' sized.sizing
    · rename_i within
      obtain ⟨rest, sizing, vs, ran, le, run⟩ := serveRun_spec stocked' length start
      split
      · rename_i e c'' failed
        rw [failed] at ran
        cases ran
      · rename_i served c'' eq
        rw [eq] at ran rest sizing
        cases ran
        have sizing' : c''.sizing = c.sizing := sizing.trans sized.sizing
        split
        · rename_i whole
          exact .done (c := c) sized.inv rest sizing' ⟨whole, run, size, known, within⟩
        · have fetched := getRest_served truthful rest sized.inv (start + vs.length)
            (length - vs.length)
          split
          · rename_i e c₃ s₃ missed
            rw [missed] at fetched
            exact .failed (c := c) fetched.inv fetched.stocked (fetched.sizing.trans sizing')
          · rename_i values c₃ s₃ brought
            rw [brought] at fetched
            obtain ⟨count, run'⟩ := fetched.answer values rfl
            refine .done (c := c) fetched.inv fetched.stocked (fetched.sizing.trans sizing')
              ⟨?_, Answers.run_append run run', size, known, within⟩
            rw [List.length_append, count]
            omega

/-! ## All reads -/

/-- Reads answer right and keep only right answers. -/
theorem query_served (truthful : src.Truthful right inv) (stocked : c.Stocked right)
    (hs : inv s) (q : Query ι) : Served right inv c (q.Right right) (query src q c s) := by
  cases q with
  | size => exact getSize_served truthful stocked hs
  | get position => exact get_served truthful stocked hs position
  | range start length => exact getRange_served truthful stocked hs start length
  | byId id => exact getById_served truthful stocked hs id

end Cache

/-- A cache over a truthful source is truthful. -/
theorem Source.Truthful.through {σ ι α : Type} [DecidableEq ι] {src : Source σ ι α}
    {right : Answers ι α} {inv : σ → Prop} (truthful : src.Truthful right inv) :
    src.through.Truthful right fun p => p.1.Stocked right ∧ inv p.2 where
  size p hp := by
    have served := Cache.getSize_served truthful hp.1 hp.2
    exact ⟨⟨served.stocked, served.inv⟩, served.answer⟩
  range start length p hp := by
    have served := Cache.getRange_served truthful hp.1 hp.2 start length
    exact ⟨⟨served.stocked, served.inv⟩, fun vs eq _ => (served.answer vs eq).2.1⟩
  byId id p hp := by
    have served := Cache.getById_served truthful hp.1 hp.2 id
    exact ⟨⟨served.stocked, served.inv⟩, served.answer⟩
  identify p hp := truthful.identify p.2 hp.2

end ReadThrough
