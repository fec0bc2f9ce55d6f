import ReadThrough.Proofs.Tower.Commands

/-!
# Towers are transparent

However high a tower of caches is, and whatever was done to it at any level, a read at
any level gives what the shelf at the bottom gives.  Whatever the shelf announces
reaches every level once, and a cache has dropped what is stale before the next one is
told.

* `Network.Built h w`: towers of height `h` as they are built and used.
* `Network.Transparent o h w` says what is to be seen of a tower over the shelf `o`.
* `Network.transparent_of_built`: every tower is transparent.
-/

namespace ReadThrough.Network

variable {ι α : Type} [DecidableEq ι] [ToString ι]

/-- A tower of height `h` is a shelf, and caches put one over the other, at any time.
Listeners may be made that do nothing when they are called, and anything calm may be
asked of any level, as long as the shelf tells its objects apart afterwards. -/
inductive Built : Nat → Network ι α → Prop
  | ground (name : String) {items : List α} {identify : α → Option ι} :
    (⟨items, identify⟩ : Shelf ι α).Lawful →
    Built 0 (empty.execute (.addShelf name items identify)).2
  | raise {h : Nat} {w : Network ι α} {name below : String} {capacity chunk : Nat} : Built h w →
    w.names.get? below = some h → w.names.get? name = none → 0 < chunk → chunk ≤ capacity →
    Built (h + 1) (w.execute (.addCache name below capacity chunk)).2
  | listen {h : Nat} {w : Network ι α} (name : String) (times : Nat) : Built h w →
    Built h (w.execute (.addScript name [] times false)).2
  | ask {h : Nat} {w : Network ι α} (name : String) {op : Operation ι α} : Built h w →
    op.isCalm = true →
    (∀ o, (w.execute (.ask name op)).2.origin? 0 = some o → o.shelf.Lawful) →
    Built h (w.execute (.ask name op)).2

/-- What is to be seen of a tower of `h` caches over the shelf `o`. -/
structure Transparent (o : Origin ι α) (h : Nat) (w : Network ι α) : Prop where
  origin : w.origin? 0 = some o
  height : w.caches.length = h
  /-- Each cache stands over the node made before it. -/
  stands : ∀ k < h, w.below? (k + 1) = some k
  named : ∀ n : Nat, n ≤ h → ∃ name, w.names.get? name = some n
  /-- A read at any level gives what the shelf gives. -/
  answer : ∀ name n, w.names.get? name = some n → ∀ q : Query ι,
    (w.execute (.ask name q.operation)).1 = q.outcome (o.shelf.query q)
  /-- An edit from any level is that of the shelf, and all caches hear of it in turn. -/
  carried : ∀ name n, w.names.get? name = some n → ∀ op : Operation ι α, op.isCalm = true →
    Carried o h w (.ask name op) (op.effect o.shelf n)

variable {w : Network ι α} {h : Nat} {o : Origin ι α} {command : Command ι α}

theorem Quiet.execute (quiet : Quiet o h (w.perform command)) (sound : o.Sound) :
    (w.execute command).2.Upright o h :=
  quiet.carried.upright sound.lawful

omit [ToString ι] in
theorem Upright.raise (upright : w.Upright o h) {name : String} (sizing : Sizing)
    (fresh : w.names.get? name = none) : (w.addCache name h sizing).Upright o (h + 1) := by
  obtain ⟨subs, cs, tower, rfl, stocked⟩ := upright
  obtain ⟨subs', raised⟩ := tower.raise sizing fresh
  refine ⟨subs', _, raised, List.length_append, fun c mem => ?_⟩
  rcases List.mem_append.1 mem with old | new
  · exact stocked c old
  · cases List.mem_singleton.1 new
    exact .empty

omit [ToString ι] in
theorem Upright.listen (upright : w.Upright o h) {s : Script ι α} (silent : s.IsSilent)
    (scriptNames : Index String Nat) :
    Upright o h { w with scripts := w.scripts.push s, scriptNames := scriptNames } := by
  obtain ⟨subs, cs, tower, rest⟩ := upright
  refine ⟨subs, cs, tower.congr rfl rfl fun i s' at_i => ?_, rest⟩
  rw [Array.getElem?_push] at at_i
  split at at_i
  · exact Option.some.inj at_i ▸ silent
  · exact tower.silent i s' at_i

/-- Whatever is done to a tower, its caches hold nothing but what is on the shelf. -/
theorem Built.upright (built : Built h w) : ∃ o : Origin ι α, o.Sound ∧ w.Upright o h := by
  induction built with
  | ground name lawful =>
    rename_i items identify
    have sound : Origin.Sound ⟨name, ⟨items, identify⟩, .none⟩ := ⟨lawful, rfl⟩
    have tower : Tower ⟨name, ⟨items, identify⟩, .none⟩ (fun _ => ∅) []
      ((empty : Network ι α).addNode name (.origin ⟨name, ⟨items, identify⟩, .none⟩)).2 := .ground
    have quiet : Quiet ⟨name, ⟨items, identify⟩, .none⟩ 0
        ((empty : Network ι α).perform (.addShelf name items identify)) := by
      rw [perform, tower.sweep_eq]
      exact ⟨rfl, _, [], tower, rfl, fun _ mem => by cases mem⟩
    exact ⟨_, sound, quiet.execute sound⟩
  | raise _ found fresh pos le ih =>
    rename_i h w name below capacity chunk _
    obtain ⟨o, sound, upright⟩ := ih
    have quiet : Quiet o (h + 1) (w.perform (.addCache name below capacity chunk)) := by
      rw [perform, Sizing.ofCounts, dif_pos pos, dif_pos le, nodeNamed?, found]
      exact ⟨rfl, upright.raise _ fresh⟩
    exact ⟨o, sound, quiet.execute sound⟩
  | listen name times _ ih =>
    rename_i h w _
    obtain ⟨o, sound, upright⟩ := ih
    have quiet : Quiet o h (w.perform (.addScript name [] times false)) :=
      ⟨rfl, upright.listen ⟨rfl, rfl⟩ _⟩
    exact ⟨o, sound, quiet.execute sound⟩
  | ask name _ calm lawful ih =>
    rename_i h w op _
    obtain ⟨o, sound, upright⟩ := ih
    cases found : w.names.get? name with
    | none =>
      have quiet : Quiet o h (w.perform (.ask name op)) := by
        rw [perform, nodeNamed?, found]
        exact ⟨rfl, upright⟩
      exact ⟨o, sound, quiet.execute sound⟩
    | some n =>
      have carried := upright.ask sound found calm
      have lawful' := lawful _ carried.origin
      exact ⟨_, ⟨lawful', sound.calm⟩, carried.upright lawful'⟩

theorem Upright.transparent (upright : w.Upright o h) (sound : o.Sound) : Transparent o h w where
  origin := upright.origin?
  height := by
    obtain ⟨subs, cs, tower, length, -⟩ := upright
    rw [tower.caches_eq, length]
  stands k lt := by
    obtain ⟨c, busy, here, -⟩ := upright.layer? lt
    exact below?_eq here
  named n le := by
    obtain ⟨subs, cs, tower, rfl, -⟩ := upright
    exact tower.named n le
  answer name n found q := upright.answer sound found q
  carried name n found op calm := upright.ask sound found calm

/-- Every tower is transparent. -/
theorem transparent_of_built (built : Built h w) : ∃ o, Transparent o h w := by
  obtain ⟨o, sound, upright⟩ := built.upright
  exact ⟨o, upright.transparent sound⟩

/-- Two caches, of which the lower one has room for less; the upper one was read, and then
an object was replaced through it. -/
def stacked : Network Nat Nat :=
  let w := (empty.execute (.addShelf "shelf" [7, 8, 6] some)).2
  let w := (w.execute (.addCache "lower" "shelf" 1 1)).2
  let w := (w.execute (.addCache "upper" "lower" 4 2)).2
  let w := (w.execute (.ask "upper" (.range 0 3))).2
  (w.execute (.ask "upper" (.updateAt 9 0))).2

theorem transparent_after_update : ∃ o : Origin Nat Nat, Transparent o 2 stacked ∧
    o.shelf.items = [9, 8, 6] ∧ stacked.caches.map (·.length) = [1, 2] := by
  have lawful : ∀ w : Network Nat Nat, ((w.origin? 0).all fun o =>
      decide o.shelf.Distinct && decide (o.shelf.size < wordLimit)) = true →
        ∀ o, w.origin? 0 = some o → o.shelf.Lawful := by
    intro w check o here
    rw [here, Option.all_some, Bool.and_eq_true, decide_eq_true_iff, decide_eq_true_iff] at check
    exact ⟨check.1, check.2⟩
  have built : Built 2 stacked := by
    refine .ask "upper" (.ask "upper" (.raise (.raise (.ground "shelf" ⟨?_, ?_⟩) ?_ ?_ ?_ ?_)
      ?_ ?_ ?_ ?_) rfl (lawful _ ?_)) rfl (lawful _ ?_)
    all_goals decide +kernel
  obtain ⟨o, transparent⟩ := transparent_of_built built
  have items : (stacked.origin? 0).map (·.shelf.items) = some [9, 8, 6] := by decide +kernel
  rw [transparent.origin] at items
  exact ⟨o, transparent, Option.some.inj items, by decide +kernel⟩

end ReadThrough.Network
