import ReadThrough.Proofs.Fronted.Mirroring

/-!
# A network with one cache, in the small

A network with a single cache does what a shelf with a cache in front does, command by command.
So what is known of a shelf with its cache holds in the network: whatever was done before, a read
of the cache gives what is on the shelf with which the cache is registered.

* `Network.Counterpart w name m f`: a command to the network, and what it comes to in `f`.
* `Mirrors.execute`: each command gives the outcome of its counterpart and leads to a network that
  mirrors the state after it.
* `Network.Alongside` are the runs of both.
* `Alongside.answers`: where the cache is registered, and what its reads give.
-/

namespace ReadThrough

variable {ι α : Type} [DecidableEq ι] [ToString ι]

namespace Fronted

variable {f : Fronted ι α} {sizing : Sizing}

theorem Reached.carry (reached : Reached sizing f) (d : Shelf.Deed ι α)
    (lawful : (f.carry d).shelf.Lawful) : Reached sizing (f.carry d) := by
  obtain ⟨β, e, mutator, same⟩ := d.exists_mutator
  have edited : (f.edit e).2 = f.carry d := by
    rw [Fronted.carry, Fronted.edit, Fronted.edit, ← same f.shelf]
  rw [← edited] at lawful ⊢
  exact .edit mutator reached lawful

omit [ToString ι] in
/-- A shelf to which nothing happens any more answers like one that never fails. -/
theorem agrees_of_calm : Source.Agrees Flaky.source Shelf.source
    fun (flaky : Flaky ι α) s => flaky = ⟨s, [], false⟩ where
  size := by
    rintro _ s rfl
    exact ⟨rfl, rfl⟩
  range start length := by
    rintro _ s rfl
    exact ⟨rfl, rfl⟩
  byId id := by
    rintro _ s rfl
    exact ⟨rfl, rfl⟩
  identify := by
    rintro _ s rfl
    rfl

omit [ToString ι] in
/-- A read during which nothing happens to any call. -/
theorem ask_nil (f : Fronted ι α) (q : Query ι) :
    f.ask q [] = ((f.query q).1, (f.query q).2, false) := by
  have asked := Cache.query_agrees agrees_of_calm (s := ⟨f.shelf, [], false⟩) rfl q f.cache
  rw [ask, query, read]
  revert asked
  rcases Cache.query Flaky.source q f.cache ⟨f.shelf, [], false⟩ with ⟨answer, c, flaky⟩
  rcases Cache.query Shelf.source q f.cache f.shelf with ⟨answer', c', s⟩
  rintro ⟨-, -, rfl⟩
  rfl

theorem Reached.query (reached : Reached sizing f) (q : Query ι) :
    Reached sizing (f.query q).2 := by
  have asked := Reached.ask q [] reached
  rwa [ask_nil] at asked

end Fronted

namespace Network

variable {w w' : Network ι α} {name : String} {n m m' k : NodeId} {f f' : Fronted ι α}
variable {o : Origin ι α} {command : Command ι α} {outcome : Outcome ι α} {sizing : Sizing}

/-- A command to the network `w`, what it gives, and what it comes to for a shelf with a cache in
front: the node below the cache, and both, after it. -/
inductive Counterpart (w : Network ι α) (name : String) (m : NodeId) (f : Fronted ι α) :
    Command ι α → Outcome ι α → NodeId → Fronted ι α → Prop
  | read (q : Query ι) :
    Counterpart w name m f (.ask name q.operation) (q.outcome (f.query q).1) m (f.query q).2
  | clear : Counterpart w name m f (.ask name .clear) .done m f.clear
  | update (u : Update α) :
    Counterpart w name m f (.ask name u.deed.operation) (u.deed.on f.shelf).1 m (f.carry u.deed)
  | attach {below : String} {k : NodeId} {o : Origin ι α} : w.nodeNamed? below = some k →
    w.origin? k = some o →
    Counterpart w name m f (.ask name (.attach below)) .done k (f.attach o.shelf)
  | deed {shelf : String} {k : NodeId} {o : Origin ι α} (d : Shelf.Deed ι α) :
    w.nodeNamed? shelf = some k → w.origin? k = some o →
    Counterpart w name m f (.ask shelf d.operation) (d.on o.shelf).1 m
      (if k = m then f.carry d else f)
  | look {shelf : String} {k : NodeId} {o : Origin ι α} (q : Query ι) :
    w.nodeNamed? shelf = some k → w.origin? k = some o →
    Counterpart w name m f (.ask shelf q.operation) (q.outcome (o.shelf.query q)) m f
  | addShelf {other : String} (items : List α) (identify : α → Option ι) : other ≠ name →
    Counterpart w name m f (.addShelf other items identify) .done m f

/-- One command to the network is one step of the shelf with its cache. -/
theorem Mirrors.execute (mirrors : w.Mirrors name n m f)
    (counterpart : w.Counterpart name m f command outcome m' f') :
    ∃ w', w.execute command = (outcome, w') ∧ w'.Mirrors name n m' f' := by
  cases counterpart with
  | read q => exact mirrors.read q
  | clear => exact mirrors.clear
  | update u => exact mirrors.update u
  | attach named here => exact mirrors.attach named here
  | deed d named here => exact mirrors.deed named here d
  | look q named here => exact mirrors.look named here q
  | addShelf items identify free => exact mirrors.addShelf free items identify

/-- A network of shelves to which nobody has subscribed. -/
structure Bare (w : Network ι α) : Prop where
  layer : ∀ k, w.layer? k = none
  calm : ∀ k o, w.origin? k = some o → o.trouble = .none
  registry : ∀ k, w.registry k = ∅

/-- Networks to which only shelves have been added. -/
inductive Shelved : Network ι α → Prop
  | empty : Shelved empty
  | addShelf {w : Network ι α} (name : String) (items : List α) (identify : α → Option ι) :
    Shelved w → Shelved (w.execute (.addShelf name items identify)).2

theorem Bare.addShelf (bare : w.Bare) (name : String) (items : List α) (identify : α → Option ι) :
    ∃ w', w.execute (.addShelf name items identify) = (.done, w') ∧ w'.Bare := by
  have grown : (w.addNode name (.origin ⟨name, ⟨items, identify⟩, .none⟩)).2.Bare := by
    refine ⟨fun k => ?_, calm_addShelf bare.calm, fun k => registry_addNode.trans (bare.registry k)⟩
    rw [layer?_addNode, bare.layer]
    exact ite_self _
  have swept := sweep_of_named fun k l at_k => by
    rw [grown.layer] at at_k
    cases at_k
  have performed : w.perform (.addShelf name items identify) = (.done, _, []) :=
    congrArg (fun w => (Outcome.done, w, [])) swept
  exact ⟨_, execute_of_perform performed, grown⟩

theorem Shelved.bare (shelved : w.Shelved) : w.Bare := by
  induction shelved with
  | empty => exact ⟨fun _ => rfl, fun _ _ here => (by cases here), fun _ => rfl⟩
  | addShelf name items identify _ ih =>
    obtain ⟨w', executed, bare⟩ := ih.addShelf name items identify
    rw [executed]
    exact bare

/-- The first cache. -/
theorem Bare.addCache (bare : w.Bare) {below : String} {capacity chunk : Nat}
    (named : w.nodeNamed? below = some m) (here : w.origin? m = some o)
    (sized : Sizing.ofCounts capacity chunk = .ok sizing) (name : String) :
    ∃ w', w.execute (.addCache name below capacity chunk) = (.done, w') ∧
      w'.Mirrors name w.nodes.size m (.new o.shelf sizing) := by
  have lt := lt_size_of_origin? here
  have grown : (w.placed name m sizing).Mirrors name w.nodes.size m (.new o.shelf sizing) := by
    refine ⟨?_, ⟨0, layer?_placed.trans (if_pos rfl)⟩, fun k l at_k => ?_,
      ⟨o, origin?_placed.trans here, rfl⟩,
      fun k p at_k => bare.calm k p (origin?_placed.symm.trans at_k), fun k => ?_⟩
    · exact (Index.get?_insert _ _ _ _).trans (if_pos rfl)
    · rw [layer?_placed, bare.layer] at at_k
      split at at_k
      · assumption
      · cases at_k
    · rw [registry_placed lt, bare.registry]
      exact if_congr eq_comm rfl rfl
  have performed : w.perform (.addCache name below capacity chunk) =
      (.done, w.placed name m sizing, []) := by
    rw [perform, sized, named]
    exact congrArg (fun w => (Outcome.done, w, [])) grown.sweep_eq
  exact ⟨_, execute_of_perform performed, grown⟩

/-- All shelves can be read through caches. -/
def Readable (w : Network ι α) : Prop := ∀ k o, w.origin? k = some o → o.shelf.Lawful

/-- A network gets its first cache, and then goes through the same commands as a shelf with a
cache in front. -/
inductive Alongside (sizing : Sizing) (name : String) :
    Network ι α → NodeId → Fronted ι α → Prop
  | new {w : Network ι α} {below : String} {m : NodeId} {capacity chunk : Nat}
    {o : Origin ι α} : w.Shelved → w.nodeNamed? below = some m → w.origin? m = some o →
    Sizing.ofCounts capacity chunk = .ok sizing →
    (w.execute (.addCache name below capacity chunk)).2.Readable →
    Alongside sizing name (w.execute (.addCache name below capacity chunk)).2 m
      (.new o.shelf sizing)
  | step {w : Network ι α} {m m' : NodeId} {f f' : Fronted ι α} {command : Command ι α}
    {outcome : Outcome ι α} : Alongside sizing name w m f →
    w.Counterpart name m f command outcome m' f' → (w.execute command).2.Readable →
    Alongside sizing name (w.execute command).2 m' f'

namespace Alongside

/-- The shelf with its cache has been used as it may be, and the network mirrors it. -/
theorem mirrors (alongside : Alongside sizing name w m f) :
    f.Reached sizing ∧ w.Readable ∧ ∃ n, w.Mirrors name n m f := by
  induction alongside with
  | new shelved named here sized readable =>
    obtain ⟨w', executed, mirrors⟩ := shelved.bare.addCache named here sized name
    rw [executed] at readable ⊢
    obtain ⟨o, here, same⟩ := mirrors.origin
    have lawful := readable _ o here
    rw [same] at lawful
    exact ⟨.new lawful, readable, _, mirrors⟩
  | step _ counterpart readable ih =>
    obtain ⟨reached, readable₀, n, mirrors⟩ := ih
    obtain ⟨w', executed, mirrors'⟩ := mirrors.execute counterpart
    rw [executed] at readable ⊢
    obtain ⟨o, here, same⟩ := mirrors'.origin
    have lawful := readable _ o here
    rw [same] at lawful
    refine ⟨?_, readable, n, mirrors'⟩
    cases counterpart with
    | read q => exact reached.query q
    | clear => exact .clear reached
    | update u => exact reached.carry u.deed lawful
    | attach named there => exact .attach (readable₀ _ _ there) reached
    | deed d named there =>
      split
      · rename_i at_m
        rw [if_pos at_m] at lawful
        exact reached.carry d lawful
      · exact reached
    | look q named there => exact reached
    | addShelf items identify free => exact reached

/-- The cache is registered, once, with the shelf that it stands over, and nobody is registered
with any other node; and each read of it gives what this shelf holds. -/
theorem answers (alongside : Alongside sizing name w m f) : ∃ n o,
    w.nodeNamed? name = some n ∧ w.below? n = some m ∧ w.origin? m = some o ∧
      (∀ k, w.registry k = if k = m then ⟨[.cache n]⟩ else ∅) ∧
      ∀ q : Query ι, (w.execute (.ask name q.operation)).1 = q.outcome (o.shelf.query q) := by
  obtain ⟨reached, -, n, mirrors⟩ := alongside.mirrors
  obtain ⟨busy, there⟩ := mirrors.layer
  obtain ⟨o, here, same⟩ := mirrors.origin
  refine ⟨n, o, mirrors.named, below?_eq there, here, mirrors.registry, fun q => ?_⟩
  obtain ⟨w', executed, -⟩ := mirrors.read q
  rw [executed, (reached.inStep.query q).1, same]

end Alongside

/-- A cache that was read and then attached to another shelf, before both shelves were edited. -/
def exchanged : Network Nat Nat :=
  let w := (empty.execute (.addShelf "old" [7, 8] some)).2
  let w := (w.execute (.addShelf "new" [9] some)).2
  let w := (w.execute (.addCache "cache" "old" 2 1)).2
  let w := (w.execute (.ask "cache" (.get 1))).2
  let w := (w.execute (.ask "cache" (.attach "new"))).2
  let w := (w.execute (.ask "cache" (.get 0))).2
  let w := (w.execute (.ask "old" (.removeAt 0))).2
  (w.execute (.ask "new" (.updateAt 5 0))).2

theorem readable_of_all {w : Network Nat Nat}
    (all : ((List.range w.nodes.size).all fun k => (w.origin? k).all fun o =>
      decide o.shelf.Distinct && decide (o.shelf.size < wordLimit)) = true) : w.Readable := by
  intro k o here
  have checked := List.all_eq_true.1 all k (List.mem_range.2 (lt_size_of_origin? here))
  rw [here, Option.all_some, Bool.and_eq_true, decide_eq_true_iff, decide_eq_true_iff] at checked
  exact ⟨checked.1, checked.2⟩

/-- The cache is registered with the new shelf only, and reads what was put there. -/
theorem answers_after_attach :
    (∃ f, Alongside ⟨2, 1, by decide, by decide⟩ "cache" exchanged 1 f) ∧
      (exchanged.registry 0).members = [] ∧ (exchanged.registry 1).members = [.cache 2] ∧
      (exchanged.execute (.ask "cache" (.get 0))).1 = .object 5 := by
  have shelved : ((empty.execute (.addShelf "old" [7, 8] some)).2.execute
      (.addShelf "new" [9] some)).2.Shelved := .addShelf _ _ _ (.addShelf _ _ _ .empty)
  have alongside : ∃ f, Alongside ⟨2, 1, by decide, by decide⟩ "cache" exchanged 1 f := by
    refine ⟨_, .step (.step (.step (.step (.step (.new shelved (m := 0) ?below rfl rfl ?_)
      (.read (.get 1)) ?_) (.attach (k := 1) ?target rfl) ?_) (.read (.get 0)) ?_)
      (.deed (k := 0) (.removeAt 0) ?old rfl) ?_) (.deed (k := 1) (.updateAt 5 0) ?new rfl) ?_⟩
    case below | target | old | new => decide +kernel
    all_goals exact readable_of_all (by decide +kernel)
  refine ⟨alongside, by decide +kernel, by decide +kernel, ?_⟩
  obtain ⟨f, alongside⟩ := alongside
  obtain ⟨n, o, -, -, here, -, answers⟩ := alongside.answers
  have items : (exchanged.origin? 1).map (·.shelf.items) = some [5] := by decide +kernel
  rw [here] at items
  have first : o.shelf.get 0 = .ok 5 := by
    have only : o.shelf.items = [5] := Option.some.inj items
    rw [Shelf.get, only]
    rfl
  exact (answers (.get 0)).trans (congrArg (Outcome.ofExcept Outcome.object) first)

end Network

end ReadThrough
