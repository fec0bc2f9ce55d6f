import ReadThrough.Proofs.Tower.Shape

/-!
# How a change goes up a tower

A change that the shelf announces goes from level to level.  A cache is told when the
caches below it have handled the change and before those above it have, and what it
does then is to tell the next one.

* `Network.climb change cs`: each cache is told once, from the lowest one on, and how
  all of them are at this moment.
* `Network.telling changes cs`: several changes, one after the other.
* `Network.Leads` says where an agenda leads in a tower and what goes on meanwhile;
  `Tower.announce` and `Tower.announceAll` that changes climb.
* `Network.errands subs k j` is how many errands an announcement takes, and
  `Tower.enough` that a command has rounds for it.
-/

namespace ReadThrough.Network

variable {ι α : Type} [DecidableEq ι]

/-- The caches that are told of a change, and the states of all at each moment. -/
def climb (change : Change ι) (cs : List (Cache ι α)) :
    List (NodeId × Change ι × List (Cache ι α)) :=
  (List.range cs.length).map fun k =>
    (k + 1, change, (cs.take k).map (·.apply change) ++ cs.drop k)

/-- All caches after a change. -/
def handle (cs : List (Cache ι α)) (change : Change ι) : List (Cache ι α) :=
  cs.map (·.apply change)

def telling : List (Change ι) → List (Cache ι α) → List (NodeId × Change ι × List (Cache ι α))
  | [], _ => []
  | change :: changes, cs => climb change cs ++ telling changes (handle cs change)

/-- The rest of a climb, after the caches `done`. -/
def climbOn (change : Change ι) (done : List (Cache ι α)) :
    List (Cache ι α) → List (NodeId × Change ι × List (Cache ι α))
  | [] => []
  | c :: rest =>
    (done.length + 1, change, done ++ c :: rest) ::
      climbOn change (done ++ [c.apply change]) rest

theorem climbOn_eq (change : Change ι) (done rest : List (Cache ι α)) :
    climbOn change done rest = (List.range rest.length).map fun k =>
      (done.length + k + 1, change,
        done ++ ((rest.take k).map (·.apply change) ++ rest.drop k)) := by
  induction rest generalizing done with
  | nil => rfl
  | cons c rest ih =>
    rw [climbOn, ih, List.length_cons, List.range_succ_eq_map, List.map_cons, List.map_map]
    refine congrArg _ (List.map_congr_left fun k _ => ?_)
    simp [Nat.add_assoc, Nat.add_comm 1]

theorem climb_eq (change : Change ι) (cs : List (Cache ι α)) :
    climb change cs = climbOn change [] cs := by
  rw [climbOn_eq, climb]
  simp

/-- How many errands an announcement of node `k` takes, with `j` caches above it. -/
def errands (subs : NodeId → Registry Subscriber) (k : Nat) : Nat → Nat
  | 0 => (subs k).size + 1
  | j + 1 => (subs k).size + 2 + errands subs (k + 1) j

variable [ToString ι]

/-- The agenda leads through a tower to one with the caches `cs`; meanwhile the shelf
announces `fired` and the caches are told `told`. -/
structure Leads (o : Origin ι α) (subs : NodeId → Registry Subscriber) (w : Network ι α)
    (agenda : List (Errand ι α)) (moments : List (Moment ι α)) (w' : Network ι α)
    (cs : List (Cache ι α)) (fired : List (Change ι))
    (told : List (NodeId × Change ι × List (Cache ι α))) : Prop where
  steps : Steps w agenda moments w'
  tower : Tower o subs cs w'
  fired : announcedBy 0 moments = fired
  told : toldCaches moments = told

variable {o : Origin ι α} {subs : NodeId → Registry Subscriber} {w w₁ w' : Network ι α}
variable {cs cs' : List (Cache ι α)} {agenda agenda' : List (Errand ι α)} {change : Change ι}
variable {moments moments' : List (Moment ι α)} {fired fired' : List (Change ι)}
variable {told told' : List (NodeId × Change ι × List (Cache ι α))}

theorem Leads.append (first : Leads o subs w agenda moments w₁ cs fired told)
    (second : Leads o subs w₁ agenda' moments' w' cs' fired' told') :
    Leads o subs w (agenda ++ agenda') (moments ++ moments') w' cs' (fired ++ fired')
      (told ++ told') where
  steps := first.steps.append second.steps
  tower := second.tower
  fired := by rw [announcedBy_append, first.fired, second.fired]
  told := by rw [toldCaches_append, first.told, second.told]

/-- An errand that leaves no others, and tells no cache of anything. -/
theorem Leads.quiet (errand : Errand ι α) (advanced : w.advance errand = (none, w', []))
    (tower : Tower o subs cs w') (announce : ∀ n ch, errand ≠ .announce n ch)
    (deliver : ∀ n ch, errand ≠ .deliver (.cache n) ch) :
    Leads o subs w [errand] [(w, errand)] w' cs [] [] := by
  refine ⟨.one advanced .done, tower, ?_, ?_⟩
  · cases errand with
    | announce n ch => exact absurd rfl (announce n ch)
    | _ => rfl
  · cases errand with
    | deliver recipient ch =>
      cases recipient with
      | cache n => exact absurd rfl (deliver n ch)
      | script i => rfl
    | _ => rfl

/-- A cache that is told, and what it leaves to do. -/
theorem Leads.deliver {n : NodeId} {more : List (Errand ι α)} (tower : Tower o subs cs w)
    (advanced : w.advance (.deliver (.cache n) change) = (none, w₁, more))
    (leads : Leads o subs w₁ more moments w' cs' fired told) :
    Leads o subs w [.deliver (.cache n) change] ((w, .deliver (.cache n) change) :: moments) w' cs'
      fired ((n, change, cs) :: told) where
  steps := .one advanced leads.steps
  tower := leads.tower
  fired := leads.fired
  told := by
    rw [← tower.caches_eq, ← leads.told]
    rfl

/-- An announcement, and the calls that it makes. -/
theorem Leads.announce {n : NodeId} (registry : w.registry n = subs n)
    (leads : Leads o subs w ((subs n).calls.map (.deliver · change)) moments w' cs fired told) :
    Leads o subs w [.announce n change] ((w, .announce n change) :: moments) w' cs
      ((if n = 0 then [change] else []) ++ fired) told where
  steps := .one (by rw [advance, registry]) leads.steps
  tower := leads.tower
  fired := by
    rw [← leads.fired]
    split
    · rename_i bottom
      subst bottom
      rfl
    · rename_i above
      rw [announcedBy, List.filterMap_cons]
      simp only [if_neg above]
      rfl
  told := leads.told

namespace Tower

/-! ## Listeners -/

omit [DecidableEq ι] [ToString ι] in
theorem note (tower : Tower o subs cs w) (entry : LogEntry ι α) :
    Tower o subs cs (w.note entry) :=
  tower.congr rfl rfl tower.silent

omit [DecidableEq ι] [ToString ι] in
/-- A listener takes note of the change. -/
theorem deliverToScript (tower : Tower o subs cs w) (i : Nat) (change : Change ι) :
    ∃ w', w.deliverToScript i change = (none, w', []) ∧ Tower o subs cs w' := by
  unfold Network.deliverToScript
  cases at_i : w.scripts[i]? with
  | none => exact ⟨w, rfl, tower⟩
  | some s =>
    obtain ⟨run, calm⟩ := tower.silent i s at_i
    have noted := tower.note (.heard s.name change)
    dsimp only
    rw [calm, if_neg Bool.false_ne_true, run]
    split
    · exact ⟨_, rfl, noted⟩
    · refine ⟨_, rfl, noted.congr rfl rfl fun j s' at_j => ?_⟩
      rw [Array.getElem?_modify] at at_j
      split at at_j
      · obtain ⟨s₀, at_j', rfl⟩ := Option.map_eq_some_iff.1 at_j
        exact tower.silent j s₀ at_j'
      · exact tower.silent j s' at_j

theorem deliverToScripts (tower : Tower o subs cs w) (change : Change ι)
    (members : List Subscriber) (only : ∀ s ∈ members, s.isCache = false) :
    ∃ moments w', Leads o subs w (members.map (.deliver · change)) moments w' cs [] [] ∧
      moments.length = members.length := by
  induction members generalizing w with
  | nil => exact ⟨[], w, ⟨.done, tower, rfl, rfl⟩, rfl⟩
  | cons s members ih =>
    obtain ⟨silent, scripts⟩ := List.forall_mem_cons.1 only
    cases s with
    | cache n => cases silent
    | script i =>
      obtain ⟨w₁, advanced, tower'⟩ := tower.deliverToScript i change
      obtain ⟨moments, w', leads, length⟩ := ih tower' scripts
      have first := Leads.quiet (.deliver (.script i) change) advanced tower'
        (fun _ _ eq => by cases eq) fun _ _ eq => by cases eq
      exact ⟨_, w', first.append leads, congrArg _ length⟩

/-! ## Caches -/

variable {done rest : List (Cache ι α)} {c : Cache ι α}

omit [DecidableEq ι] [ToString ι] in
theorem modify_middle {f : Cache ι α → Cache ι α} :
    (done ++ c :: rest).modify done.length f = done ++ f c :: rest := by
  induction done with
  | nil => rfl
  | cons d done ih => exact congrArg (d :: ·) ih

theorem deliverToCache (tower : Tower o subs (done ++ c :: rest) w) (change : Change ι) :
    ∃ w', w.advance (.deliver (.cache (done.length + 1)) change) =
        (none, w', [.announce (done.length + 1) change, .settle (done.length + 1)]) ∧
      Tower o subs (done ++ [c.apply change] ++ rest) w' := by
  have at_k : (done ++ c :: rest)[done.length]? = some c := by
    rw [List.getElem?_append_right (Nat.le_refl _), Nat.sub_self]
    rfl
  obtain ⟨busy, here⟩ := tower.layer done.length c at_k
  have handled := tower.modifyLayer (k := done.length)
    (f := fun l => { l with cache := l.cache.apply change, busy := l.busy + 1 })
    (g := (·.apply change)) (fun _ => rfl) (fun _ => rfl) fun _ => rfl
  rw [modify_middle, modifyLayer_eq here] at handled
  refine ⟨_, ?_, List.append_assoc done [_] rest ▸ handled⟩
  rw [advance, Network.deliverToCache, here]
  rfl

theorem settle (tower : Tower o subs cs w) (k : Nat) :
    ∃ w', w.advance (.settle (k + 1)) = (none, w', []) ∧ Tower o subs cs w' := by
  have settled := tower.modifyLayer (k := k) (f := fun l => { l with busy := l.busy - 1 })
    (g := id) (fun _ => rfl) (fun _ => rfl) fun _ => rfl
  rw [List.modify_id] at settled
  refine ⟨_, ?_, settled⟩
  rw [advance, settled.sweep_eq]

omit [DecidableEq ι] [ToString ι] in
/-- The topmost node tells listeners only. -/
theorem members_top (tower : Tower o subs cs w) :
    ∀ s ∈ (subs cs.length).calls, s.isCache = false := by
  intro s mem
  have none := tower.chain cs.length
  rw [if_neg (Nat.lt_irrefl _), List.filter_eq_nil_iff] at none
  exact Bool.eq_false_iff.2 (none s (List.mem_reverse.1 mem))

omit [DecidableEq ι] [ToString ι] in
/-- Any other node tells the next cache, and otherwise listeners. -/
theorem members_below {k : Nat} (tower : Tower o subs cs w) (lt : k < cs.length) :
    ∃ before after : List Subscriber, (subs k).calls = before ++ .cache (k + 1) :: after ∧
      (∀ s ∈ before, s.isCache = false) ∧ ∀ s ∈ after, s.isCache = false := by
  have one := tower.chain k
  rw [if_pos lt] at one
  obtain ⟨older, newer, members, silent, -, none⟩ := List.filter_eq_cons_iff.1 one
  refine ⟨newer.reverse, older.reverse, ?_, fun s mem => ?_, fun s mem => ?_⟩
  · rw [Registry.calls, members, List.reverse_append, List.reverse_cons, List.append_assoc]
    rfl
  · exact Bool.eq_false_iff.2 (List.filter_eq_nil_iff.1 none s (List.mem_reverse.1 mem))
  · exact Bool.eq_false_iff.2 (silent s (List.mem_reverse.1 mem))

/-- A change that a level announces climbs from there to the top. -/
theorem announce (tower : Tower o subs (done ++ rest) w) (change : Change ι) :
    ∃ moments w', Leads o subs w [.announce done.length change] moments w'
        (done ++ handle rest change) (if done.length = 0 then [change] else [])
        (climbOn change done rest) ∧
      moments.length = errands subs done.length rest.length := by
  induction rest generalizing done w with
  | nil =>
    rw [List.append_nil] at tower
    obtain ⟨moments, w', leads, length⟩ :=
      tower.deliverToScripts change _ tower.members_top
    have announced := leads.announce (tower.registry _)
    rw [List.append_nil] at announced
    have top : done ++ handle [] change = done := List.append_nil done
    refine ⟨(w, .announce done.length change) :: moments, w', ?_, ?_⟩
    · rw [top]
      exact announced
    · rw [List.length_cons, length, Registry.calls, List.length_reverse]
      rfl
  | cons c rest ih =>
    have lt : done.length < (done ++ c :: rest).length := by
      rw [List.length_append, List.length_cons]
      omega
    obtain ⟨before, after, calls, silent, silent'⟩ := tower.members_below lt
    -- the listeners before the next cache, the cache and all above it, the others
    obtain ⟨m₁, w₁, first, length₁⟩ := tower.deliverToScripts change before silent
    obtain ⟨w₂, advanced, handled⟩ := first.tower.deliverToCache change
    obtain ⟨m₃, w₃, climbs, length₃⟩ := ih handled
    obtain ⟨w₄, settled, tower₄⟩ := climbs.tower.settle done.length
    have fourth := Leads.quiet (.settle (done.length + 1)) settled tower₄
      (fun _ _ eq => by cases eq) fun _ _ eq => by cases eq
    obtain ⟨m₅, w₅, last, length₅⟩ := tower₄.deliverToScripts change after silent'
    have next : (done ++ [c.apply change]).length = done.length + 1 := List.length_append
    rw [next] at climbs length₃
    have told := (climbs.append fourth).deliver first.tower advanced
    have called := first.append (told.append last)
    have agenda : before.map (.deliver · change) ++
        ([.deliver (.cache (done.length + 1)) change] ++ after.map (.deliver · change)) =
          ((subs done.length).calls.map (.deliver · change) : List (Errand ι α)) := by
      rw [calls, List.map_append, List.map_cons]
      rfl
    rw [agenda] at called
    have announced := called.announce (tower.registry _)
    have states : done ++ [c.apply change] ++ handle rest change =
        done ++ handle (c :: rest) change :=
      List.append_assoc done [_] _
    simp only [if_neg (Nat.succ_ne_zero _), List.append_nil, List.nil_append, states] at announced
    have size : (subs done.length).size = before.length + 1 + after.length := by
      rw [Registry.size, ← List.length_reverse, ← Registry.calls, calls, List.length_append,
        List.length_cons]
      omega
    have load : errands subs done.length (c :: rest).length =
        (subs done.length).size + 2 + errands subs (done.length + 1) rest.length := rfl
    refine ⟨_, w₅, announced, ?_⟩
    rw [load, size, ← length₃, ← length₁, ← length₅]
    simp only [List.length_append, List.length_cons, List.length_nil]
    omega

/-- Changes that the shelf announces climb one after the other. -/
theorem announceAll (tower : Tower o subs cs w) (changes : List (Change ι)) :
    ∃ moments w', Leads o subs w (changes.map (.announce 0)) moments w' (changes.foldl handle cs)
        changes (telling changes cs) ∧
      moments.length = changes.length * errands subs 0 cs.length := by
  induction changes generalizing cs w with
  | nil => exact ⟨[], w, ⟨.done, tower, rfl, rfl⟩, (Nat.zero_mul _).symm⟩
  | cons change changes ih =>
    have bottom : Tower o subs ([] ++ cs) w := tower
    obtain ⟨m₁, w₁, first, length₁⟩ := bottom.announce change
    have tower₁ : Tower o subs (handle cs change) w₁ := first.tower
    obtain ⟨m₂, w₂, rest, length₂⟩ := ih tower₁
    have leads := first.append rest
    rw [← climb_eq] at leads
    refine ⟨_, w₂, leads, ?_⟩
    have same : (handle cs change).length = cs.length := List.length_map _
    rw [List.length_append, length₁, length₂, same, List.length_cons, Nat.succ_mul, Nat.add_comm]
    rfl

/-- What is left to do after an edit of the shelf. -/
theorem announcing (tower : Tower o subs cs w) (changes : List (Change ι)) (count : Nat) :
    ∃ moments w', Leads o subs w (changes.map (.announce 0) ++ [.unpin count]) moments w'
        (changes.foldl handle cs) changes (telling changes cs) ∧
      moments.length = changes.length * errands subs 0 cs.length + 1 := by
  obtain ⟨moments, w₁, climbs, length⟩ := tower.announceAll changes
  have unpinned : Tower o subs (changes.foldl handle cs) { w₁ with pins := w₁.pins.drop count } :=
    climbs.tower.congr rfl rfl climbs.tower.silent
  have last := Leads.quiet (.unpin count) (by rw [advance, unpin, unpinned.sweep_eq]) unpinned
    (fun _ _ eq => by cases eq) fun _ _ eq => by cases eq
  have leads := climbs.append last
  rw [List.append_nil, List.append_nil] at leads
  exact ⟨_, _, leads, by rw [List.length_append, length]; rfl⟩

/-! ## Rounds -/

omit [DecidableEq ι] [ToString ι] in
theorem errands_eq (tower : Tower o subs cs w) {j k : Nat} (upto : k + j = cs.length) :
    errands subs k j + 1 =
      ((w.nodes.toList.drop k).map fun node => node.registry.size).foldr (· + ·) 0 +
        2 * (j + 1) := by
  have size : w.nodes.toList.length = cs.length + 1 := tower.size
  have registry : ∀ n (lt : n < w.nodes.toList.length), w.nodes.toList[n].registry = subs n := by
    intro n lt
    rw [← tower.registry n, registry_eq, node?, Array.getElem?_eq_getElem lt]
    rfl
  induction j generalizing k with
  | zero =>
    have lt : k < w.nodes.toList.length := by omega
    rw [List.drop_eq_getElem_cons lt, List.drop_eq_nil_of_le (by omega), List.map_singleton,
      registry k lt]
    rfl
  | succ j ih =>
    have lt : k < w.nodes.toList.length := by omega
    have above := ih (k := k + 1) (by omega)
    rw [List.drop_eq_getElem_cons lt, List.map_cons, List.foldr_cons, registry k lt, errands]
    omega

omit [DecidableEq ι] [ToString ι] in
/-- There are rounds enough for three changes and something more. -/
theorem enough (tower : Tower o subs cs w) (c : Command ι α) :
    3 * errands subs 0 cs.length + 1 ≤ w.effort c := by
  have load := tower.errands_eq (j := cs.length) (k := 0) (Nat.zero_add _)
  have size := tower.size
  rw [List.drop_zero] at load
  obtain ⟨commands, eq⟩ : ∃ commands, w.pendingCommands + weight c + 1 = commands := ⟨_, rfl⟩
  have calls : w.subscriptions + w.nodes.size ≤
      (w.subscriptions + w.nodes.size + commands + 1) * commands :=
    Nat.le_trans (by omega) (Nat.le_mul_of_pos_right _ (by omega))
  have rounds : 8 * (w.subscriptions + w.nodes.size) ≤ w.effort c := by
    rw [effort, eq]
    exact Nat.mul_le_mul (by omega) (Nat.le_succ_of_le calls)
  rw [subscriptions] at rounds
  omega

end Tower

end ReadThrough.Network
