import HookedAutomata.Proofs.DraftHistories

/-!
# Drafts that are changed in place

A call that is refused yields no draft (`Draft.call`), so there is nothing to see of what it did
before it was refused. Here the calls are told as they are made on a draft that a host keeps: they
look names up and write to the draft as they go, and where one fails, what it wrote so far stays
(`Draft.InPlace`). All of them look names up first and write last. So in place too a refused call
leaves the draft as it was, and a call that is taken does what `Draft.call` says
(`Draft.perform_eq`).

All that a draft refers to is registered in it: each state in a transition, in the start slot or in
the error slot is the instance that was added under its name (`Draft.Sound`), and each end name is
that of a state (`Draft.EndsKnown`).

The main statement is `Draft.performed_integrity`.
-/

namespace HookedAutomata

variable {κ : Type} [CustomTrigger κ]

namespace Draft

/-! ## Calls in place -/

/-- What is done to a draft in place. Where it fails, what was written so far stays. -/
abbrev InPlace (κ : Type) [CustomTrigger κ] := ExceptT BuildError (StateM (Draft κ))

namespace InPlace

/-- The answer, and the draft that is left. -/
def runOn {α : Type} (x : InPlace κ α) (d : Draft κ) : Except BuildError α × Draft κ := x.run.run d

theorem runOn_bind {α β : Type} (x : InPlace κ α) (f : α → InPlace κ β) (d : Draft κ) :
    (x >>= f).runOn d = match x.runOn d with
      | (.ok a, d') => (f a).runOn d'
      | (.error e, d') => (.error e, d') := by
  show (match x.runOn d with | (a, d') => ExceptT.bindCont f a d') = _
  rcases x.runOn d with ⟨e | a, d'⟩
  · rfl
  · rfl

end InPlace

/-- The state that was added under a name, as `Draft.lookup` finds it. -/
def fetch (n : String) : InPlace κ State := do
  match (← get).state? n with
  | some s => return s
  | none => throw (.unknownState n)

/-- A call, step by step. The targets of a transition are looked up one after another. -/
def Call.inPlace : Call κ → InPlace κ Unit
  | .addState s => do
    if (← get).hasState s.name then throw (.duplicateState s.name)
    modify fun d => { d with states := d.states.insert s }
  | .addEnd n => do
    let s ← fetch n
    modify fun d => { d with endNames := d.endNames.insert s.name }
  | .setStart n => do
    let s ← fetch n
    modify fun d => { d with start := some s }
  | .setError n => do
    let s ← fetch n
    modify fun d => { d with error := some s }
  | .addTransition n on ns => do
    let s ← fetch n
    let ts ← ns.mapM fetch
    modify fun d => { d with transitions := d.transitions.merge ⟨s, on, .collect ts⟩ }
  | .clear => do
    modify fun d => { d with states := ∅ }
    modify fun d => { d with transitions := ∅ }
    modify fun d => { d with start := none }
    modify fun d => { d with error := none }
    modify fun d => { d with endNames := ∅ }

/-- Makes a call on a draft that is kept: its answer, and the draft then. -/
def perform (d : Draft κ) (c : Call κ) : Except BuildError Unit × Draft κ := c.inPlace.runOn d

/-- The draft after calls that were made one after another, whatever they answered. -/
def performed (d : Draft κ) (calls : List (Call κ)) : Draft κ :=
  calls.foldl (fun d c => (d.perform c).2) d

theorem runOn_fetch (d : Draft κ) (n : String) : (fetch n).runOn d = (d.lookup n, d) := by
  show InPlace.runOn (match d.state? n with | some s => _ | none => _) d = _
  unfold lookup
  cases d.state? n with
  | none => rfl
  | some s => rfl

/-- Looking names up writes nothing, also where one of them is unknown after others that are not. -/
theorem runOn_mapM_fetch (d : Draft κ) (ns : List String) :
    InPlace.runOn (ns.mapM fetch) d = (ns.mapM d.lookup, d) := by
  induction ns with
  | nil => rfl
  | cons n ns ih =>
    rw [List.mapM_cons, List.mapM_cons, InPlace.runOn_bind, runOn_fetch]
    cases d.lookup n with
    | error x => rfl
    | ok s =>
      show InPlace.runOn (ns.mapM fetch >>= fun ts => pure (s :: ts)) d = _
      rw [InPlace.runOn_bind, ih]
      cases ns.mapM d.lookup with
      | error x => rfl
      | ok ts => rfl

/-- What looks one name up and then writes answers as the lookup does. -/
theorem runOn_fetch_modify (d : Draft κ) (n : String) (f : State → Draft κ → Draft κ) :
    (fetch n >>= fun s => modify (f s) : InPlace κ Unit).runOn d = match d.lookup n with
      | .ok s => (.ok (), f s d)
      | .error x => (.error x, d) := by
  rw [InPlace.runOn_bind, runOn_fetch]
  cases d.lookup n with
  | error x => rfl
  | ok s => rfl

/-- A call in place does what the call does that yields a draft, and nothing if that yields none. -/
theorem perform_eq (d : Draft κ) (c : Call κ) :
    d.perform c = match d.call c with
      | .ok d' => (.ok (), d')
      | .error x => (.error x, d) := by
  cases c with
  | addState s =>
    show InPlace.runOn (do
      if d.hasState s.name then throw (.duplicateState s.name)
      modify fun d => { d with states := d.states.insert s }) d = _
    simp only [Draft.call, addState]
    cases d.hasState s.name with
    | true => rfl
    | false => rfl
  | addEnd n =>
    refine (runOn_fetch_modify d n _).trans ?_
    simp only [Draft.call, addEnd]
    cases d.lookup n <;> rfl
  | setStart n =>
    refine (runOn_fetch_modify d n _).trans ?_
    simp only [Draft.call, setStart]
    cases d.lookup n <;> rfl
  | setError n =>
    refine (runOn_fetch_modify d n _).trans ?_
    simp only [Draft.call, setError]
    cases d.lookup n <;> rfl
  | addTransition n on ns =>
    show InPlace.runOn (fetch n >>= fun s => ns.mapM fetch >>= _) d = _
    simp only [Draft.call, addTransition]
    rw [InPlace.runOn_bind, runOn_fetch]
    cases d.lookup n with
    | error x => rfl
    | ok s =>
      show InPlace.runOn (ns.mapM fetch >>= _) d = _
      rw [InPlace.runOn_bind, runOn_mapM_fetch]
      cases ns.mapM d.lookup with
      | error x => rfl
      | ok ts => rfl
  | clear => rfl

theorem perform_fst (d : Draft κ) (c : Call κ) :
    (d.perform c).1 = (d.call c).map fun _ => () := by
  rw [perform_eq]
  cases d.call c <;> rfl

theorem perform_snd (d : Draft κ) (c : Call κ) : (d.perform c).2 = (d.call c).toOption.getD d := by
  rw [perform_eq]
  cases d.call c <;> rfl

theorem performed_eq_after (d : Draft κ) (calls : List (Call κ)) :
    d.performed calls = d.after calls := by
  unfold performed after
  simp only [perform_snd]

/-! ## Refusals -/

/-- A call that is refused leaves the draft as it was. -/
theorem perform_snd_of_error {d : Draft κ} {c : Call κ} {x : BuildError}
    (h : (d.perform c).1 = .error x) : (d.perform c).2 = d := by
  rw [perform_fst] at h
  rw [perform_snd]
  cases hcall : d.call c with
  | error y => rfl
  | ok d' =>
    rw [hcall] at h
    cases h

/-- A transition is refused for the first name that is unknown, the source before the targets. -/
theorem perform_addTransition (d : Draft κ) (n : String) (on : Trigger κ) (ns : List String) :
    (d.perform (.addTransition n on ns)).1 =
      match (n :: ns).find? fun m => !d.hasState m with
      | some m => .error (.unknownState m)
      | none => .ok () := by
  rw [perform_fst]
  show (d.addTransition n on ns).map _ = _
  rcases d.addTransition_cases n on ns with ⟨e, he, hadd⟩ | ⟨hn, hadd⟩ |
      ⟨hn, before, m, after, rfl, hbefore, hm, hadd⟩
  · have hknown : (n :: ns).find? (fun m => !d.hasState m) = none := by
      refine List.find?_eq_none.2 fun m hmem => ?_
      have hm : d.hasState m = true := by
        rcases List.mem_cons.1 hmem with rfl | hmem
        · rw [← he.source_name]
          exact SortedSet.has_of_mem he.source_mem
        · obtain ⟨s, hs, rfl⟩ := SortedSet.has_iff.1 ((he.has_targets m).2 hmem)
          exact SortedSet.has_of_mem (he.targets_mem s hs)
      simp [hm]
    rw [hadd, hknown]
    rfl
  · rw [hadd, List.find?_cons_of_pos (by simp [hn])]
    rfl
  · have hunknown : (n :: (before ++ m :: after)).find? (fun k => !d.hasState k) = some m := by
      refine List.find?_eq_some_iff_append.2 ⟨by simp [hm], n :: before, after, rfl, fun k hk => ?_⟩
      rcases List.mem_cons.1 hk with rfl | hk
      · simp [hn]
      · simp [hbefore k hk]
    rw [hadd, hunknown]
    rfl

/-! ## What is registered -/

/-- The end names are names of states of the draft. -/
def EndsKnown (d : Draft κ) : Prop := ∀ n, d.endNames.has n = true → d.hasState n = true

theorem endsKnown_empty : (∅ : Draft κ).EndsKnown := fun _ hn => nomatch hn

theorem EndsKnown.call {d d' : Draft κ} (h : d.EndsKnown) {c : Call κ} (hcall : d.call c = .ok d') :
    d'.EndsKnown := by
  cases c with
  | addState s =>
    rcases d.addState_cases s with ⟨-, hadd⟩ | ⟨-, hadd⟩
    · obtain rfl := Except.ok.inj (hadd.symm.trans hcall)
      intro n hn
      have hkept : d.states.has n = true := h n hn
      simp [hasState, hkept]
    · cases hadd.symm.trans hcall
  | addEnd m =>
    rcases d.addEnd_cases m with ⟨hm, hadd⟩ | ⟨-, hadd⟩
    · obtain rfl := Except.ok.inj (hadd.symm.trans hcall)
      intro n hn
      rw [SortedSet.has_insert, Bool.or_eq_true] at hn
      rcases hn with hn | hn
      · exact h n hn
      · exact beq_iff_eq.1 hn ▸ hm
    · cases hadd.symm.trans hcall
  | setStart n =>
    rcases d.setStart_cases n with ⟨s, -, -, hset⟩ | ⟨-, hset⟩
    · obtain rfl := Except.ok.inj (hset.symm.trans hcall)
      exact h
    · cases hset.symm.trans hcall
  | setError n =>
    rcases d.setError_cases n with ⟨s, -, -, hset⟩ | ⟨-, hset⟩
    · obtain rfl := Except.ok.inj (hset.symm.trans hcall)
      exact h
    · cases hset.symm.trans hcall
  | addTransition n on ns =>
    rcases d.addTransition_cases n on ns with ⟨e, -, hadd⟩ | ⟨-, hadd⟩ | ⟨-, -, m, -, -, -, -, hadd⟩
    · obtain rfl := Except.ok.inj (hadd.symm.trans hcall)
      exact h
    · cases hadd.symm.trans hcall
    · cases hadd.symm.trans hcall
  | clear =>
    obtain rfl := Except.ok.inj hcall
    exact endsKnown_empty

theorem EndsKnown.after {d : Draft κ} (h : d.EndsKnown) (l : List (Call κ)) :
    (d.after l).EndsKnown :=
  after_invariant (fun h hc => h.call hc) h l

/-- What is among the states of a draft is registered there. -/
theorem state?_of_mem {d : Draft κ} {s : State} (h : s ∈ d.states) : d.state? s.name = some s :=
  SortedSet.find?_eq_some_iff.2 ⟨h, rfl⟩

/-! ## What is built -/

/-- A build fails for a start state that is missing, and then for an error state. -/
theorem build_eq_error_iff {d : Draft κ} {x : BuildError} :
    d.build = .error x ↔ (d.start = none ∧ x = .missingStartState) ∨
      (d.start ≠ none ∧ d.error = none ∧ x = .missingErrorState) := by
  unfold build
  cases d.start with
  | none => simp [eq_comm]
  | some s =>
    cases d.error with
    | none => simp [eq_comm]
    | some e => simp

/-- An automaton that is built has states of the draft, and so one instance of each name. -/
theorem Sound.mem_of_build {d : Draft κ} (h : d.Sound) {a : Automaton κ} (ha : d.build = .ok a)
    {x : State} (hx : x ∈ a.start :: a.error :: a.table.instances) : x ∈ d.states := by
  obtain ⟨s, e, hs, he, rfl⟩ := build_eq_ok_iff.1 ha
  have hstart : s ∈ d.states := h.start s hs
  have herror : e ∈ d.states := h.error e he
  rcases List.mem_cons.1 hx with rfl | hx
  · exact hstart
  rcases List.mem_cons.1 hx with rfl | hx
  · exact herror
  exact (Automaton.shared_of_subset rfl hstart herror h.transitions).2 x hx

theorem Sound.state?_of_build {d : Draft κ} (h : d.Sound) {a : Automaton κ} (ha : d.build = .ok a)
    {n : String} {s : State} (hs : a.state? n = some s) : d.state? n = some s := by
  obtain ⟨hmem, rfl⟩ := SortedSet.find?_eq_some_iff.1 hs
  refine state?_of_mem (h.mem_of_build ha ?_)
  rcases Automaton.mem_states hmem with hmem | rfl | rfl
  · simp [Table.mem_instances, hmem]
  · simp
  · simp

/-- **A draft refers to what is registered in it, and a refused call does not touch it.** Calls were
made on a draft that is kept, whatever they answered: `d` is what has become of it.

A call that is taken makes of `d` what `Draft.call` yields. One that is refused leaves it as it is,
although a transition looks up its targets one after another. A transition is refused exactly if a
name is unknown, and then for the first such name, the source before the targets.

Each state in an entry, in the start slot or in the error slot is the instance registered under its
name, and each end name is registered. So an automaton that is built has at most one instance of
each name, that of the draft, and finds no other. A build is refused only for a start state that is
not set, or else for an error state that is not set. -/
theorem performed_integrity (calls : List (Call κ)) :
    let d := (∅ : Draft κ).performed calls
    (∀ c, d.perform c = match d.call c with
      | .ok d' => (.ok (), d')
      | .error x => (.error x, d)) ∧
    (∀ c x, (d.perform c).1 = .error x → (d.perform c).2 = d) ∧
    (∀ n on ns, (d.perform (.addTransition n on ns)).1 =
      match (n :: ns).find? fun m => !d.hasState m with
      | some m => .error (.unknownState m)
      | none => .ok ()) ∧
    (∀ e ∈ d.transitions.entries, ∀ s, s = e.source ∨ s ∈ e.targets → d.state? s.name = some s) ∧
    (∀ s, d.start = some s ∨ d.error = some s → d.state? s.name = some s) ∧
    (∀ n, d.endNames.has n = true → d.hasState n = true) ∧
    (∀ a, d.build = .ok a →
      (∀ x ∈ a.start :: a.error :: a.table.instances, d.state? x.name = some x) ∧
      (∀ x ∈ a.start :: a.error :: a.table.instances,
        ∀ y ∈ a.start :: a.error :: a.table.instances, x.name = y.name → x = y) ∧
      ∀ n s, a.state? n = some s → d.state? n = some s) ∧
    ∀ x, d.build = .error x ↔ (d.start = none ∧ x = .missingStartState) ∨
      (d.start ≠ none ∧ d.error = none ∧ x = .missingErrorState) := by
  intro d
  have hd : d = (∅ : Draft κ).after calls := performed_eq_after ∅ calls
  have hsound : d.Sound := hd ▸ sound_empty.after calls
  have hends : d.EndsKnown := hd ▸ endsKnown_empty.after calls
  refine ⟨d.perform_eq, fun c x => perform_snd_of_error, d.perform_addTransition,
    fun e he s hs => ?_, fun s hs => ?_, hends,
    fun a ha => ⟨fun x hx => ?_, fun x hx y hy hname => ?_, fun n s => hsound.state?_of_build ha⟩,
    fun x => build_eq_error_iff⟩
  · refine state?_of_mem (hsound.transitions s ?_)
    exact Transitions.mem_states.2 ⟨e, he, Transitions.mem_entry_states.2 hs⟩
  · rcases hs with hs | hs
    · exact state?_of_mem (hsound.start s hs)
    · exact state?_of_mem (hsound.error s hs)
  · exact state?_of_mem (hsound.mem_of_build ha hx)
  · exact SortedSet.eq_of_mem_of_name_eq (hsound.mem_of_build ha hx) (hsound.mem_of_build ha hy)
      hname

/-- A door is drafted after a draft of it was cleared away: what is built refers to the instances
that were added since. A transition with an unknown target between known ones is refused. -/
theorem performed_integrity_door :
    let calls : List (Call Symbol) := [.addState ⟨"open", 0⟩, .setStart "open",
      .addTransition "open" (.text "push") ["open"], .clear, .addState ⟨"open", 1⟩,
      .addState ⟨"shut", 2⟩, .addState ⟨"open", 3⟩, .addTransition "open" (.text "push") ["shut"],
      .setStart "open", .setError "shut", .addEnd "shut"]
    let d := (∅ : Draft Symbol).performed calls
    let c : Call Symbol := .addTransition "open" (.text "push") ["open", "ajar", "lost"]
    ∃ a, d.build = .ok a ∧ (d.perform c).1 = .error (.unknownState "ajar") ∧ (d.perform c).2 = d ∧
      d.transitions.size = 1 ∧ a.state? "open" = some ⟨"open", 1⟩ ∧
      d.state? "open" = some ⟨"open", 1⟩ ∧
      ∀ x ∈ a.start :: a.error :: a.table.instances, d.state? x.name = some x := by
  intro calls d c
  obtain ⟨-, hkept, hanswer, -, -, -, hbuilt, -⟩ := performed_integrity calls
  obtain ⟨a, ha, hopen⟩ : ∃ a, d.build = .ok a ∧ a.state? "open" = some ⟨"open", 1⟩ :=
    ⟨_, rfl, by decide +kernel⟩
  have hrefused : (d.perform c).1 = .error (.unknownState "ajar") :=
    hanswer "open" (.text "push") ["open", "ajar", "lost"]
  obtain ⟨hown, -, hfound⟩ := hbuilt a ha
  exact ⟨a, ha, hrefused, hkept c _ hrefused, rfl, hopen, hfound "open" _ hopen, hown⟩

end Draft

end HookedAutomata
