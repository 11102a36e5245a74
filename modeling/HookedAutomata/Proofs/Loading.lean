import Mathlib.Data.List.Forall2
import HookedAutomata.Record.Load
import HookedAutomata.Proofs.Checking
import HookedAutomata.Proofs.Drafts
import HookedAutomata.Proofs.Wirings

/-!
# Loading replays what was checked

A record is checked first and then replayed on a draft, which makes checks of its own. Nothing that
the replay asks for can be missing once the record is valid: the names it looks up are those of the
states it added, and the registries have all tags and callbacks. What is left to fail are payloads.

The replay goes in stages, and each stage has its statement.

* `Draft.Stocked` is the invariant while states are added: the draft has a fresh instance for each
  record so far, with the hooks that the registry has for it.
* `foldlM_addRecordedTransition` adds all transitions, if their triggers can be rebuilt.
* `AutomatonRecord.load_of_accepted` and `AutomatonRecord.load_of_rejected` put the stages together:
  the first says what is loaded (`AutomatonRecord.Replayed`), the second why nothing is.

The main statement is `AutomatonRecord.load_outcome`.
-/

namespace HookedAutomata

/-! ## What registries find -/

namespace CallbackRegistry

/-- The callback of a name, if the registry has one. -/
def get? (g : CallbackRegistry) (n : String) : Option Callback :=
  if n = noCallback then none else g.callbacks.find? n

theorem resolve_of_contains {g : CallbackRegistry} {n : String} (h : g.contains n = true) :
    g.resolve n = .ok (g.get? n) := by
  unfold resolve get?
  split
  · rfl
  · rename_i hn
    cases hfind : g.callbacks.find? n with
    | some c => rfl
    | none => simp [contains, SortedSet.has, hfind, hn] at h

theorem resolveOptional_of_contains {g : CallbackRegistry} {n? : Option String}
    (h : ∀ n ∈ n?, g.contains n = true) : g.resolveOptional n? = .ok (n?.bind g.get?) := by
  cases n? with
  | none => rfl
  | some n => exact resolve_of_contains (h n rfl)

end CallbackRegistry

namespace StateRecord

/-- The hooks of a recorded state, with the callbacks that the registry has. -/
def hooks (r : StateRecord) (g : CallbackRegistry) : Hooks :=
  ⟨g.get? r.entry, r.exit.bind g.get?, r.stay.bind g.get?⟩

/-- The callbacks of a recorded state are resolved, if their names are known. -/
theorem resolve_of_contains {r : StateRecord} {g : CallbackRegistry}
    (h : ∀ n ∈ r.callbackNames, g.contains n = true) :
    g.resolve r.entry = .ok (r.hooks g).entry ∧ g.resolveOptional r.exit = .ok (r.hooks g).exit ∧
      g.resolveOptional r.stay = .ok (r.hooks g).stay := by
  -- the name that stands for no callback is not checked, and is contained in any registry
  have hentry : g.contains r.entry = true := by
    by_cases hn : r.entry = noCallback
    · simp [CallbackRegistry.contains, hn]
    · exact h _ (mem_callbackNames.2 (.inl ⟨hn, rfl⟩))
  have hexit : ∀ n ∈ r.exit, g.contains n = true :=
    fun n hn => h n (mem_callbackNames.2 (.inr (.inl hn)))
  have hstay : ∀ n ∈ r.stay, g.contains n = true :=
    fun n hn => h n (mem_callbackNames.2 (.inr (.inr hn)))
  exact ⟨CallbackRegistry.resolve_of_contains hentry,
    CallbackRegistry.resolveOptional_of_contains hexit,
    CallbackRegistry.resolveOptional_of_contains hstay⟩

/-- A state whose callbacks are known is made afresh. -/
theorem load_of_contains {r : StateRecord} {g : CallbackRegistry}
    (h : ∀ n ∈ r.callbackNames, g.contains n = true) (w : Wiring) :
    r.load g w = .ok (w.create r.name (r.hooks g)) := by
  obtain ⟨hentry, hexit, hstay⟩ := resolve_of_contains h
  unfold load
  rw [hentry, hexit, hstay]
  rfl

end StateRecord

namespace TriggerRegistry

variable {κ : Type}

/-- The registry rebuilds the recorded trigger as `on`. -/
def Accepts (g : TriggerRegistry κ) (r : TriggerRecord) (on : Trigger κ) : Prop :=
  ∃ b, g.rebuilders.find? r.tag = some b ∧ b.rebuild r.payload = .ok on

/-- The registry knows the tag of the recorded trigger and refuses its payload. -/
def Rejects (g : TriggerRegistry κ) (r : TriggerRecord) (reason : String) : Prop :=
  ∃ b, g.rebuilders.find? r.tag = some b ∧ b.rebuild r.payload = .error reason

theorem resolve_of_accepts {g : TriggerRegistry κ} {r : TriggerRecord} {on : Trigger κ}
    (h : g.Accepts r on) : g.resolve r = .ok on := by
  obtain ⟨b, hb, hon⟩ := h
  unfold resolve
  rw [hb]
  show (b.rebuild r.payload).mapError _ = _
  rw [hon]
  rfl

theorem resolve_of_rejects {g : TriggerRegistry κ} {r : TriggerRecord} {reason : String}
    (h : g.Rejects r reason) : g.resolve r = .error (.invalidTrigger r.tag reason) := by
  obtain ⟨b, hb, hreason⟩ := h
  unfold resolve
  rw [hb]
  show (b.rebuild r.payload).mapError _ = _
  rw [hreason]
  rfl

theorem Accepts.not_rejects {g : TriggerRegistry κ} {r : TriggerRecord} {on : Trigger κ}
    (h : g.Accepts r on) (reason : String) : ¬ g.Rejects r reason := by
  intro hreject
  have hboth := resolve_of_rejects hreject
  rw [resolve_of_accepts h] at hboth
  cases hboth

/-- A trigger whose tag is known is accepted or rejected. -/
theorem accepts_or_rejects {g : TriggerRegistry κ} {r : TriggerRecord}
    (h : g.contains r.tag = true) : (∃ on, g.Accepts r on) ∨ ∃ reason, g.Rejects r reason := by
  obtain ⟨b, hb⟩ := Option.isSome_iff_exists.1 h
  cases hrebuild : b.rebuild r.payload with
  | ok on => exact .inl ⟨on, b, hb, hrebuild⟩
  | error reason => exact .inr ⟨reason, b, hb, hrebuild⟩

theorem accepts_of_resolve {g : TriggerRegistry κ} {r : TriggerRecord} {on : Trigger κ}
    (h : g.resolve r = .ok on) : g.Accepts r on := by
  unfold resolve at h
  cases hb : g.rebuilders.find? r.tag with
  | none => simp [hb] at h
  | some b =>
    rw [hb] at h
    refine ⟨b, hb, ?_⟩
    cases hrebuild : b.rebuild r.payload with
    | ok on' => simpa [hrebuild, Except.mapError] using h
    | error reason => simp [hrebuild, Except.mapError] at h

end TriggerRegistry

variable {κ : Type} [CustomTrigger κ]

/-! ## Adding the states -/

namespace Draft

/-- The draft has a fresh instance for each of the listed records, and nothing else. -/
structure Stocked (g : CallbackRegistry) (v w : Wiring) (l : List StateRecord) (d : Draft κ) :
    Prop where
  grown : v.Extends w
  names : ∀ n, d.hasState n = true ↔ n ∈ l.map (·.name)
  fresh : ∀ s ∈ d.states, v.created ≤ s.instanceId ∧ s.instanceId < w.created
  hooks : ∀ r ∈ l, ∃ s ∈ d.states, s.name = r.name ∧ w.hooksOf s = r.hooks g
  rest : d = { states := d.states }

theorem stocked_empty (g : CallbackRegistry) (v : Wiring) : (∅ : Draft κ).Stocked g v v [] where
  grown := .refl v
  names n := by simp [hasState, show (∅ : Draft κ).states = ∅ from rfl]
  fresh s hs := absurd hs (SortedSet.not_mem_empty s)
  hooks r hr := absurd hr List.not_mem_nil
  rest := rfl

/-- A record with known callbacks and a new name is stocked. -/
theorem Stocked.addRecorded {g : CallbackRegistry} {v w : Wiring} {l : List StateRecord}
    {d : Draft κ} (h : d.Stocked g v w l) {r : StateRecord}
    (hcallbacks : ∀ n ∈ r.callbackNames, g.contains n = true) (hnew : r.name ∉ l.map (·.name)) :
    ∃ d' w', addRecorded g (d, w) r = .ok (d', w') ∧ d'.Stocked g v w' (l ++ [r]) := by
  have hload := StateRecord.load_of_contains hcallbacks w
  have hfree : d.hasState r.name = false := by
    rw [← Bool.not_eq_true, h.names]
    exact hnew
  have hgrown := w.extends_create r.name (r.hooks g)
  have hmade := w.hooksOf_create r.name (r.hooks g)
  -- the new instance stands apart from those before by its name
  have hstates : ∀ s, s ∈ d.states.insert (w.create r.name (r.hooks g)).1 ↔
      s ∈ d.states ∨ s = (w.create r.name (r.hooks g)).1 := by
    intro s
    rw [SortedSet.mem_insert]
    exact or_congr_right (and_iff_left hfree)
  refine ⟨{ d with states := d.states.insert (w.create r.name (r.hooks g)).1 },
    (w.create r.name (r.hooks g)).2, ?_, ?_⟩
  · unfold Draft.addRecorded
    rw [hload]
    show (do let d ← StoreError.ofBuild (d.addState (w.create r.name (r.hooks g)).1); _) = _
    rcases d.addState_cases (w.create r.name (r.hooks g)).1 with ⟨-, hadd⟩ | ⟨htaken, -⟩
    · rw [hadd]
      rfl
    · exact absurd (htaken.symm.trans hfree) (by decide)
  · refine ⟨h.grown.trans hgrown, fun n => ?_, fun s hs => ?_, fun q hq => ?_, ?_⟩
    · show (d.states.insert (w.create r.name (r.hooks g)).1).has n = true ↔ _
      have hnames : d.states.has n = true ↔ n ∈ l.map (·.name) := h.names n
      rw [SortedSet.has_insert, Bool.or_eq_true, hnames, List.map_append, List.mem_append, beq_iff_eq,
        List.map_singleton, List.mem_singleton]
      exact or_congr_right eq_comm
    · -- fresh instances have numbers from the first free one on
      rcases (hstates s).1 hs with hs | rfl
      · have hbefore := h.fresh s hs
        exact ⟨hbefore.1, Nat.lt_succ_of_lt hbefore.2⟩
      · exact ⟨h.grown.created, Nat.lt_succ_self _⟩
    · rcases List.mem_append.1 hq with hq | hq
      · obtain ⟨s, hs, hname, hhooks⟩ := h.hooks q hq
        refine ⟨s, (hstates s).2 (.inl hs), hname, ?_⟩
        rw [hgrown.hooks s (h.fresh s hs).2, hhooks]
      · rw [List.mem_singleton.1 hq]
        exact ⟨_, (hstates _).2 (.inr rfl), rfl, hmade⟩
    · rw [h.rest]

/-- Records with known callbacks and distinct names are stocked. Induction on those to come. -/
theorem Stocked.foldlM_addRecorded {g : CallbackRegistry} {v w : Wiring} {done l : List StateRecord}
    {d : Draft κ} (h : d.Stocked g v w done)
    (hcallbacks : ∀ r ∈ l, ∀ n ∈ r.callbackNames, g.contains n = true)
    (hdistinct : ((done ++ l).map (·.name)).Nodup) :
    ∃ d' w', l.foldlM (Draft.addRecorded g) (d, w) = .ok (d', w') ∧
      d'.Stocked g v w' (done ++ l) := by
  induction l generalizing done d w with
  | nil => exact ⟨d, w, rfl, by rwa [List.append_nil]⟩
  | cons r l ih =>
    have hnew : r.name ∉ done.map (·.name) := by
      rw [List.map_append, List.nodup_append] at hdistinct
      intro hmem
      exact hdistinct.2.2 _ hmem _ List.mem_cons_self rfl
    obtain ⟨d', w', hadd, hd'⟩ := h.addRecorded (hcallbacks r List.mem_cons_self) hnew
    -- the record just added counts among those done
    rw [List.append_cons] at hdistinct
    obtain ⟨d'', w'', hrest, hd''⟩ :=
      ih hd' (fun q hq => hcallbacks q (List.mem_cons_of_mem r hq)) hdistinct
    refine ⟨d'', w'', ?_, by rwa [List.append_cons]⟩
    rw [List.foldlM_cons, hadd]
    exact hrest

end Draft

namespace AutomatonRecord

/-- The states that are added: the listed ones, and the error state unless it is listed. -/
def allStates (r : AutomatonRecord) : List StateRecord :=
  if r.error.name ∈ r.states.map (·.name) then r.states else r.states ++ [r.error]

theorem mem_knownNames {r : AutomatonRecord} {n : String} :
    n ∈ r.knownNames ↔ n ∈ r.allStates.map (·.name) := by
  unfold knownNames allStates
  split
  · rename_i hlisted
    rw [List.mem_append, List.mem_singleton]
    constructor
    · rintro (h | rfl)
      · exact h
      · exact hlisted
    · exact .inl
  · rw [List.map_append, List.map_singleton]

end AutomatonRecord

/-! ## Adding the transitions -/

/-- An entry over the given states for a recorded transition, with its trigger rebuilt. -/
def TransitionRecord.Drawn (states : StateSet) (g : TriggerRegistry κ) (t : TransitionRecord)
    (e : Entry κ) : Prop :=
  ∃ on, g.Accepts t.trigger on ∧ e.Over states t.source on t.targets

namespace Draft

/-- Whether a draft has the states that a recorded transition refers to. -/
def Knows (d : Draft κ) (t : TransitionRecord) : Prop :=
  d.hasState t.source = true ∧ ∀ n ∈ t.targets, d.hasState n = true

/-- Transitions between known states are all added, if their triggers can be rebuilt. -/
theorem foldlM_addRecordedTransition {g : TriggerRegistry κ} {l : List TransitionRecord}
    {d : Draft κ} (hknown : ∀ t ∈ l, d.Knows t) (haccepted : ∀ t ∈ l, ∃ on, g.Accepts t.trigger on) :
    ∃ es, List.Forall₂ (TransitionRecord.Drawn d.states g) l es ∧
      l.foldlM (addRecordedTransition g) d =
        .ok { d with transitions := es.foldl Transitions.merge d.transitions } := by
  induction l generalizing d with
  | nil => exact ⟨[], .nil, rfl⟩
  | cons t l ih =>
    obtain ⟨hsource, htargets⟩ := hknown t List.mem_cons_self
    obtain ⟨on, hon⟩ := haccepted t List.mem_cons_self
    obtain ⟨e, he, hadd⟩ := addTransition_of_has hsource htargets on
    have hfirst : addRecordedTransition g d t =
        .ok { d with transitions := d.transitions.merge e } := by
      unfold addRecordedTransition
      rw [TriggerRegistry.resolve_of_accepts hon]
      show StoreError.ofBuild (d.addTransition t.source on t.targets) = _
      rw [hadd]
      rfl
    -- adding a transition leaves the states alone, so the rest is known as before
    have hrest : ∀ u ∈ l, Knows { d with transitions := d.transitions.merge e } u :=
      fun u hu => hknown u (List.mem_cons_of_mem t hu)
    obtain ⟨es, hes, hfold⟩ := ih hrest fun u hu => haccepted u (List.mem_cons_of_mem t hu)
    refine ⟨e :: es, .cons ⟨on, hon, he⟩ hes, ?_⟩
    rw [List.foldlM_cons, hfirst]
    exact hfold

/-- The first transition whose payload is rejected ends the replay. -/
theorem foldlM_addRecordedTransition_of_rejects {g : TriggerRegistry κ}
    {before after : List TransitionRecord} {t : TransitionRecord} {reason : String} {d : Draft κ}
    (hknown : ∀ u ∈ before, d.Knows u) (haccepted : ∀ u ∈ before, ∃ on, g.Accepts u.trigger on)
    (hreject : g.Rejects t.trigger reason) :
    (before ++ t :: after).foldlM (addRecordedTransition g) d =
      .error (.invalidTrigger t.trigger.tag reason) := by
  obtain ⟨es, -, hfold⟩ := foldlM_addRecordedTransition hknown haccepted
  rw [List.foldlM_append, hfold]
  show (t :: after).foldlM (addRecordedTransition g) _ = _
  rw [List.foldlM_cons]
  unfold addRecordedTransition
  rw [TriggerRegistry.resolve_of_rejects hreject]
  rfl

end Draft

/-! ## The whole replay -/

namespace Draft

theorem foldlM_addEnd {d : Draft κ} {l : List String} (hknown : ∀ n ∈ l, d.hasState n = true) :
    l.foldlM addEnd d = .ok { d with endNames := l.foldl SortedSet.insert d.endNames } := by
  induction l generalizing d with
  | nil => rfl
  | cons n l ih =>
    have hrest : ∀ m ∈ l, hasState { d with endNames := d.endNames.insert n } m = true :=
      fun m hm => hknown m (List.mem_cons_of_mem n hm)
    rw [List.foldlM_cons]
    rcases d.addEnd_cases n with ⟨-, hadd⟩ | ⟨hn, -⟩
    · rw [hadd]
      exact ih hrest
    · have hhas := hknown n List.mem_cons_self
      rw [hn] at hhas
      exact absurd hhas (by decide)

/-- With a start and an error state that are known, the draft is built. -/
theorem build_of_has {d : Draft κ} {n m : String} (hn : d.hasState n = true)
    (hm : d.hasState m = true) :
    ∃ start ∈ d.states, ∃ error ∈ d.states, start.name = n ∧ error.name = m ∧
      (do (← (← d.setStart n).setError m).build) =
        .ok (.assemble start error d.endNames (.ofTransitions d.transitions)) := by
  rcases d.setStart_cases n with ⟨start, hstart, rfl, hset⟩ | ⟨hnone, -⟩
  · rw [hset]
    rcases setError_cases { d with start := some start } m with
      ⟨error, herror, rfl, hset'⟩ | ⟨hnone, -⟩
    · refine ⟨start, hstart, error, herror, rfl, rfl, ?_⟩
      show (do (← setError { d with start := some start } error.name).build) = _
      rw [hset']
      rfl
    · exact absurd (hm.symm.trans hnone) (by decide)
  · exact absurd (hn.symm.trans hnone) (by decide)

end Draft

namespace AutomatonRecord

/-- The states and end names of a valid record are always added. What is left are the transitions
and the choice of the start and the error state. -/
theorem load_of_valid {r : AutomatonRecord} {g : Registries κ} (h : r.Valid g) (v : Wiring) :
    ∃ (d : Draft κ) (w : Wiring), d.Stocked g.callbacks v w r.allStates ∧ r.load g v = (do
      let d ← r.transitions.foldlM (Draft.addRecordedTransition g.triggers)
        { d with endNames := .ofList r.ends }
      let a ← StoreError.ofBuild do (← (← d.setStart r.start).setError r.error.name).build
      return (a, w)) := by
  have hcallbacks : ∀ s ∈ r.states, ∀ n ∈ s.callbackNames, g.callbacks.contains n = true :=
    fun s hs => h.callback s (List.mem_append_left _ hs)
  have hempty : (∅ : Draft κ).Stocked g.callbacks v v [] := Draft.stocked_empty g.callbacks v
  obtain ⟨d, w, hadd, hd⟩ := hempty.foldlM_addRecorded hcallbacks h.distinct
  rw [List.nil_append] at hd
  -- with the error state added too, the end names are found
  have hends : ∀ (d : Draft κ) (w : Wiring), d.Stocked g.callbacks v w r.allStates →
      r.ends.foldlM Draft.addEnd d = .ok { d with endNames := .ofList r.ends } := by
    intro d w hd
    have hknown : ∀ n ∈ r.ends, d.hasState n = true :=
      fun n hn => (hd.names n).2 (mem_knownNames.1 (h.ends n hn))
    rw [Draft.foldlM_addEnd hknown, show d.endNames = ∅ by rw [hd.rest]]
    rfl
  unfold load
  rw [violations_eq_nil_iff.2 h, hadd]
  -- the error state is added only if no state of its name was
  by_cases hlisted : r.error.name ∈ r.states.map (·.name)
  · have hall : d.Stocked g.callbacks v w r.allStates := by rwa [allStates, if_pos hlisted]
    refine ⟨d, w, hall, ?_⟩
    show (if d.hasState r.error.name = true then _ else _) = _
    rw [if_pos ((hd.names _).2 hlisted)]
    show (do let d ← StoreError.ofBuild (r.ends.foldlM Draft.addEnd d); _) = _
    rw [hends d w hall]
    rfl
  · have herror : ∀ n ∈ r.error.callbackNames, g.callbacks.contains n = true :=
      h.callback r.error (by simp)
    obtain ⟨d', w', hadd', hd'⟩ := hd.addRecorded herror hlisted
    have hall : d'.Stocked g.callbacks v w' r.allStates := by rwa [allStates, if_neg hlisted]
    refine ⟨d', w', hall, ?_⟩
    show (if d.hasState r.error.name = true then _ else _) = _
    rw [if_neg fun hhas => hlisted ((hd.names _).1 hhas), hadd']
    show (do let d ← StoreError.ofBuild (r.ends.foldlM Draft.addEnd d'); _) = _
    rw [hends d' w' hall]
    rfl

/-- What is loaded over the wiring `v`: fresh instances of the states of the record, one for each
name, and an automaton over them that has an entry for each transition, merged in their order. -/
structure Replayed (r : AutomatonRecord) (g : Registries κ) (v w : Wiring) (states : StateSet)
    (es : List (Entry κ)) (a : Automaton κ) : Prop where
  grown : v.Extends w
  names : ∀ n, states.has n = true ↔ n ∈ r.knownNames
  fresh : ∀ s ∈ states, v.created ≤ s.instanceId ∧ s.instanceId < w.created
  hooks : ∀ q ∈ r.allStates, ∃ s ∈ states, s.name = q.name ∧ w.hooksOf s = q.hooks g.callbacks
  entries : List.Forall₂ (TransitionRecord.Drawn states g.triggers) r.transitions es
  start_mem : a.start ∈ states
  start_name : a.start.name = r.start
  error_mem : a.error ∈ states
  error_name : a.error.name = r.error.name
  ends : a.endNames = .ofList r.ends
  table : a.table = ((Table.ofTransitions (es.foldl Transitions.merge ∅)).pin a.start).pin a.error

theorem Valid.knows_states {r : AutomatonRecord} {g : Registries κ} (h : r.Valid g)
    {v w : Wiring} {d : Draft κ} (hd : d.Stocked g.callbacks v w r.allStates) :
    (∀ t ∈ r.transitions, d.Knows t) ∧ d.hasState r.start = true ∧
      d.hasState r.error.name = true := by
  have hknown : ∀ n ∈ r.knownNames, d.hasState n = true :=
    fun n hn => (hd.names n).2 (mem_knownNames.1 hn)
  refine ⟨fun t ht => ⟨hknown _ (h.source t ht), fun n hn => hknown n (h.target t ht n hn)⟩,
    hknown _ h.start, hknown _ ?_⟩
  simp [knownNames]

/-- A valid record is loaded if all its triggers can be rebuilt. -/
theorem load_of_accepted {r : AutomatonRecord} {g : Registries κ} (h : r.Valid g)
    (haccepted : ∀ t ∈ r.transitions, ∃ on, g.triggers.Accepts t.trigger on) (v : Wiring) :
    ∃ a w states es, r.load g v = .ok (a, w) ∧ r.Replayed g v w states es a := by
  obtain ⟨d, w, hd, hload⟩ := load_of_valid h v
  obtain ⟨hknown, hstart, herror⟩ := h.knows_states hd
  have hknown' : ∀ t ∈ r.transitions, Draft.Knows { d with endNames := .ofList r.ends } t := hknown
  obtain ⟨es, hes, hfold⟩ := Draft.foldlM_addRecordedTransition hknown' haccepted
  have hbuild := Draft.build_of_has (d := { d with
    endNames := .ofList r.ends, transitions := es.foldl Transitions.merge d.transitions })
    hstart herror
  obtain ⟨start, hstart, error, herror, hsname, hename, hbuild⟩ := hbuild
  refine ⟨.assemble start error (.ofList r.ends)
      (.ofTransitions (es.foldl Transitions.merge d.transitions)), w, d.states, es, ?_, ?_⟩
  · rw [hload, hfold]
    show (do let a ← StoreError.ofBuild _; _) = _
    rw [hbuild]
    rfl
  · refine ⟨hd.grown, fun n => (hd.names n).trans mem_knownNames.symm, hd.fresh, hd.hooks, hes,
      hstart, hsname, herror, hename, rfl, ?_⟩
    rw [show d.transitions = ∅ by rw [hd.rest]]
    rfl

/-- A valid record is refused for the first trigger that cannot be rebuilt. -/
theorem load_of_rejected {r : AutomatonRecord} {g : Registries κ} (h : r.Valid g)
    {before after : List TransitionRecord} {t : TransitionRecord} {reason : String}
    (hsplit : r.transitions = before ++ t :: after)
    (haccepted : ∀ u ∈ before, ∃ on, g.triggers.Accepts u.trigger on)
    (hreject : g.triggers.Rejects t.trigger reason) (v : Wiring) :
    r.load g v = .error (.invalidTrigger t.trigger.tag reason) := by
  obtain ⟨d, w, hd, hload⟩ := load_of_valid h v
  have hknown : ∀ u ∈ before, Draft.Knows { d with endNames := .ofList r.ends } u := by
    intro u hu
    exact (h.knows_states hd).1 u (by simp [hsplit, hu])
  rw [hload, hsplit, Draft.foldlM_addRecordedTransition_of_rejects hknown haccepted hreject]
  rfl

/-- A record with faults is refused with all of them. -/
theorem load_of_violations {r : AutomatonRecord} {g : Registries κ} (h : r.violations g ≠ [])
    (v : Wiring) : r.load g v = .error (.invalidRecord (r.violations g)) := by
  have hisEmpty : (r.violations g).isEmpty = false := by simpa using h
  unfold load
  rw [hisEmpty]
  rfl

omit [CustomTrigger κ] in
/-- All triggers of known tags can be rebuilt, or there is a first that cannot. -/
theorem accepted_or_first_rejected {g : TriggerRegistry κ} {l : List TransitionRecord}
    (htag : ∀ t ∈ l, g.contains t.trigger.tag = true) :
    (∀ t ∈ l, ∃ on, g.Accepts t.trigger on) ∨
      ∃ before t after reason, l = before ++ t :: after ∧
        (∀ u ∈ before, ∃ on, g.Accepts u.trigger on) ∧ g.Rejects t.trigger reason := by
  induction l with
  | nil => exact .inl fun t ht => absurd ht List.not_mem_nil
  | cons t l ih =>
    rcases TriggerRegistry.accepts_or_rejects (htag t List.mem_cons_self) with haccept | ⟨reason, hreject⟩
    · have hcons : ∀ m : List TransitionRecord, (∀ u ∈ m, ∃ on, g.Accepts u.trigger on) →
          ∀ u ∈ t :: m, ∃ on, g.Accepts u.trigger on := by
        intro m hm u hu
        rcases List.mem_cons.1 hu with rfl | hu
        · exact haccept
        · exact hm u hu
      rcases ih fun u hu => htag u (List.mem_cons_of_mem t hu) with
        hrest | ⟨before, u, after, reason, rfl, hbefore, hreject⟩
      · exact .inl (hcons l hrest)
      · exact .inr ⟨t :: before, u, after, reason, rfl, hcons before hbefore, hreject⟩
    · exact .inr ⟨[], t, l, reason, rfl, fun u hu => absurd hu List.not_mem_nil, hreject⟩

/-- What is loaded was found valid and then replayed. -/
theorem replayed_of_load {r : AutomatonRecord} {g : Registries κ} {v w : Wiring} {a : Automaton κ}
    (h : r.load g v = .ok (a, w)) :
    r.Valid g ∧ ∃ states es, r.Replayed g v w states es a := by
  by_cases hfaults : r.violations g = []
  · have hvalid : r.Valid g := violations_eq_nil_iff.1 hfaults
    rcases accepted_or_first_rejected hvalid.tag with
      haccepted | ⟨before, t, after, reason, hsplit, hbefore, hreject⟩
    · obtain ⟨a', w', states, es, hload, hreplayed⟩ := load_of_accepted hvalid haccepted v
      have hsame : (a', w') = (a, w) := Except.ok.inj (hload.symm.trans h)
      cases hsame
      exact ⟨hvalid, states, es, hreplayed⟩
    · rw [load_of_rejected hvalid hsplit hbefore hreject v] at h
      cases h
  · rw [load_of_violations hfaults v] at h
    cases h

/-- **Checking guards the replay.** A record with faults is refused with all of them, in the order
of the checks. A record without faults is refused for the first of its transitions whose payload is
rejected, if there is one, and is loaded if there is none. Nothing else can happen. -/
theorem load_outcome (r : AutomatonRecord) (g : Registries κ) (v : Wiring) :
    (∀ faults, r.load g v = .error (.invalidRecord faults) ↔
      r.violations g = faults ∧ faults ≠ []) ∧
    (∀ tag reason, r.load g v = .error (.invalidTrigger tag reason) ↔
      r.violations g = [] ∧ ∃ before t after, r.transitions = before ++ t :: after ∧
        (∀ u ∈ before, ∃ on, g.triggers.Accepts u.trigger on) ∧
        t.trigger.tag = tag ∧ g.triggers.Rejects t.trigger reason) ∧
    ((∃ a w, r.load g v = .ok (a, w)) ↔
      r.violations g = [] ∧ ∀ t ∈ r.transitions, ∃ on, g.triggers.Accepts t.trigger on) ∧
    ∀ e, r.load g v = .error e →
      (∃ faults, e = .invalidRecord faults) ∨ ∃ tag reason, e = .invalidTrigger tag reason := by
  by_cases hfaults : r.violations g = []
  · have hvalid := violations_eq_nil_iff.1 hfaults
    rcases accepted_or_first_rejected hvalid.tag with
      haccepted | ⟨before, t, after, reason, hsplit, hbefore, hreject⟩
    · -- loaded: no transition is rejected, so neither refusal can be claimed of the record
      obtain ⟨a, w, states, es, hload, -⟩ := load_of_accepted hvalid haccepted v
      have hnone : ∀ t ∈ r.transitions, ∀ reason, ¬ g.triggers.Rejects t.trigger reason := by
        intro t ht
        obtain ⟨on, hon⟩ := haccepted t ht
        exact hon.not_rejects
      rw [hload, hfaults]
      refine ⟨fun faults => ⟨nofun, fun h => absurd h.1.symm h.2⟩, fun tag reason => ⟨nofun, ?_⟩,
        ⟨fun _ => ⟨rfl, haccepted⟩, fun _ => ⟨a, w, rfl⟩⟩, nofun⟩
      rintro ⟨-, before, t, after, hsplit, -, -, hreject⟩
      exact absurd hreject (hnone t (by simp [hsplit]) reason)
    · -- refused for a payload: whoever names a first rejected transition names the same refusal
      have hload := load_of_rejected hvalid hsplit hbefore hreject v
      rw [hload, hfaults]
      refine ⟨fun faults => ⟨nofun, fun h => absurd h.1.symm h.2⟩, fun tag reason' => ⟨?_, ?_⟩,
        ⟨nofun, ?_⟩, fun e he => .inr ⟨_, _, (Except.error.inj he).symm⟩⟩
      · intro h
        cases h
        exact ⟨rfl, before, t, after, hsplit, hbefore, rfl, hreject⟩
      · rintro ⟨-, before', t', after', hsplit', hbefore', rfl, hreject'⟩
        rw [← load_of_rejected hvalid hsplit' hbefore' hreject' v, hload]
      · rintro ⟨-, haccepted⟩
        obtain ⟨on, hon⟩ := haccepted t (by simp [hsplit])
        exact absurd hreject (hon.not_rejects reason)
  · rw [load_of_violations hfaults v]
    refine ⟨fun faults => ⟨?_, ?_⟩, fun tag reason => ⟨nofun, fun h => absurd h.1 hfaults⟩,
      ⟨nofun, fun h => absurd h.1 hfaults⟩, fun e he => .inl ⟨_, (Except.error.inj he).symm⟩⟩
    · intro h
      cases h
      exact ⟨rfl, hfaults⟩
    · rintro ⟨rfl, -⟩
      rfl

end AutomatonRecord

end HookedAutomata
