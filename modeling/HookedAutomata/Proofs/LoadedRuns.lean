import HookedAutomata.Proofs.RecordMeaning
import HookedAutomata.Proofs.SavedHooks

/-!
# Which runs are loaded, and as what

A record of a run can be wrong in three ways, and they are found in this order: its version is not
the supported one, its automaton is not loaded, or it names a state that the automaton does not
have. The states that an automaton has are those that occur in its record
(`AutomatonRecord.occurring`), and one that is merely listed is not among them. Of the names in
question the first is reported, as the record has them: the current states first, then the snapshots
(`RunRecord.firstUnknown?`).

A record that is not wrong in these ways is loaded (`RunRecord.Restores`). Names are then in order
and there once each (`inOrder`), however the record has them, and empty snapshots are dropped.

The main statement is `RunRecord.load_verdict`.
-/

namespace HookedAutomata

/-! ## The first value that fails -/

theorem mapM_eq_error {ε α β : Type} {f : α → Except ε β} {before after : List α} {a : α} {e : ε}
    (hbefore : ∀ x ∈ before, ∃ b, f x = .ok b) (ha : f a = .error e) :
    (before ++ a :: after).mapM f = .error e := by
  induction before with
  | nil =>
    rw [List.nil_append, List.mapM_cons, ha]
    rfl
  | cons x before ih =>
    obtain ⟨b, hb⟩ := hbefore x List.mem_cons_self
    rw [List.cons_append, List.mapM_cons, hb]
    show (do let bs ← (before ++ a :: after).mapM f; pure (b :: bs)) = _
    rw [ih fun y hy => hbefore y (List.mem_cons_of_mem x hy)]
    rfl

variable {κ : Type} [CustomTrigger κ]

namespace Automaton

/-- Whether a name is not that of a state. -/
def lacks (a : Automaton κ) (n : String) : Bool := !a.states.has n

variable {a : Automaton κ} {n : String}

theorem resolveName_of_lacks (h : a.lacks n = true) :
    a.resolveName n = .error (.unknownState n) := by
  have hfind : a.state? n = none := by simpa [lacks, SortedSet.has, state?] using h
  unfold resolveName
  rw [hfind]

theorem find?_lacks_eq_none {l : List String} :
    l.find? a.lacks = none ↔ ∀ m ∈ l, a.states.has m = true := by
  simp [lacks]

/-- Names are looked up in order, and the first that is unknown is reported. -/
theorem resolveNames_of_find? {l : List String} (h : l.find? a.lacks = some n) :
    a.resolveNames l = .error (.unknownState n) := by
  obtain ⟨hn, before, after, rfl, hbefore⟩ := List.find?_eq_some_iff_append.1 h
  have hfound : ∀ m ∈ before, ∃ s, a.resolveName m = .ok s := by
    intro m hm
    have hhas : a.states.has m = true := by simpa [lacks] using hbefore m hm
    obtain ⟨s, -, -, hs⟩ := resolveName_of_has hhas
    exact ⟨s, hs⟩
  unfold resolveNames
  rw [mapM_eq_error hfound (resolveName_of_lacks hn)]
  rfl

/-- Lists of names are looked up one after another. -/
theorem mapM_resolveNames_of_find? {l : List (List String)}
    (h : l.flatten.find? a.lacks = some n) :
    l.mapM a.resolveNames = .error (.unknownState n) := by
  obtain ⟨hn, before, ms, ms', after, rfl, hbefore, hms⟩ := List.find?_flatten_eq_some_iff.1 h
  have hfound : ∀ ns ∈ before, ∃ s, a.resolveNames ns = .ok s := by
    intro ns hns
    have hhas : ∀ m ∈ ns, a.states.has m = true :=
      fun m hm => by simpa [lacks] using hbefore ns hns m hm
    obtain ⟨s, hs, -⟩ := resolveNames_of_has hhas
    exact ⟨s, hs⟩
  have hfirst : (ms ++ n :: ms').find? a.lacks = some n :=
    List.find?_eq_some_iff_append.2 ⟨hn, ms, ms', rfl, hms⟩
  exact mapM_eq_error hfound (resolveNames_of_find? hfirst)

end Automaton

/-! ## Names that occur -/

/-- The names that the transitions refer to, and those of the start and the error state. -/
def AutomatonRecord.occurring (r : AutomatonRecord) : List String :=
  (r.transitions.flatMap fun t => t.source :: t.targets) ++ [r.start, r.error.name]

theorem AutomatonRecord.mem_occurring {r : AutomatonRecord} {n : String} : n ∈ r.occurring ↔
    (∃ t ∈ r.transitions, t.source = n ∨ n ∈ t.targets) ∨ r.start = n ∨ r.error.name = n := by
  simp [occurring, eq_comm]

/-- The states of what is loaded are those that occur in the record. -/
theorem AutomatonRecord.lacks_of_load {r : AutomatonRecord} {g : Registries κ} {v w : Wiring}
    {a : Automaton κ} (h : r.load g v = .ok (a, w)) :
    a.lacks = fun n => decide (n ∉ r.occurring) := by
  obtain ⟨-, states, es, hreplayed⟩ := replayed_of_load h
  funext n
  rw [Bool.eq_iff_iff, decide_eq_true_iff, mem_occurring, ← hreplayed.has_states_iff]
  simp [Automaton.lacks]

namespace RunRecord

/-- The first name that does not occur in the automaton, among those of the current states and then
those of the snapshots. -/
def firstUnknown? (q : RunRecord) : Option String :=
  (q.current ++ q.history.flatten).find? fun n => n ∉ q.automaton.occurring

/-- The run is as the record says, over the automaton that was loaded. -/
structure Restores (q : RunRecord) (a : Automaton κ) (r : Run κ) : Prop where
  id : r.id = q.id
  automaton : r.automaton = a
  policy : r.policy = q.policy
  current : r.current.names = inOrder q.current
  history : r.history.names = (q.history.map inOrder).filter (· ≠ [])
  started : r.isStarted = true ↔ q.current ≠ []

variable {q : RunRecord} {g : Registries κ} {v w : Wiring} {a : Automaton κ}

/-- Once the automaton is loaded, what is left are the names. -/
theorem load_of_automaton (hversion : q.version = recordVersion)
    (ha : q.automaton.load g v = .ok (a, w)) : q.load g v = (do
      let current ← a.resolveNames q.current
      let snapshots ← q.history.mapM a.resolveNames
      return (⟨q.id, a, q.policy, current, snapshots.foldl Sightings.record ∅⟩, w)) := by
  unfold load
  rw [if_neg (not_not.2 hversion), ha]
  rfl

theorem load_of_firstUnknown? (hversion : q.version = recordVersion)
    (ha : q.automaton.load g v = .ok (a, w)) {n : String} (hn : q.firstUnknown? = some n) :
    q.load g v = .error (.unknownState n) := by
  unfold firstUnknown? at hn
  rw [← AutomatonRecord.lacks_of_load ha, List.find?_append, Option.or_eq_some_iff] at hn
  rw [load_of_automaton hversion ha]
  rcases hn with hcurrent | ⟨hcurrent, hhistory⟩
  · rw [Automaton.resolveNames_of_find? hcurrent]
    rfl
  · -- the current states are found, so the snapshots are looked up
    have hknown : ∀ m ∈ q.current, a.states.has m = true :=
      Automaton.find?_lacks_eq_none.1 hcurrent
    obtain ⟨s, hs, -, -⟩ := Automaton.resolveNames_of_has hknown
    rw [hs]
    show (do let snapshots ← q.history.mapM a.resolveNames; _) = _
    rw [Automaton.mapM_resolveNames_of_find? hhistory]
    rfl

theorem load_of_known (hversion : q.version = recordVersion)
    (ha : q.automaton.load g v = .ok (a, w)) (hknown : q.firstUnknown? = none) :
    ∃ r, q.load g v = .ok (r, w) ∧ q.Restores a r := by
  unfold firstUnknown? at hknown
  rw [← AutomatonRecord.lacks_of_load ha, Automaton.find?_lacks_eq_none] at hknown
  obtain ⟨s, hs, hcurrent, -⟩ :=
    Automaton.resolveNames_of_has fun m hm => hknown m (List.mem_append_left _ hm)
  obtain ⟨ts, hts, hhistory⟩ :=
    Automaton.mapM_resolveNames_of_has fun m hm => hknown m (List.mem_append_right _ hm)
  refine ⟨⟨q.id, a, q.policy, s, ts.foldl Sightings.record ∅⟩,
    load_eq_ok_iff.2 ⟨hversion, a, s, ts, ha, hs, hts, rfl⟩, rfl, rfl, rfl, hcurrent, ?_, ?_⟩
  · rw [Sightings.names_foldl_record, hhistory]
    rfl
  · show (!s.isEmpty) = true ↔ _
    rw [SortedSet.isEmpty_eq_names, hcurrent, Bool.not_eq_true', List.isEmpty_eq_false_iff, ne_eq,
      inOrder_eq_nil]

/-- **Which records of runs are loaded, and as what.** A record of another version is refused for
its version, whatever else is wrong with it. Otherwise it is refused for what its automaton is
refused for, if that is refused. Otherwise it is refused for the first name that does not occur in
its automaton, if there is one, and otherwise it is loaded.

What is loaded has the identity and the policy of the record, is in the current states of the
record, and has its snapshots in their order but for the empty ones, all by name, each name once and
in order. It is started exactly if the record has a current state. No hook runs: apart from fresh
instances, which have the hooks that their records say, the wiring is as it was. -/
theorem load_verdict (q : RunRecord) (g : Registries κ) (v : Wiring) :
    (q.version ≠ recordVersion → q.load g v = .error (.unsupportedVersion q.version)) ∧
    (q.version = recordVersion →
      (∀ e, q.automaton.load g v = .error e → q.load g v = .error e) ∧
      ∀ a w, q.automaton.load g v = .ok (a, w) →
        (∀ n, q.firstUnknown? = some n → q.load g v = .error (.unknownState n)) ∧
        (q.firstUnknown? = none → ∃ r, q.load g v = .ok (r, w) ∧ q.Restores a r ∧ v.Extends w ∧
          ∀ x ∈ a.states, v.created ≤ x.instanceId ∧
            ∃ p ∈ q.automaton.allStates, p.name = x.name ∧ x.Carries w g.callbacks p)) := by
  refine ⟨fun hversion => ?_, fun hversion => ⟨fun e he => ?_, fun a w ha => ⟨fun n hn => ?_,
    fun hknown => ?_⟩⟩⟩
  · unfold load
    rw [if_pos hversion]
    rfl
  · unfold load
    rw [if_neg (not_not.2 hversion), he]
    rfl
  · exact load_of_firstUnknown? hversion ha hn
  · obtain ⟨r, hr, hrestores⟩ := load_of_known hversion ha hknown
    obtain ⟨hvalid, states, es, hreplayed⟩ := AutomatonRecord.replayed_of_load ha
    refine ⟨r, hr, hrestores, hreplayed.grown, fun x hx => ?_⟩
    obtain ⟨p, hp, hname⟩ := hreplayed.exists_mem_allStates hx
    exact ⟨(hreplayed.fresh x (hreplayed.mem_states hx)).1, p, hp, hname,
      hreplayed.carries hvalid hx hp hname⟩

/-- The record of a turnstile after edits by hand: a state is listed that nothing refers to, names
are repeated and in no order, and there is an empty snapshot. -/
def editedTurnstile : RunRecord where
  version := recordVersion
  id := default
  savedAt := default
  automaton := { Run.turnstileRecord.automaton with
    states := [⟨"locked", "log", none, none⟩, .named "lost", .named "open"] }
  current := ["open", "locked", "open"]
  history := [["open", "open"], [], ["open"]]
  policy := {}

/-- It is loaded as it is. With more faults it is refused, and each time for the one that comes
first. -/
theorem load_verdict_turnstile :
    let g := Registries.logging
    let u := Wiring.logging
    let faulty := { editedTurnstile.automaton with start := "gone" }
    (∃ r w, editedTurnstile.load g u = .ok (r, w) ∧ r.current.names = ["locked", "open"] ∧
      r.history.names = [["open"], ["open"]] ∧ r.isStarted = true ∧ u.Extends w) ∧
    load { editedTurnstile with current := ["open", "lost"], history := [["gone"]] } g u =
      .error (.unknownState "lost") ∧
    load { editedTurnstile with automaton := faulty, current := ["lost"] } g u =
      .error (.invalidRecord [.unknownStartState "gone"]) ∧
    load { editedTurnstile with version := 2, automaton := faulty, current := ["lost"] } g u =
      .error (.unsupportedVersion 2) := by
  intro g u faulty
  have hload : ∃ a w, editedTurnstile.automaton.load Registries.logging .logging = .ok (a, w) :=
    ⟨_, _, rfl⟩
  obtain ⟨a, w, ha⟩ := hload
  refine ⟨?_, ?_, ?_, ?_⟩
  · obtain ⟨-, hverdict⟩ := load_verdict editedTurnstile g u
    obtain ⟨r, hr, hrestores, hextends, -⟩ := ((hverdict rfl).2 a w ha).2 (by decide)
    exact ⟨r, w, hr, hrestores.current.trans (by decide +kernel),
      hrestores.history.trans (by decide +kernel), hrestores.started.2 (by decide), hextends⟩
  · obtain ⟨-, hverdict⟩ :=
      load_verdict { editedTurnstile with current := ["open", "lost"], history := [["gone"]] } g u
    exact ((hverdict rfl).2 a w ha).1 "lost" (by decide)
  · obtain ⟨-, hverdict⟩ :=
      load_verdict { editedTurnstile with automaton := faulty, current := ["lost"] } g u
    exact (hverdict rfl).1 _ rfl
  · obtain ⟨hversion, -⟩ := load_verdict
      { editedTurnstile with version := 2, automaton := faulty, current := ["lost"] } g u
    exact hversion (by decide)

end RunRecord

end HookedAutomata
