import Mathlib.Data.Set.Basic
import HookedAutomata.Proofs.Steps
import HookedAutomata.Trigger.Symbol

/-!
# Runs simulate the subset construction

The textbook reads a word with one set of states: it begins with what moves that consume nothing
lead to from the start state, and each trigger leads from a set to the closure of all direct targets
of its members (`Automaton.subset`). The engine closes the targets of every source separately, and
replaces a dead source by the error state, which from then on is a source like any other.

For an error state without transitions the two agree, but for the error state itself
(`Run.updateAll_start_iff_subset`). The invariant is `Run.Tracks`: away from the error name the
current names are the textbook's, and whether the error state is current is known exactly. The error
state stays current once it is (it has no targets, so it contributes itself), which is why a prefix
of the word decides (`Automaton.Falls`).
-/

namespace HookedAutomata

variable {κ : Type} [CustomTrigger κ]

/-! ## The textbook's sets -/

namespace Table

/-- The names that moves that consume nothing lead to from a set of names. -/
def silentClosure (t : Table κ) (S : Set String) : Set String := {n | ∃ m ∈ S, t.Silently m n}

/-- The direct targets of all names in a set. -/
def directImage (t : Table κ) (S : Set String) (on : Trigger κ) : Set String :=
  {n | ∃ m ∈ S, (t.direct m on).has n = true}

/-- What a trigger leads to from a set of names. -/
def subsetStep (t : Table κ) (S : Set String) (on : Trigger κ) : Set String :=
  t.silentClosure (t.directImage S on)

/-- What a word leads to from a set of names. -/
def subsetFrom (t : Table κ) (S : Set String) (word : List (Trigger κ)) : Set String :=
  word.foldl t.subsetStep S

/-- A step of a set takes the steps of its members one by one. -/
theorem mem_subsetStep {t : Table κ} {S : Set String} {on : Trigger κ} {n : String} :
    n ∈ t.subsetStep S on ↔ ∃ m ∈ S, (t.resolve m on).has n = true := by
  constructor
  · rintro ⟨k, ⟨m, hm, hk⟩, hkn⟩
    exact ⟨m, hm, has_resolve.2 ⟨k, hk, hkn⟩⟩
  · rintro ⟨m, hm, hn⟩
    obtain ⟨k, hk, hkn⟩ := has_resolve.1 hn
    exact ⟨k, ⟨m, hm, hk⟩, hkn⟩

end Table

namespace Automaton

/-- The states that a word leads to from the start state, by the subset construction. -/
def subset (a : Automaton κ) (word : List (Trigger κ)) : Set String :=
  a.table.subsetFrom (a.table.silentClosure {a.start.name}) word

/-- Some prefix of the word leads to the error state from the set, or to a state in which the next
trigger of the word is dead. -/
def Falls (a : Automaton κ) (S : Set String) (word : List (Trigger κ)) : Prop :=
  ∃ v, v <+: word ∧ (a.error.name ∈ a.table.subsetFrom S v ∨
    ∃ on m, v ++ [on] <+: word ∧ m ∈ a.table.subsetFrom S v ∧
      (a.table.direct m on).isEmpty = true)

theorem falls_of_mem {a : Automaton κ} {S : Set String} (h : a.error.name ∈ S)
    (word : List (Trigger κ)) : a.Falls S word :=
  ⟨[], List.nil_prefix, .inl h⟩

theorem falls_nil {a : Automaton κ} {S : Set String} : a.Falls S [] ↔ a.error.name ∈ S := by
  constructor
  · rintro ⟨v, hv, h⟩
    obtain rfl := List.prefix_nil.1 hv
    rcases h with h | ⟨on, m, hprefix, -, -⟩
    · exact h
    · exact absurd (List.prefix_nil.1 hprefix) (by simp)
  · intro h
    exact falls_of_mem h []

/-- The first trigger of a word is dead in some state, or the rest of the word falls. -/
theorem falls_cons {a : Automaton κ} {S : Set String} {on : Trigger κ} {word : List (Trigger κ)} :
    a.Falls S (on :: word) ↔ a.error.name ∈ S ∨
      (∃ m ∈ S, (a.table.direct m on).isEmpty = true) ∨ a.Falls (a.table.subsetStep S on) word := by
  constructor
  · intro h
    obtain ⟨v, hv, h⟩ := h
    -- the empty prefix speaks of the first trigger, a longer one of the rest
    cases v with
    | nil =>
      rcases h with h | ⟨g, m, hprefix, hm, hdead⟩
      · exact .inl h
      · obtain ⟨rfl, -⟩ := List.cons_prefix_cons.1 hprefix
        exact .inr (.inl ⟨m, hm, hdead⟩)
    | cons g v =>
      obtain ⟨rfl, hrest⟩ := List.cons_prefix_cons.1 hv
      refine .inr (.inr ⟨v, hrest, ?_⟩)
      rcases h with h | ⟨u, m, hprefix, hm, hdead⟩
      · exact .inl h
      · exact .inr ⟨u, m, (List.cons_prefix_cons.1 hprefix).2, hm, hdead⟩
  · rintro (h | ⟨m, hm, hdead⟩ | ⟨v, hv, h⟩)
    · exact falls_of_mem h _
    · have hprefix : [] ++ [on] <+: on :: word := List.cons_prefix_cons.2 ⟨rfl, List.nil_prefix⟩
      exact ⟨[], List.nil_prefix, .inr ⟨on, m, hprefix, hm, hdead⟩⟩
    · refine ⟨on :: v, List.cons_prefix_cons.2 ⟨rfl, hv⟩, ?_⟩
      rcases h with h | ⟨u, m, hprefix, hm, hdead⟩
      · exact .inl h
      · exact .inr ⟨u, m, List.cons_prefix_cons.2 ⟨rfl, hprefix⟩, hm, hdead⟩

end Automaton

/-! ## Runs that keep to the textbook -/

namespace Run

/-- A run of `a` that may branch and must not stay is in the states of `S`, but for the error state,
and it is in the error state exactly if it has fallen. -/
structure Tracks (a : Automaton κ) (S : Set String) (fallen : Prop) (r : Run κ) : Prop where
  automaton : r.automaton = a
  branching : r.policy.allowBranching = true
  moving : r.policy.allowStaying = false
  started : r.current.isEmpty = false
  names : ∀ n, n ≠ a.error.name → (r.current.has n = true ↔ n ∈ S)
  error : r.current.has a.error.name = true ↔ fallen
  covered : a.error.name ∈ S → fallen

/-- A run that may branch and must not stay goes from a source to its targets, and to the error
state where there are none. -/
theorem has_moved_of_branching {r : Run κ} (hbranch : r.policy.allowBranching = true)
    (hmove : r.policy.allowStaying = false) (on : Trigger κ) (n : String) :
    (r.moved on).current.has n = true ↔ ∃ m, r.current.has m = true ∧
      ((r.automaton.table.resolve m on).has n = true ∨
        (r.automaton.table.direct m on).isEmpty = true ∧ n = r.automaton.error.name) := by
  have hsource : ∀ s : State, (r.successors s (r.targets on s)).has n = true ↔
      (r.automaton.table.resolve s.name on).has n = true ∨
        (r.automaton.table.direct s.name on).isEmpty = true ∧ n = r.automaton.error.name := by
    intro s
    rw [has_successors, hbranch, hmove]
    unfold targets
    rw [← Table.isEmpty_resolve]
    -- a source that is dead has no targets, so it contributes the error state alone
    cases hdead : (r.automaton.table.resolve s.name on).isEmpty with
    | true =>
      have hnone := SortedSet.isEmpty_iff.1 hdead n
      simp [hnone]
      exact eq_comm
    | false => simp
  rw [has_moved]
  constructor
  · rintro ⟨s, hs, hn⟩
    exact ⟨s.name, SortedSet.has_of_mem hs, (hsource s).1 hn⟩
  · rintro ⟨m, hm, hn⟩
    obtain ⟨s, hs, rfl⟩ := SortedSet.has_iff.1 hm
    exact ⟨s, hs, (hsource s).2 hn⟩

theorem tracks_begun {r : Run κ} (hbranch : r.policy.allowBranching = true)
    (hmove : r.policy.allowStaying = false) :
    Tracks r.automaton (r.automaton.table.silentClosure {r.automaton.start.name})
      (r.automaton.error.name ∈ r.automaton.table.silentClosure {r.automaton.start.name})
      r.begun := by
  have hnames : ∀ n, r.begun.current.has n = true ↔
      n ∈ r.automaton.table.silentClosure {r.automaton.start.name} := by
    intro n
    rw [has_begun]
    constructor
    · intro h
      exact ⟨r.automaton.start.name, rfl, h⟩
    · rintro ⟨m, rfl, h⟩
      exact h
  exact ⟨rfl, hbranch, hmove, r.isEmpty_begun, fun n _ => hnames n, hnames _, fun h => h⟩

/-- The sources lead to what the set leads to. The two differ in the error state at most, and from
there nothing is reached. -/
theorem Tracks.mem_subsetStep {a : Automaton κ} {S : Set String} {fallen : Prop} {r : Run κ}
    (h : Tracks a S fallen r)
    (hsink : ∀ on, (a.table.direct a.error.name on).isEmpty = true) (on : Trigger κ) (n : String) :
    n ∈ a.table.subsetStep S on ↔
      ∃ m, r.current.has m = true ∧ (a.table.resolve m on).has n = true := by
  have hne : ∀ m, (a.table.resolve m on).has n = true → m ≠ a.error.name := by
    intro m hm
    rintro rfl
    have hempty := a.table.isEmpty_resolve a.error.name on
    rw [hsink on] at hempty
    have hnone : (a.table.resolve a.error.name on).has n = false := SortedSet.isEmpty_iff.1 hempty n
    simp [hnone] at hm
  rw [Table.mem_subsetStep]
  constructor
  · intro hset
    obtain ⟨m, hm, hn⟩ := hset
    exact ⟨m, (h.names m (hne m hn)).2 hm, hn⟩
  · intro hrun
    obtain ⟨m, hm, hn⟩ := hrun
    exact ⟨m, (h.names m (hne m hn)).1 hm, hn⟩

/-- One step keeps to the textbook, if the error state has no transitions. -/
theorem Tracks.moved {a : Automaton κ} {S : Set String} {fallen : Prop} {r : Run κ}
    (h : Tracks a S fallen r)
    (hsink : ∀ on, (a.table.direct a.error.name on).isEmpty = true) (on : Trigger κ) :
    Tracks a (a.table.subsetStep S on)
      (fallen ∨ a.error.name ∈ a.table.subsetStep S on ∨
        ∃ m ∈ S, (a.table.direct m on).isEmpty = true) (r.moved on) := by
  have hsources := h.mem_subsetStep hsink on
  obtain ⟨rfl, hbranch, hmove, hstarted, hnames, herror, hcovered⟩ := h
  have hmoved := has_moved_of_branching hbranch hmove on
  refine ⟨rfl, hbranch, hmove, isEmpty_moved hstarted on, ?_, ?_, fun hmem => .inr (.inl hmem)⟩
  · intro n hn
    rw [hmoved, hsources]
    simp [hn]
  · rw [hmoved]
    constructor
    · -- the error state is entered as a target, or because a source is dead
      rintro ⟨m, hm, hstep | ⟨hnone, -⟩⟩
      · exact .inr (.inl ((hsources _).2 ⟨m, hm, hstep⟩))
      · by_cases hme : m = r.automaton.error.name
        · rw [hme] at hm
          exact .inl (herror.1 hm)
        · exact .inr (.inr ⟨m, (hnames m hme).1 hm, hnone⟩)
    · -- fallen before: the error state is a source, and contributes itself
      have hstay : fallen → ∃ m, r.current.has m = true ∧
          ((r.automaton.table.resolve m on).has r.automaton.error.name = true ∨
            (r.automaton.table.direct m on).isEmpty = true ∧
              r.automaton.error.name = r.automaton.error.name) :=
        fun hf => ⟨r.automaton.error.name, herror.2 hf, .inr ⟨hsink on, rfl⟩⟩
      rintro (hf | hmem | ⟨m, hm, hnone⟩)
      · exact hstay hf
      · obtain ⟨m, hm, hn⟩ := (hsources _).1 hmem
        exact ⟨m, hm, .inl hn⟩
      · by_cases hme : m = r.automaton.error.name
        · rw [hme] at hm
          exact hstay (hcovered hm)
        · exact ⟨m, (hnames m hme).2 hm, .inr ⟨hnone, rfl⟩⟩

/-- A word keeps to the textbook, and no step of it is refused. Induction on the word, from any run
that keeps to it. -/
theorem Tracks.updateAll {a : Automaton κ} {S : Set String} {fallen : Prop} {r : Run κ}
    (h : Tracks a S fallen r)
    (hsink : ∀ on, (a.table.direct a.error.name on).isEmpty = true) (w : Wiring)
    (word : List (Trigger κ)) :
    (∃ answers, (r.updateAll w word).result = .ok answers) ∧
      Tracks a (a.table.subsetFrom S word) (fallen ∨ a.Falls S word) (r.updateAll w word).run := by
  induction word generalizing S fallen r w with
  | nil =>
    refine ⟨⟨[], rfl⟩, ?_⟩
    -- where the set has the error state, the run has fallen already
    have hfalls : (fallen ∨ a.Falls S []) ↔ fallen := by
      rw [Automaton.falls_nil]
      exact or_iff_left_of_imp h.covered
    rw [hfalls]
    exact h
  | cons on word ih =>
    obtain ⟨⟨answers, hanswers⟩, hrest⟩ :=
      ih (h.moved hsink on) (w.fireAll (r.consultations on))
    -- to fall later is to fall in this step or on the rest of the word
    have hfalls : (fallen ∨ a.Falls S (on :: word)) ↔
        ((fallen ∨ a.error.name ∈ a.table.subsetStep S on ∨
          ∃ m ∈ S, (a.table.direct m on).isEmpty = true) ∨
            a.Falls (a.table.subsetStep S on) word) := by
      rw [Automaton.falls_cons]
      constructor
      · rintro (hf | hmem | hdead | hlater)
        · exact .inl (.inl hf)
        · exact .inl (.inl (h.covered hmem))
        · exact .inl (.inr (.inr hdead))
        · exact .inr hlater
      · rintro ((hf | hmem | hdead) | hlater)
        · exact .inl hf
        · exact .inr (.inr (.inr (Automaton.falls_of_mem hmem word)))
        · exact .inr (.inr (.inl hdead))
        · exact .inr (.inr (.inr hlater))
    rw [hfalls]
    unfold Run.updateAll
    rw [update_eq h.started]
    refine ⟨⟨_, congrArg (Except.map _) hanswers⟩, hrest⟩

/-- **The engine simulates the subset construction.** A run that may branch and must not stay, over
an automaton whose error state has no transitions, takes every word to the textbook's states, but for
the error state. The error state is current exactly if on some prefix of the word the textbook is in
it, or is in a state in which the next trigger is dead. -/
theorem updateAll_start_iff_subset (r : Run κ) (w : Wiring) (word : List (Trigger κ))
    (hbranch : r.policy.allowBranching = true) (hmove : r.policy.allowStaying = false)
    (hsink : ∀ on, (r.automaton.table.direct r.automaton.error.name on).isEmpty = true) :
    let after := (r.start w).run.updateAll (r.start w).wiring word
    (∃ answers, after.result = .ok answers) ∧
      (∀ n, n ≠ r.automaton.error.name →
        (after.run.current.has n = true ↔ n ∈ r.automaton.subset word)) ∧
      (after.run.current.has r.automaton.error.name = true ↔
        ∃ v, v <+: word ∧ (r.automaton.error.name ∈ r.automaton.subset v ∨
          ∃ on m, v ++ [on] <+: word ∧ m ∈ r.automaton.subset v ∧
            (r.automaton.table.direct m on).isEmpty = true)) := by
  intro after
  have hbegun : (r.start w).run = r.begun := congrArg Outcome.run (r.start_eq w)
  have htracks := tracks_begun (r := r) hbranch hmove
  rw [← hbegun] at htracks
  obtain ⟨hanswers, hafter⟩ := htracks.updateAll hsink (r.start w).wiring word
  refine ⟨hanswers, hafter.names, hafter.error.trans ?_⟩
  -- a run that has fallen from the start has fallen on the empty prefix
  exact or_iff_right_of_imp fun hmem => Automaton.falls_of_mem hmem word

/-- Two states that lead to each other without input, one of which branches on a text. -/
def shuttle : Automaton Symbol :=
  .assemble ⟨"idle", 0⟩ ⟨"error", 3⟩ (.singleton "done") <| .ofTransitions
    ⟨[⟨⟨"idle", 0⟩, .epsilon, .singleton ⟨"busy", 1⟩⟩, ⟨⟨"busy", 1⟩, .epsilon, .singleton ⟨"idle", 0⟩⟩,
      ⟨⟨"busy", 1⟩, .text "go", .ofList [⟨"busy", 1⟩, ⟨"done", 2⟩]⟩], by decide⟩

theorem updateAll_start_iff_subset_shuttle :
    let r : Run Symbol := ⟨default, shuttle, {}, ∅, ∅⟩
    let word : List (Trigger Symbol) := [.text "go", .text "go"]
    let after := (r.start {}).run.updateAll (r.start {}).wiring word
    r.policy.allowBranching = true ∧ r.policy.allowStaying = false ∧
      (∀ on, (shuttle.table.direct "error" on).isEmpty = true) ∧
      (∃ answers, after.result = .ok answers) ∧
      (∀ n, n ≠ "error" → (after.run.current.has n = true ↔ n ∈ shuttle.subset word)) ∧
      (after.run.current.has "error" = true ↔
        ∃ v, v <+: word ∧ ("error" ∈ shuttle.subset v ∨
          ∃ on m, v ++ [on] <+: word ∧ m ∈ shuttle.subset v ∧
            (shuttle.table.direct m on).isEmpty = true)) :=
  ⟨rfl, rfl, fun _ => rfl,
    updateAll_start_iff_subset ⟨default, shuttle, {}, ∅, ∅⟩ {} [.text "go", .text "go"] rfl rfl
      fun _ => rfl⟩

end Run

end HookedAutomata
