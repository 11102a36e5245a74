import HookedAutomata.Record.Save
import HookedAutomata.Proofs.Checking
import HookedAutomata.Proofs.Editing
import HookedAutomata.Proofs.Wirings
import HookedAutomata.Trigger.Symbol

/-!
# Saved automata pass the checks, but for one thing

Everything that the record of an automaton refers to is in it: the states it lists are all that
occur in the automaton, and end names without a state are left out. With the registries knowing the
tags and callbacks there is one thing that the checks may still complain about, the error state.
It is recorded twice, among the states and by itself, and the two must agree
(`Automaton.violations_toRecord`).

They agree if the state listed under its name is the error state. The error state is pinned, so the
table knows no other instance of its name, whatever edits were made. But the start state may have
the same name and be another instance; where the table has no state of that name it is the start
state that is listed (`Automaton.violations_toRecord_edited`).
-/

namespace HookedAutomata

variable {κ : Type} [CustomTrigger κ]

theorem State.hookName_of_mem_callbackNames {w : Wiring} {s : State} {n : String}
    (h : n ∈ (s.toRecord w).callbackNames) : ∃ slot, w.hookName s slot = some n := by
  rcases StateRecord.mem_callbackNames.1 h with ⟨hentry, rfl⟩ | h | h
  · -- an entry that is saved under another name than that for no callback is a callback
    have hsaved : (s.toRecord w).entry = (w.hookName s .entry).getD noCallback := rfl
    cases hname : w.hookName s .entry with
    | none =>
      rw [hsaved, hname] at hentry
      exact absurd rfl hentry
    | some m =>
      refine ⟨.entry, ?_⟩
      rw [hsaved, hname]
      rfl
  · exact ⟨.exit, h⟩
  · exact ⟨.stay, h⟩

/-- Texts are known, and the callback that logs. -/
def Registries.logging : Registries Symbol := ⟨.initial, ⟨.singleton .logging⟩⟩

theorem Registries.contains_logging {s : State} {slot : Slot} {n : String}
    (h : Wiring.logging.hookName s slot = some n) :
    Registries.logging.callbacks.contains n = true := by
  obtain ⟨c, hc, rfl⟩ := Option.map_eq_some_iff.1 h
  rw [Wiring.eq_logging_of_hook hc]
  decide

namespace Automaton

theorem map_name_toRecord (a : Automaton κ) (w : Wiring) :
    (a.toRecord w).states.map (·.name) = a.states.names := by
  unfold toRecord SortedSet.names
  rw [List.map_map]
  rfl

theorem mem_knownNames_toRecord {a : Automaton κ} {w : Wiring} {n : String} :
    n ∈ (a.toRecord w).knownNames ↔ a.states.has n = true := by
  unfold AutomatonRecord.knownNames
  rw [map_name_toRecord, List.mem_append, SortedSet.mem_names, List.mem_singleton]
  show _ ∨ n = a.error.name ↔ _
  refine or_iff_left_of_imp fun h => ?_
  exact has_states.2 (.inr (.inr h.symm))

theorem mem_transitions_toRecord {a : Automaton κ} {w : Wiring} {t : TransitionRecord} :
    t ∈ (a.toRecord w).transitions ↔ ∃ e ∈ a.table.transitions.entries, e.toRecord = t := by
  show t ∈ List.mergeSort _ _ ↔ _
  rw [List.mem_mergeSort, List.mem_map]

/-- The saved error state agrees with the state listed under its name exactly if the two have the
same callbacks. -/
theorem errorAgrees_toRecord {a : Automaton κ} {w : Wiring} : (a.toRecord w).errorAgrees = true ↔
    ∀ s, a.states.find? a.error.name = some s → s.toRecord w = a.error.toRecord w := by
  rw [AutomatonRecord.errorAgrees_iff]
  have hfind : ((a.toRecord w).states.find? fun s => s.name == (a.toRecord w).error.name) =
      (a.states.find? a.error.name).map (State.toRecord w) := List.find?_map ..
  rw [hfind]
  constructor
  · intro h s hs
    exact h _ (by rw [hs]; rfl)
  · intro h s hs
    obtain ⟨x, hx, rfl⟩ := Option.map_eq_some_iff.1 hs
    exact h x hx

/-- No state is listed twice: a set of states has one for each name. -/
theorem stateViolations_toRecord (a : Automaton κ) (w : Wiring) :
    (a.toRecord w).stateViolations = [] := by
  unfold AutomatonRecord.stateViolations
  rw [map_name_toRecord, List.map_eq_nil_iff, AutomatonRecord.repeated_eq_nil]
  exact ⟨a.states.nodup_names, fun n _ => List.not_mem_nil⟩

/-- A transition of a known tag has no fault: its states are all listed. -/
theorem transitionViolations_toRecord {a : Automaton κ} {g : TriggerRegistry κ} (w : Wiring)
    (htags : ∀ e ∈ a.table.transitions.entries, g.contains e.trigger.tag = true) :
    ∀ t ∈ (a.toRecord w).transitions, (a.toRecord w).transitionViolations g t = [] := by
  intro t ht
  obtain ⟨e, he, rfl⟩ := mem_transitions_toRecord.1 ht
  have hknown : ∀ s ∈ e.states, s.name ∈ (a.toRecord w).knownNames := by
    intro s hs
    have hmem : s ∈ a.table.transitions.states := Transitions.mem_states.2 ⟨e, he, hs⟩
    exact mem_knownNames_toRecord.2 (has_states.2 (.inl (Table.has_states_of_mem hmem)))
  refine AutomatonRecord.transitionViolations_eq_nil.2
    ⟨hknown _ List.mem_cons_self, htags e he, fun n hn => ?_⟩
  obtain ⟨s, hs, rfl⟩ := List.mem_map.1 hn
  exact hknown s (List.mem_cons_of_mem _ hs)

/-- Recorded states whose callbacks are known have no fault. -/
theorem callbackViolations_toRecord {a : Automaton κ} {g : CallbackRegistry} {w : Wiring}
    (hcallbacks : ∀ s, s ∈ a.states ∨ s = a.error →
      ∀ slot n, w.hookName s slot = some n → g.contains n = true) :
    ∀ r ∈ (a.toRecord w).states ++ [(a.toRecord w).error],
      AutomatonRecord.callbackViolations g r = [] := by
  intro r hr
  have hstate : ∃ s, (s ∈ a.states ∨ s = a.error) ∧ s.toRecord w = r := by
    rcases List.mem_append.1 hr with hr | hr
    · obtain ⟨s, hs, hsr⟩ := List.mem_map.1 hr
      exact ⟨s, .inl hs, hsr⟩
    · exact ⟨a.error, .inr rfl, (List.mem_singleton.1 hr).symm⟩
  obtain ⟨s, hs, rfl⟩ := hstate
  refine AutomatonRecord.callbackViolations_eq_nil.2 fun n hn => ?_
  obtain ⟨slot, hslot⟩ := State.hookName_of_mem_callbackNames hn
  exact hcallbacks s hs slot n hslot

/-- The record of an automaton whose callbacks and tags are known has no fault but an error state
that is listed otherwise. -/
theorem violations_toRecord {a : Automaton κ} {g : Registries κ} {w : Wiring}
    (hcallbacks : ∀ s, s ∈ a.states ∨ s = a.error →
      ∀ slot n, w.hookName s slot = some n → g.callbacks.contains n = true)
    (htags : ∀ e ∈ a.table.transitions.entries, g.triggers.contains e.trigger.tag = true) :
    (a.toRecord w).violations g =
      Violation.reportUnless (a.toRecord w).errorAgrees (.conflictingErrorState a.error.name) := by
  have hstart : (a.toRecord w).knows (a.toRecord w).start = true :=
    AutomatonRecord.knows_iff.2 (mem_knownNames_toRecord.2 (has_states.2 (.inr (.inl rfl))))
  -- only end names that some state has are saved, so all of them are known
  have hends : ∀ n ∈ (a.toRecord w).ends, (a.toRecord w).knows n = true := by
    intro n hn
    exact AutomatonRecord.knows_iff.2 (mem_knownNames_toRecord.2 (List.mem_filter.1 hn).2)
  unfold AutomatonRecord.violations
  rw [stateViolations_toRecord,
    List.flatMap_eq_nil_iff.2 (transitionViolations_toRecord w htags),
    List.flatMap_eq_nil_iff.2 (callbackViolations_toRecord hcallbacks),
    List.flatMap_eq_nil_iff.2 fun n hn => Violation.reportUnless_eq_nil.2 (hends n hn),
    Violation.reportUnless_eq_nil.2 hstart]
  simp only [List.nil_append, List.append_nil]
  rfl

/-! ## The state listed under the name of the error state -/

/-- After any edits the error state is the only instance of its name in the table. -/
theorem eq_error_of_mem_edited {start error : State} {ends : NameSet} {t : Table κ}
    {l : List (Table.Edit κ)} {s : State}
    (h : s ∈ ((assemble start error ends t).edited l).table.transitions.states)
    (hname : s.name = error.name) : s = error := by
  have hone : OneInstance ((t.pin start).pin error).instances error.name :=
    Table.oneInstance_pin _ error
  exact Table.eq_of_mem_pinned (Table.mem_pinned_pin _ error) hone
    (Table.mem_instances.2 (.inr h)) hname

/-- Under the name of the error state the error state is listed, unless the start state has that
name too and the table has no state of that name: then it is the start state. -/
theorem find?_error_edited (start error : State) (ends : NameSet) (t : Table κ)
    (l : List (Table.Edit κ)) :
    let a := (assemble start error ends t).edited l
    a.states.find? error.name =
      some (if start.name = error.name ∧ a.table.states.has error.name = false then start
        else error) := by
  intro a
  have hfind : a.states.find? error.name = ((a.table.states.find? error.name).or
      (if start.name = error.name then some start else none)).or (some error) := by
    show ((a.table.states.insert start).insert error).find? error.name = _
    rw [SortedSet.find?_insert, SortedSet.find?_insert]
    simp
  rw [hfind]
  -- inserting keeps the first of a name: the table's, else the start state, else the error state
  cases htable : a.table.states.find? error.name with
  | some s =>
    obtain ⟨hs, hname⟩ := SortedSet.find?_eq_some_iff.1 htable
    have hself : s = error := eq_error_of_mem_edited (Table.mem_states hs) hname
    have hhas : a.table.states.has error.name = true := by simp [SortedSet.has, htable]
    simp [hhas, hself]
  | none =>
    have hhas : a.table.states.has error.name = false := by simp [SortedSet.has, htable]
    by_cases hname : start.name = error.name
    · simp [hhas, hname]
    · simp [hname]

/-- **Saved automata pass the checks unless start and error state are told apart by callbacks
alone.** Whatever states and table an automaton was assembled from and however its table was edited,
the registries knowing its tags and callbacks: its record has no fault if start and error state have
different names, if the table has a state of that name, or if both have the same callbacks. If none
of these holds, its one fault is that the error state is listed otherwise. -/
theorem violations_toRecord_edited (start error : State) (ends : NameSet) (t : Table κ)
    (l : List (Table.Edit κ)) (g : Registries κ) (w : Wiring)
    (hcallbacks : ∀ s, s ∈ ((assemble start error ends t).edited l).states ∨ s = start ∨ s = error →
      ∀ slot n, w.hookName s slot = some n → g.callbacks.contains n = true)
    (htags : ∀ e ∈ ((assemble start error ends t).edited l).table.transitions.entries,
      g.triggers.contains e.trigger.tag = true) :
    let a := (assemble start error ends t).edited l
    (a.toRecord w).violations g =
      if start.name = error.name ∧ a.table.states.has error.name = false ∧
        start.toRecord w ≠ error.toRecord w then [.conflictingErrorState error.name] else [] := by
  intro a
  have hviolations : (a.toRecord w).violations g =
      Violation.reportUnless (a.toRecord w).errorAgrees (.conflictingErrorState error.name) :=
    violations_toRecord (fun s hs => hcallbacks s (hs.imp_right .inr)) htags
  have hfind := find?_error_edited start error ends t l
  rw [hviolations]
  by_cases hconflict : start.name = error.name ∧ a.table.states.has error.name = false ∧
      start.toRecord w ≠ error.toRecord w
  · obtain ⟨hname, hhas, hne⟩ := hconflict
    have hagrees : (a.toRecord w).errorAgrees = false := by
      rw [← Bool.not_eq_true, errorAgrees_toRecord]
      have hlisted : a.states.find? a.error.name = some start :=
        hfind.trans (by rw [if_pos ⟨hname, hhas⟩])
      exact fun hagree => hne (hagree start hlisted)
    rw [if_pos ⟨hname, hhas, hne⟩, hagrees]
    rfl
  · have hagrees : (a.toRecord w).errorAgrees = true := by
      rw [errorAgrees_toRecord]
      intro s hs
      rw [show a.error = error from rfl, hfind] at hs
      obtain rfl := Option.some.inj hs
      split
      · rename_i hlisted
        exact Classical.byContradiction fun hne => hconflict ⟨hlisted.1, hlisted.2, hne⟩
      · rfl
    rw [if_neg hconflict, hagrees]
    rfl

theorem violations_toRecord_edited_go :
    let start : State := ⟨"idle", 0⟩
    let error : State := ⟨"error", 1⟩
    let edits : List (Table.Edit Symbol) := [.add ⟨"idle", 2⟩ (.text "go") (.singleton ⟨"busy", 3⟩)]
    let a := (assemble start error ∅ ∅).edited edits
    (∀ s, s ∈ a.states ∨ s = start ∨ s = error → ∀ slot n,
      Wiring.logging.hookName s slot = some n → Registries.logging.callbacks.contains n = true) ∧
    (∀ e ∈ a.table.transitions.entries, Registries.logging.triggers.contains e.trigger.tag = true) ∧
    (a.toRecord Wiring.logging).violations Registries.logging =
      if start.name = error.name ∧ a.table.states.has error.name = false ∧
        start.toRecord Wiring.logging ≠ error.toRecord Wiring.logging
      then [.conflictingErrorState error.name] else [] := by
  intro start error edits a
  have hcallbacks : ∀ s, s ∈ a.states ∨ s = start ∨ s = error → ∀ slot n,
      Wiring.logging.hookName s slot = some n → Registries.logging.callbacks.contains n = true :=
    fun s _ slot n h => Registries.contains_logging h
  have htags : ∀ e ∈ a.table.transitions.entries,
      Registries.logging.triggers.contains e.trigger.tag = true := by
    intro e he
    obtain rfl := List.mem_singleton.1 he
    decide
  exact ⟨hcallbacks, htags,
    violations_toRecord_edited start error ∅ ∅ edits Registries.logging Wiring.logging hcallbacks htags⟩

/-- Start and error state of one name, of which only the start state logs: the record lists the
start state, and the error state is recorded otherwise. -/
theorem not_forall_violations_toRecord_eq_nil :
    ¬ ∀ (start error : State) (ends : NameSet) (t : Table Symbol) (l : List (Table.Edit Symbol))
      (g : Registries Symbol) (w : Wiring),
      (∀ s, s ∈ ((assemble start error ends t).edited l).states ∨ s = start ∨ s = error →
        ∀ slot n, w.hookName s slot = some n → g.callbacks.contains n = true) →
      (∀ e ∈ ((assemble start error ends t).edited l).table.transitions.entries,
        g.triggers.contains e.trigger.tag = true) →
      (((assemble start error ends t).edited l).toRecord w).violations g = [] := by
  intro h
  have hnone := h ⟨"s", 0⟩ ⟨"s", 1⟩ ∅ ∅ [] Registries.logging Wiring.logging
    (fun s _ slot n h => Registries.contains_logging h)
    (fun e he => absurd he List.not_mem_nil)
  revert hnone
  decide

end Automaton

end HookedAutomata
