import HookedAutomata.Record.Check
import HookedAutomata.SortedSet.Lemmas

/-!
# Records without faults

The checks of a record are made one by one, and each reports what it finds. Taken together they
report nothing exactly if the record meets `AutomatonRecord.Valid`, which is said without the checks
(`AutomatonRecord.violations_eq_nil_iff`). What loads a record relies on `Valid` alone.
-/

namespace HookedAutomata

variable {κ : Type}

theorem Violation.reportUnless_eq_nil {ok : Bool} {v : Violation} :
    Violation.reportUnless ok v = [] ↔ ok = true := by
  cases ok <;> simp [reportUnless]

theorem StateRecord.mem_callbackNames {r : StateRecord} {n : String} : n ∈ r.callbackNames ↔
    (r.entry ≠ noCallback ∧ n = r.entry) ∨ r.exit = some n ∨ r.stay = some n := by
  simp [callbackNames]

namespace AutomatonRecord

/-- All names that the record refers to are known, no state is listed twice, and the error state is
listed as it is given, if it is listed. -/
structure Valid (r : AutomatonRecord) (g : Registries κ) : Prop where
  distinct : (r.states.map (·.name)).Nodup
  error : ∀ s, (r.states.find? fun s => s.name == r.error.name) = some s → s = r.error
  start : r.start ∈ r.knownNames
  ends : ∀ n ∈ r.ends, n ∈ r.knownNames
  source : ∀ t ∈ r.transitions, t.source ∈ r.knownNames
  tag : ∀ t ∈ r.transitions, g.triggers.contains t.trigger.tag = true
  target : ∀ t ∈ r.transitions, ∀ n ∈ t.targets, n ∈ r.knownNames
  callback : ∀ s ∈ r.states ++ [r.error], ∀ n ∈ s.callbackNames, g.callbacks.contains n = true

theorem knows_iff {r : AutomatonRecord} {n : String} : r.knows n = true ↔ n ∈ r.knownNames := by
  simp [knows]

/-- Nothing is repeated exactly if the list has no duplicates and meets none of the names before. -/
theorem repeated_eq_nil (before l : List String) :
    repeated before l = [] ↔ l.Nodup ∧ ∀ n ∈ l, n ∉ before := by
  induction l generalizing before with
  | nil => simp [repeated]
  | cons n l ih =>
    unfold repeated
    -- a name that was met is reported; one that was not is met from here on
    cases hn : before.contains n with
    | true =>
      have hmem : n ∈ before := by simpa using hn
      simp [hmem]
    | false =>
      have hmem : n ∉ before := by simpa using hn
      rw [if_neg (by simp), ih, List.nodup_cons]
      constructor
      · rintro ⟨hl, hfree⟩
        refine ⟨⟨fun h => hfree n h List.mem_cons_self, hl⟩, fun m hm => ?_⟩
        rcases List.mem_cons.1 hm with rfl | hm
        · exact hmem
        · exact fun h => hfree m hm (List.mem_cons_of_mem n h)
      · rintro ⟨⟨hnl, hl⟩, hfree⟩
        refine ⟨hl, fun m hm h => ?_⟩
        rcases List.mem_cons.1 h with rfl | h
        · exact hnl hm
        · exact hfree m (List.mem_cons_of_mem n hm) h

theorem errorAgrees_iff {r : AutomatonRecord} : r.errorAgrees = true ↔
    ∀ s, (r.states.find? fun s => s.name == r.error.name) = some s → s = r.error := by
  unfold errorAgrees
  cases r.states.find? fun s => s.name == r.error.name with
  | none => simp
  | some s => simp

theorem transitionViolations_eq_nil {r : AutomatonRecord} {g : TriggerRegistry κ}
    {t : TransitionRecord} : r.transitionViolations g t = [] ↔
      t.source ∈ r.knownNames ∧ g.contains t.trigger.tag = true ∧
        ∀ n ∈ t.targets, n ∈ r.knownNames := by
  simp only [transitionViolations, List.append_eq_nil_iff, List.flatMap_eq_nil_iff,
    Violation.reportUnless_eq_nil, knows_iff, and_assoc]

theorem callbackViolations_eq_nil {g : CallbackRegistry} {s : StateRecord} :
    callbackViolations g s = [] ↔ ∀ n ∈ s.callbackNames, g.contains n = true := by
  simp only [callbackViolations, List.flatMap_eq_nil_iff, Violation.reportUnless_eq_nil]

/-- The checks report nothing exactly if the record is valid. -/
theorem violations_eq_nil_iff {r : AutomatonRecord} {g : Registries κ} :
    r.violations g = [] ↔ r.Valid g := by
  have hstates : r.stateViolations = [] ↔ (r.states.map (·.name)).Nodup := by
    unfold stateViolations
    rw [List.map_eq_nil_iff, repeated_eq_nil]
    simp
  simp only [violations, List.append_eq_nil_iff, List.flatMap_eq_nil_iff, hstates,
    Violation.reportUnless_eq_nil, errorAgrees_iff, knows_iff, transitionViolations_eq_nil,
    callbackViolations_eq_nil]
  constructor
  · rintro ⟨⟨⟨⟨⟨hdistinct, herror⟩, hstart⟩, hends⟩, htransitions⟩, hcallbacks⟩
    exact ⟨hdistinct, herror, hstart, hends, fun t ht => (htransitions t ht).1,
      fun t ht => (htransitions t ht).2.1, fun t ht => (htransitions t ht).2.2, hcallbacks⟩
  · intro h
    exact ⟨⟨⟨⟨⟨h.distinct, h.error⟩, h.start⟩, h.ends⟩,
      fun t ht => ⟨h.source t ht, h.tag t ht, h.target t ht⟩⟩, h.callback⟩

end AutomatonRecord

end HookedAutomata
