import HookedAutomata.Proofs.CanonicalRecords
import HookedAutomata.Proofs.Handles

/-!
# What a record means

A record may repeat a source with its trigger, may spell matching triggers differently, lists its
states in any order, and gives the error state apart or lists it with the others. The replay merges
all of this by names. What comes out is described by the record as it stands
(`AutomatonRecord.Describes`), without the replay:

* a step leads to what the transitions for it list together (`Replayed.has_direct`), and it has an
  entry exactly if there is such a transition, be it one without targets (`Replayed.isSome_find?`);
* a state has the hooks that the names in its record resolve to (`Replayed.carries`).

The main statement is `AutomatonRecord.describes_of_load`.
-/

namespace HookedAutomata

variable {κ : Type} [CustomTrigger κ]

/-! ## Entries for a step -/

/-- Merging makes an entry for each key that is meant. -/
theorem Transitions.isSome_find?_foldl_merge [EquivBEq κ] (m : Transitions κ) (es : List (Entry κ))
    (n : String) (on : Trigger κ) : ((es.foldl merge m).find? n on).isSome =
      ((m.find? n on).isSome || es.any fun e => e.isFor n on) := by
  induction es generalizing m with
  | nil => simp
  | cons e es ih => rw [List.foldl_cons, ih, isSome_find?_merge, List.any_cons, Bool.or_assoc]

/-! ## Hooks of a state -/

/-- The state has the hooks that the names in the record resolve to. -/
structure State.Carries (x : State) (w : Wiring) (g : CallbackRegistry) (q : StateRecord) :
    Prop where
  entry : g.resolve q.entry = .ok (w.hook x .entry)
  exit : g.resolveOptional q.exit = .ok (w.hook x .exit)
  stay : g.resolveOptional q.stay = .ok (w.hook x .stay)

namespace AutomatonRecord

theorem mem_states_of_mem_allStates {r : AutomatonRecord} {q : StateRecord} (h : q ∈ r.allStates) :
    q ∈ r.states ++ [r.error] := by
  unfold allStates at h
  split at h
  · exact List.mem_append_left _ h
  · exact h

variable {r : AutomatonRecord} {g : Registries κ} {v w : Wiring} {states : StateSet}
  {es : List (Entry κ)} {a : Automaton κ}

/-- Each state has the hooks of its record, whichever of the records of its name is taken. -/
theorem Replayed.carries (h : r.Replayed g v w states es a) (hvalid : r.Valid g) {x : State}
    (hx : x ∈ a.states) {q : StateRecord} (hq : q ∈ r.allStates) (hname : q.name = x.name) :
    x.Carries w g.callbacks q := by
  have hcallbacks : ∀ n ∈ q.callbackNames, g.callbacks.contains n = true :=
    hvalid.callback q (mem_states_of_mem_allStates hq)
  obtain ⟨hentry, hexit, hstay⟩ := StateRecord.resolve_of_contains hcallbacks
  have hhooks : w.hooksOf x = q.hooks g.callbacks := h.hooksOf_eq_hooks hx hq hname
  rw [← hhooks] at hentry hexit hstay
  exact ⟨hentry, hexit, hstay⟩

/-! ## The automaton of a record -/

/-- There is an entry for a step exactly if there is a transition for it. -/
theorem Replayed.isSome_find? [EquivBEq κ] (h : r.Replayed g v w states es a) (n : String)
    (on : Trigger κ) : (a.table.transitions.find? n on).isSome = true ↔
      ∃ t ∈ r.transitions, t.IsFor g.triggers n on := by
  rw [h.table, Table.isSome_find?_pin, Table.isSome_find?_pin]
  show ((es.foldl Transitions.merge ∅).find? n on).isSome = true ↔ _
  rw [Transitions.isSome_find?_foldl_merge, Transitions.find?_empty, Option.isSome_none,
    Bool.false_or, List.any_eq_true]
  constructor
  · intro hentry
    obtain ⟨e, he, hfor⟩ := hentry
    obtain ⟨t, ht, hdrawn⟩ := exists_mem_of_forall₂_right h.entries he
    exact ⟨t, ht, hdrawn.isFor_iff.1 hfor⟩
  · intro htransition
    obtain ⟨t, ht, hfor⟩ := htransition
    obtain ⟨e, he, hdrawn⟩ := exists_mem_of_forall₂_left h.entries ht
    exact ⟨e, he, hdrawn.isFor_iff.2 hfor⟩

/-- What a record says about an automaton, and about the hooks of its states in a wiring. -/
structure Describes (r : AutomatonRecord) (g : Registries κ) (w : Wiring) (a : Automaton κ) :
    Prop where
  start : a.start.name = r.start
  error : a.error.name = r.error.name
  ends : ∀ n, a.endNames.has n = true ↔ n ∈ r.ends
  -- what a step leads to is listed by the transitions for it, whichever of them lists it
  direct : ∀ n on k, (a.table.direct n on).has k = true ↔
    ∃ t ∈ r.transitions, t.IsFor g.triggers n on ∧ k ∈ t.targets
  entry : ∀ n on, (a.table.transitions.find? n on).isSome = true ↔
    ∃ t ∈ r.transitions, t.IsFor g.triggers n on
  -- the start and the error state are states like those of the table
  hooks : ∀ x, a.Hands x → (∃ q ∈ r.allStates, q.name = x.name) ∧
    ∀ q ∈ r.allStates, q.name = x.name → x.Carries w g.callbacks q

/-- **A record describes what is loaded from it.** Whatever record is loaded, the start, the error
and the end names are those of the record. A step leads directly to exactly the targets of the
transitions for its source and a matching trigger, and there is an entry for it exactly if there is
such a transition.

Each state was recorded under its name, as one of the listed states or as the error state that is
not listed, and it has the hooks that the names in its record resolve to. -/
theorem describes_of_load [EquivBEq κ] (h : r.load g v = .ok (a, w)) : r.Describes g w a := by
  obtain ⟨hvalid, states, es, hreplayed⟩ := replayed_of_load h
  refine ⟨hreplayed.start_name, hreplayed.error_name, hreplayed.has_endNames, hreplayed.has_direct,
    hreplayed.isSome_find?, fun x hx => ?_⟩
  have hmem : x ∈ a.states := hreplayed.shared.1.hands_iff.1 hx
  exact ⟨hreplayed.exists_mem_allStates hmem,
    fun q hq hname => hreplayed.carries hvalid hmem hq hname⟩

/-- A switch that is written in no order: one step is spelled in two ways, another leads nowhere,
and the error state is given apart. -/
def spelledSwitch : AutomatonRecord where
  states := [⟨"on", "log", none, some "log"⟩, .named "off"]
  transitions := [⟨"off", ⟨"nocase", "Go"⟩, ["on"]⟩, ⟨"on", ⟨"text", "stop"⟩, []⟩,
    ⟨"off", ⟨"nocase", "GO"⟩, ["off", "on"]⟩]
  start := "off"
  error := ⟨"error", "log", none, none⟩
  ends := ["on", "on"]

theorem describes_of_load_spelledSwitch :
    let g : Registries Symbol := { Registries.words with callbacks := Registries.logging.callbacks }
    let go : Trigger Symbol := .custom (.word "gO")
    ∃ a w, spelledSwitch.load g {} = .ok (a, w) ∧ spelledSwitch.Describes g w a ∧
      (a.table.direct "off" go).has "off" = true ∧
      (a.table.transitions.find? "on" (.text "stop")).isSome = true ∧
      (∀ k, (a.table.direct "on" (.text "stop")).has k = false) ∧
      w.hook a.error .entry = some .logging := by
  intro g go
  have hload : ∃ a w, spelledSwitch.load g {} = .ok (a, w) := ⟨_, _, rfl⟩
  obtain ⟨a, w, hload⟩ := hload
  have hdescribes := describes_of_load hload
  refine ⟨a, w, hload, hdescribes, ?_, ?_, fun k => ?_, ?_⟩
  · rw [hdescribes.direct]
    exact ⟨⟨"off", ⟨"nocase", "GO"⟩, ["off", "on"]⟩, by decide,
      ⟨rfl, .custom (.word "GO"), rfl, by decide⟩, by decide⟩
  · rw [hdescribes.entry]
    exact ⟨⟨"on", ⟨"text", "stop"⟩, []⟩, by decide, rfl, .text "stop", rfl, by decide⟩
  · rw [← Bool.not_eq_true, hdescribes.direct]
    rintro ⟨t, ht, ⟨hn, -⟩, hk⟩
    simp only [spelledSwitch, List.mem_cons, List.not_mem_nil, or_false] at ht
    rcases ht with rfl | rfl | rfl
    · exact absurd hn (by decide)
    · cases hk
    · exact absurd hn (by decide)
  · obtain ⟨-, hcarries⟩ := hdescribes.hooks a.error (.inr (.inr rfl))
    have hentry := (hcarries ⟨"error", "log", none, none⟩ (by decide) hdescribes.error.symm).entry
    exact (Except.ok.inj hentry).symm

end AutomatonRecord

end HookedAutomata
