import HookedAutomata.Proofs.OwnStates
import HookedAutomata.Proofs.SubsetConstruction
import HookedAutomata.Proofs.Wirings

/-!
# Automata that cannot be told apart

Two automata may have the same names in all places (`Automaton.SameNames`) and yet other instances,
other hooks, and their transitions in another order. What a host can find out by driving a run does
not tell them apart: two runs that are driven by the same actions (`Run.Driven`), each in any
wirings, answer the same at each action and show the same names after it.

The main statement is `Run.Driven.observed`.
-/

namespace HookedAutomata

variable {κ : Type} [CustomTrigger κ]

/-! ## The same names in all places -/

namespace Automaton

/-- The same names as start and error state, the same end names, and entries for the same keys with
targets of the same names. -/
structure SameNames (a b : Automaton κ) : Prop where
  start : a.start.name = b.start.name
  error : a.error.name = b.error.name
  ends : a.endNames = b.endNames
  entries : ∀ n on, (a.table.transitions.find? n on).map (·.targets.names) =
    (b.table.transitions.find? n on).map (·.targets.names)

theorem SameNames.alike {a b : Automaton κ} (h : a.SameNames b) : a.Alike b where
  start := h.start
  error := h.error
  direct m on n := by
    have hnames : ∀ c : Automaton κ, ((c.table.direct m on).has n = true ↔
        n ∈ ((c.table.transitions.find? m on).map (·.targets.names)).getD []) := by
      intro c
      show ((c.table.transitions.targets m on).has n = true ↔ _)
      rw [Transitions.targets_eq, ← SortedSet.mem_names]
      cases c.table.transitions.find? m on with
      | none => rfl
      | some e => rfl
    rw [Bool.eq_iff_iff, hnames, hnames, h.entries]
  ends n _ := by
    unfold isEnd
    rw [h.ends]

end Automaton

/-- Entries that match one by one, in whatever order, are found alike. -/
theorem Transitions.find?_names_of_entries [EquivBEq κ] {m m' : Transitions κ}
    (h : ∀ e ∈ m.entries, ∃ e' ∈ m'.entries,
      e'.isFor e.source.name e.trigger = true ∧ e'.targets.names = e.targets.names)
    (h' : ∀ e' ∈ m'.entries, ∃ e ∈ m.entries, e.isFor e'.source.name e'.trigger = true)
    (n : String) (on : Trigger κ) :
    (m.find? n on).map (·.targets.names) = (m'.find? n on).map (·.targets.names) := by
  -- an entry that has a key is the one found for it
  have hfound : ∀ (k : Transitions κ) (e : Entry κ), e ∈ k.entries → ∀ n on,
      e.isFor n on = true → k.find? n on = some e := by
    intro k e he n on hfor
    obtain ⟨hn, hon⟩ := Bool.and_eq_true_iff.1 hfor
    rw [← beq_iff_eq.1 hn, ← k.find?_congr hon]
    exact find?_of_mem he
  have hkey : ∀ e e' : Entry κ, e'.isFor e.source.name e.trigger = true →
      e.isFor n on = true → e'.isFor n on = true := by
    intro e e' hsame hfor
    rw [Entry.isFor_congr hsame]
    exact hfor
  cases hfind : m.find? n on with
  | some e =>
    obtain ⟨e', he', hsame, hnames⟩ := h e (mem_of_find? hfind)
    rw [hfound m' e' he' n on (hkey e e' hsame (isFor_of_find? hfind))]
    exact congrArg some hnames.symm
  | none =>
    cases hfind' : m'.find? n on with
    | none => rfl
    | some e' =>
      obtain ⟨e, he, hsame⟩ := h' e' (mem_of_find? hfind')
      rw [hfound m e he n on (hkey e' e hsame (isFor_of_find? hfind'))] at hfind
      cases hfind

/-! ## Runs that are driven alike -/

namespace Run

/-- The run is led to another by the actions, each of them in some wiring. -/
inductive Driven : Run κ → List (Action κ) → Run κ → Prop where
  | done (r : Run κ) : Driven r [] r
  | act {r r' : Run κ} {c : Action κ} {cs : List (Action κ)} (w : Wiring)
      (rest : Driven (r.act w c).run cs r') : Driven r (c :: cs) r'

theorem Driven.next_of_cons {r r' : Run κ} {c : Action κ} {cs : List (Action κ)}
    (h : r.Driven (c :: cs) r') : (r.next c).Driven cs r' := by
  cases h with
  | act w rest =>
    rw [act_eq] at rest
    exact rest

/-- Runs that are in step stay so while they are driven by the same actions. -/
theorem IsBisimulation.driven {R : Run κ → Run κ → Prop} (hR : IsBisimulation R) {q q' r r' : Run κ}
    (h : R q r) {cs : List (Action κ)} (hq : q.Driven cs q') (hr : r.Driven cs r') : R q' r' := by
  induction cs generalizing q r with
  | nil =>
    cases hq
    cases hr
    exact h
  | cons c cs ih => exact ih (hR.next h c) hq.next_of_cons hr.next_of_cons

theorem Alike.driven {q q' r r' : Run κ} (h : q.Alike r) {cs : List (Action κ)}
    (hq : q.Driven cs q') (hr : r.Driven cs r') : q'.Alike r' :=
  isBisimulation.driven h hq hr

/-- What an action answers does not depend on which of two runs that are alike it is done with, nor
on the wiring. -/
theorem Alike.result {q r : Run κ} (h : q.Alike r) (c : Action κ) (w v : Wiring) :
    (q.act w c).result = (r.act v c).result := by
  rw [act_eq, act_eq]
  exact h.answer c

/-- **Behaviour depends on names alone.** Two automata have the same names in all places. Two new
runs of them under one policy are driven by the same actions, each action in any wiring, so with any
hooks and with whatever has been rewired by then. Then the runs are in states of the same names, are
both over or both not, have histories of the same names, and answer any further action alike. -/
theorem Driven.observed {a b : Automaton κ} (h : a.SameNames b) {id id' : Uuid} {policy : Policy}
    {cs : List (Action κ)} {q r : Run κ} (hq : (fresh id a policy).Driven cs q)
    (hr : (fresh id' b policy).Driven cs r) :
    q.current.names = r.current.names ∧ q.atEnd = r.atEnd ∧
      q.history.names = r.history.names ∧
      ∀ (c : Action κ) (w v : Wiring), (q.act w c).result = (r.act v c).result := by
  have hfresh : (fresh id a policy).Alike (fresh id' b policy) := ⟨h.alike, rfl, rfl, rfl⟩
  have halike : q.Alike r := hfresh.driven hq hr
  exact ⟨halike.current, halike.atEnd, halike.history, halike.result⟩

/-- The shuttle over other instances, with its transitions in another order. -/
def shuttleTwin : Automaton Symbol :=
  .assemble ⟨"idle", 7⟩ ⟨"error", 4⟩ (.singleton "done") <| .ofTransitions
    ⟨[⟨⟨"busy", 6⟩, .text "go", .ofList [⟨"done", 5⟩, ⟨"busy", 6⟩]⟩,
      ⟨⟨"idle", 7⟩, .epsilon, .singleton ⟨"busy", 6⟩⟩,
      ⟨⟨"busy", 6⟩, .epsilon, .singleton ⟨"idle", 7⟩⟩], by decide⟩

theorem sameNames_shuttleTwin : shuttle.SameNames shuttleTwin := by
  refine ⟨rfl, rfl, rfl, Transitions.find?_names_of_entries ?_ ?_⟩
  · decide
  · decide

theorem Driven.observed_shuttle :
    let word : List (Action Symbol) := [.start, .update (.text "go")]
    let q := (((fresh default shuttle {}).act .logging .start).run.act .logging
      (.update (.text "go"))).run
    let r := (((fresh default shuttleTwin {}).act {} .start).run.act {} (.update (.text "go"))).run
    shuttle.SameNames shuttleTwin ∧ (fresh default shuttle {}).Driven word q ∧
      (fresh default shuttleTwin {}).Driven word r ∧
      q.current.names = r.current.names ∧ q.atEnd = r.atEnd ∧
      q.history.names = r.history.names ∧
      ∀ (c : Action Symbol) (w v : Wiring), (q.act w c).result = (r.act v c).result := by
  intro word q r
  have hq : (fresh default shuttle {}).Driven word q := .act _ (.act _ (.done q))
  have hr : (fresh default shuttleTwin {}).Driven word r := .act _ (.act _ (.done r))
  exact ⟨sameNames_shuttleTwin, hq, hr, Driven.observed sameNames_shuttleTwin hq hr⟩

end Run

end HookedAutomata
