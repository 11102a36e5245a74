import HookedAutomata.Proofs.MergedRuns

/-!
# A start forgets the past

Whatever a run has gone through, and whether or not it is in some state, a start does with it what
it does after a reset. What is left of the past is the history, and of that a step does nothing but
add to it. So two runs of one automaton (`Run.Executes`) go abreast from a start on (`Run.Abreast`):
they are in states of the same names, and behind their pasts their histories have the same names.

A run may also have been loaded from a record of the automaton. That is any record that depicts it,
written by hand or not: one that is made from it does (`Automaton.depicts_toRecord`), and so does one
that it was loaded from (`AutomatonRecord.depicts_of_load`).

The history is looked up in one place only, to see whether an end state has ended the run. Where end
states end no run, runs that go abreast answer the same (`Run.Abreast.answer`).

The main statement is `Run.Executes.restart_forgets`.
-/

namespace HookedAutomata

variable {κ : Type} [CustomTrigger κ]

/-! ## Runs of one automaton -/

/-- What is loaded from a record is depicted by it. -/
theorem AutomatonRecord.depicts_of_load [EquivBEq κ] {r : AutomatonRecord} {g : Registries κ}
    {v w : Wiring} {a : Automaton κ} (h : r.load g v = .ok (a, w)) : r.Depicts g.triggers a := by
  obtain ⟨-, states, es, hreplayed⟩ := replayed_of_load h
  exact hreplayed.depicts

namespace Run

/-- The runs of an automaton under a policy: a new one, one that is loaded from a record that
depicts the automaton, and from any of these what an action makes of it, in whatever wiring. -/
inductive Executes (a : Automaton κ) (policy : Policy) : Run κ → Prop where
  | made (id : Uuid) : Executes a policy (fresh id a policy)
  | loaded {q : RunRecord} {g : Registries κ} {v w : Wiring} {r : Run κ}
      (h : q.load g v = .ok (r, w)) (hrecord : q.automaton.Depicts g.triggers a)
      (hpolicy : q.policy = policy) : Executes a policy r
  | act {r : Run κ} (h : Executes a policy r) (w : Wiring) (c : Action κ) :
      Executes a policy (r.act w c).run

/-- Actions change neither the automaton nor the policy. -/
theorem SameRules.next {x z : Run κ} (h : x.SameRules z) (c : Action κ) : (x.next c).SameRules z :=
  next_invariant (P := fun x => x.SameRules z) (fun _ h => ⟨h.automaton, h.policy⟩)
    (fun _ _ _ h => ⟨h.automaton, h.policy⟩) (fun _ h => ⟨h.automaton, h.policy⟩) h c

/-- A run of an automaton goes by the same rules as a new one. -/
theorem Executes.sameRules [EquivBEq κ] {a : Automaton κ} {policy : Policy} {x : Run κ}
    (h : x.Executes a policy) (id : Uuid) : x.SameRules (fresh id a policy) := by
  induction h with
  | made _ => exact ⟨⟨rfl, rfl, fun _ _ _ => rfl, fun _ _ => rfl⟩, rfl⟩
  | loaded h hrecord hpolicy =>
    obtain ⟨-, b, current, snapshots, hb, -, -, rfl⟩ := RunRecord.load_eq_ok_iff.1 h
    exact ⟨(AutomatonRecord.depicts_of_load hb).alike hrecord, hpolicy⟩
  | act _ w c ih =>
    rw [act_eq]
    exact ih.next c

theorem Executes.driven {a : Automaton κ} {policy : Policy} {x x' : Run κ} {cs : List (Action κ)}
    (h : x.Executes a policy) (hx : x.Driven cs x') : x'.Executes a policy := by
  induction hx with
  | done _ => exact h
  | act w _ ih => exact ih (h.act w _)

/-! ## Runs abreast -/

/-- The runs go by the same rules and are in states of the same names, and what comes behind their
pasts in their histories has the same names. -/
structure Abreast (past past' : List (List String)) (q r : Run κ) : Prop where
  rules : q.SameRules r
  current : q.current.names = r.current.names
  history : ∃ new, q.history.names = past ++ new ∧ r.history.names = past' ++ new

namespace Abreast

variable {past past' : List (List String)} {q r : Run κ}

/-- But for their histories the runs are alike. -/
theorem alike (h : Abreast past past' q r) :
    Alike { q with history := ∅ } { r with history := ∅ } :=
  ⟨h.rules.automaton, h.rules.policy, h.current, rfl⟩

theorem isEmpty (h : Abreast past past' q r) : q.current.isEmpty = r.current.isEmpty :=
  SortedSet.isEmpty_congr h.current

/-- A snapshot of the same names goes to what is new. -/
theorem record (h : Abreast past past' q r) {s t : StateSet} (hst : s.names = t.names) :
    ∃ new, (q.history.record s).names = past ++ new ∧
      (r.history.record t).names = past' ++ new := by
  obtain ⟨new, hq, hr⟩ := h.history
  refine ⟨new ++ [t.names].filter (· ≠ []), ?_, ?_⟩
  · rw [Sightings.names_record, hq, hst, List.append_assoc]
  · rw [Sightings.names_record, hr, List.append_assoc]

theorem begun (h : Abreast past past' q r) : Abreast past past' q.begun r.begun :=
  ⟨⟨h.rules.automaton, h.rules.policy⟩, h.alike.initial, h.record h.alike.endsAmong_initial⟩

theorem moved (h : Abreast past past' q r) (on : Trigger κ) :
    Abreast past past' (q.moved on) (r.moved on) :=
  ⟨⟨h.rules.automaton, h.rules.policy⟩, (h.alike.moved on).current,
    h.record (h.alike.sighted on)⟩

theorem reset (h : Abreast past past' q r) : Abreast past past' q.reset r.reset :=
  ⟨⟨h.rules.automaton, h.rules.policy⟩, rfl, h.history⟩

theorem isBisimulation : IsBisimulation (Abreast past past' : Run κ → Run κ → Prop) where
  isEmpty h := h.isEmpty
  begun h := h.begun
  moved on h := h.moved on
  reset h := h.reset

/-- Where end states end no run, a run is over by its current states alone. -/
theorem atEnd (h : Abreast past past' q r) (hopen : q.policy.stopAtEnd = false) :
    q.atEnd = r.atEnd := by
  have hforget : ∀ x : Run κ, x.policy.stopAtEnd = false →
      x.atEnd = Run.atEnd { x with history := ∅ } := by
    intro x hx
    simp [Run.atEnd, hx]
  rw [hforget q hopen, hforget r (h.rules.policy ▸ hopen)]
  exact h.alike.atEnd

theorem answer (h : Abreast past past' q r) (hopen : q.policy.stopAtEnd = false) (c : Action κ) :
    q.answer c = r.answer c := by
  have hboth : IsBisimulation fun q r : Run κ =>
      Abreast past past' q r ∧ q.policy.stopAtEnd = false :=
    ⟨fun h => h.1.isEmpty, fun h => ⟨h.1.begun, h.2⟩, fun on h => ⟨h.1.moved on, h.2⟩,
      fun h => ⟨h.1.reset, h.2⟩⟩
  exact hboth.answer (fun h => h.1.atEnd h.2) ⟨h, hopen⟩ c

end Abreast

/-! ## Restarts -/

/-- Runs by the same rules go abreast from a start on, whatever states they were in. -/
theorem SameRules.abreast_begun {x y : Run κ} (h : x.SameRules y) :
    Abreast x.history.names y.history.names x.begun y.begun := by
  have hreset : Abreast x.history.names y.history.names x.reset y.reset :=
    ⟨⟨h.automaton, h.policy⟩, rfl, [], (List.append_nil _).symm, (List.append_nil _).symm⟩
  -- a start does not look at the current states
  exact hreset.begun

/-- **A start forgets the past.** Two runs of one automaton under one policy have come about in any
way. They were new once, or were loaded from any records that depict the automaton, by any
registries, and any actions were done with them, in any wirings. Now both are started, whether or
not they are in some state, and then the same actions are done with both, each in any wiring.

From the start on they are in states of the same names, and what is added to their histories has the
same names. If end states end no run, then both starts answer the same, and so does every further
action. -/
theorem Executes.restart_forgets [EquivBEq κ] {a : Automaton κ} {policy : Policy}
    {x y x' y' : Run κ} (hx : x.Executes a policy) (hy : y.Executes a policy) {cs : List (Action κ)}
    (hx' : x.Driven (.start :: cs) x') (hy' : y.Driven (.start :: cs) y') :
    x'.current.names = y'.current.names ∧
    (∃ new, x'.history.names = x.history.names ++ new ∧
      y'.history.names = y.history.names ++ new) ∧
    (policy.stopAtEnd = false →
      (∀ u v, (x.act u .start).result = (y.act v .start).result) ∧
      ∀ c u v, (x'.act u c).result = (y'.act v c).result) := by
  have hrules : x.SameRules y := (hx.sameRules default).trans (hy.sameRules default).symm
  have hstart : Abreast x.history.names y.history.names x.begun y.begun := hrules.abreast_begun
  have hdriven : Abreast x.history.names y.history.names x' y' :=
    Abreast.isBisimulation.driven hstart hx'.next_of_cons hy'.next_of_cons
  refine ⟨hdriven.current, hdriven.history, fun hopen => ⟨fun u v => ?_, fun c u v => ?_⟩⟩
  · have hopenx : x.policy.stopAtEnd = false := (hx.sameRules default).policy ▸ hopen
    rw [act_eq, act_eq]
    exact congrArg (fun b => Answer.flag (!b)) (hstart.atEnd hopenx)
  · have hopenx : x'.policy.stopAtEnd = false :=
      ((hx.driven hx').sameRules default).policy ▸ hopen
    rw [act_eq, act_eq]
    exact hdriven.answer hopenx c

/-- The turnstile is loaded once, made a new run of and opened. Its record is loaded once more, as a
run that has failed after it was opened twice. Both are started as they are. -/
theorem Executes.restart_forgets_turnstile :
    let g := Registries.logging
    let coin : Action Symbol := .update (.text "coin")
    let failed := { turnstileRecord with current := ["error"], history := [["open"], ["open"]] }
    ∃ (a : Automaton Symbol) (v : Wiring) (y : Run Symbol) (w : Wiring),
      turnstileRecord.automaton.load g {} = .ok (a, v) ∧ failed.load g v = .ok (y, w) ∧
      let x := (((fresh default a {}).act v .start).run.act v coin).run
      let x' := ((x.act v .start).run.act w coin).run
      let y' := ((y.act w .start).run.act {} coin).run
      x.Executes a {} ∧ y.Executes a {} ∧ x.Driven [.start, coin] x' ∧ y.Driven [.start, coin] y' ∧
        x'.current.names = y'.current.names ∧
        (∃ new, x'.history.names = x.history.names ++ new ∧
          y'.history.names = y.history.names ++ new) ∧
        (x'.act v coin).result = (y'.act w coin).result := by
  intro g coin failed
  have hloads : ∃ (a : Automaton Symbol) (v : Wiring) (y : Run Symbol) (w : Wiring),
      turnstileRecord.automaton.load Registries.logging {} = .ok (a, v) ∧
        RunRecord.load
          { turnstileRecord with current := ["error"], history := [["open"], ["open"]] }
          Registries.logging v = .ok (y, w) := ⟨_, _, _, _, rfl, rfl⟩
  obtain ⟨a, v, y, w, ha, hloaded⟩ := hloads
  refine ⟨a, v, y, w, ha, hloaded, ?_⟩
  intro x x' y'
  have hx : x.Executes a {} := .act (.act (.made default) v .start) v coin
  have hy : y.Executes a {} := .loaded hloaded (AutomatonRecord.depicts_of_load ha) rfl
  have hx' : x.Driven [.start, coin] x' := .act v (.act w (.done x'))
  have hy' : y.Driven [.start, coin] y' := .act w (.act {} (.done y'))
  obtain ⟨hcurrent, hhistory, hanswers⟩ := hx.restart_forgets hy hx' hy'
  exact ⟨hx, hy, hx', hy', hcurrent, hhistory, (hanswers rfl).2 coin v w⟩

end Run

end HookedAutomata
