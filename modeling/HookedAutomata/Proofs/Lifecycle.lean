import HookedAutomata.Proofs.SameNames

/-!
# The lifecycle of a run

A run is in some state from a start until the next reset, and at no other time. Whatever the policy
makes of a step, the step leaves the run in some state (`Run.isStarted_next`), so no run stops for
want of states. A run that is in no state refuses steps, and a refused step is as good as none.

A word is therefore taken as a whole or not at all. A run that was started takes every word, one
answer for each trigger, and a word of two parts does what its parts do one after the other
(`Run.updateAll_append`).

The main statement is `Run.Driven.lifecycle`.
-/

namespace HookedAutomata.Run

variable {κ : Type} [CustomTrigger κ]

/-! ## Between start and reset -/

/-- A start is among the actions, and no reset comes after it. -/
def StartedBy (cs : List (Action κ)) : Prop :=
  ∃ before rest, cs = before ++ .start :: rest ∧ Action.reset ∉ rest

omit [CustomTrigger κ] in
theorem not_startedBy_nil : ¬ StartedBy ([] : List (Action κ)) := by
  rintro ⟨before, rest, h, -⟩
  cases before <;> cases h

omit [CustomTrigger κ] in
/-- The first action is the start that counts, or a later one is. -/
theorem startedBy_cons {c : Action κ} {cs : List (Action κ)} :
    StartedBy (c :: cs) ↔ (c = .start ∧ Action.reset ∉ cs) ∨ StartedBy cs := by
  constructor
  · rintro ⟨before, rest, h, hrest⟩
    cases before with
    | nil =>
      obtain ⟨rfl, rfl⟩ := List.cons.inj h
      exact .inl ⟨rfl, hrest⟩
    | cons d before =>
      obtain ⟨rfl, rfl⟩ := List.cons.inj h
      exact .inr ⟨before, rest, rfl, hrest⟩
  · rintro (⟨rfl, hcs⟩ | ⟨before, rest, rfl, hrest⟩)
    · exact ⟨[], cs, rfl, hcs⟩
    · exact ⟨c :: before, rest, rfl, hrest⟩

theorem isStarted_iff {r : Run κ} : r.isStarted = true ↔ r.current.isEmpty = false := by
  unfold isStarted
  cases r.current.isEmpty <;> simp

theorem movedAll_of_isEmpty {r : Run κ} (h : r.current.isEmpty = true) (word : List (Trigger κ)) :
    r.movedAll word = r := by
  cases word with
  | nil => rfl
  | cons on rest =>
    unfold movedAll
    rw [if_pos h]

theorem isEmpty_movedAll {r : Run κ} (h : r.current.isEmpty = false) (word : List (Trigger κ)) :
    (r.movedAll word).current.isEmpty = false :=
  movedAll_invariant (P := fun q => q.current.isEmpty = false)
    (fun _ on hq _ => isEmpty_moved hq on) h word

/-- A start leads into some state, a reset out of all, and nothing else does either. -/
theorem isStarted_next (r : Run κ) (c : Action κ) :
    (r.next c).isStarted = true ↔ c = .start ∨ (r.isStarted = true ∧ c ≠ .reset) := by
  rw [isStarted_iff, isStarted_iff]
  cases c with
  | start => simp [next, r.isEmpty_begun]
  | update on =>
    cases hempty : r.current.isEmpty with
    | true => simp [next, hempty]
    | false => simp [next, hempty, isEmpty_moved hempty on]
  | updateAll word =>
    cases hempty : r.current.isEmpty with
    | true => simp [next, movedAll_of_isEmpty hempty word, hempty]
    | false => simp [next, isEmpty_movedAll hempty word]
  | reset =>
    have hnone : r.reset.current.isEmpty = true := rfl
    simp [next, hnone]
  | atEnd => simp [next]

/-- Actions leave a run in some state if they start it for good, or if it was started before and
none of them is a reset. -/
theorem Driven.isStarted_iff_startedBy {r r' : Run κ} {cs : List (Action κ)} (h : r.Driven cs r') :
    r'.isStarted = true ↔ StartedBy cs ∨ (r.isStarted = true ∧ Action.reset ∉ cs) := by
  induction cs generalizing r with
  | nil =>
    cases h
    simp [not_startedBy_nil]
  | cons c cs ih =>
    rw [ih h.next_of_cons, isStarted_next, startedBy_cons, List.mem_cons, not_or]
    -- if the first action is a start, it counts for the rest unless a reset follows
    rw [ne_comm, or_and_right, and_assoc, ← or_assoc, or_comm (a := StartedBy cs)]

/-! ## Words -/

theorem movedAll_append (r : Run κ) (xs ys : List (Trigger κ)) :
    r.movedAll (xs ++ ys) = (r.movedAll xs).movedAll ys := by
  induction xs generalizing r with
  | nil => rfl
  | cons on xs ih =>
    cases hempty : r.current.isEmpty with
    | true => rw [movedAll_of_isEmpty hempty, movedAll_of_isEmpty hempty, movedAll_of_isEmpty hempty]
    | false =>
      rw [List.cons_append, movedAll, movedAll, hempty]
      exact ih (r.moved on)

/-- A run that is in some state answers each trigger of a word. -/
theorem exists_answers {r : Run κ} (h : r.current.isEmpty = false) (word : List (Trigger κ)) :
    ∃ bs, r.answers word = .ok bs ∧ bs.length = word.length := by
  induction word generalizing r with
  | nil => exact ⟨[], rfl, rfl⟩
  | cons on word ih =>
    obtain ⟨bs, hbs, hlength⟩ := ih (isEmpty_moved h on)
    refine ⟨(!(r.moved on).atEnd) :: bs, ?_, by rw [List.length_cons, hlength, List.length_cons]⟩
    rw [answers, h, hbs]
    rfl

theorem answers_append {r : Run κ} (h : r.current.isEmpty = false) {xs ys : List (Trigger κ)}
    {bs cs : List Bool} (hbs : r.answers xs = .ok bs) (hcs : (r.movedAll xs).answers ys = .ok cs) :
    r.answers (xs ++ ys) = .ok (bs ++ cs) := by
  induction xs generalizing r bs with
  | nil =>
    cases hbs
    exact hcs
  | cons on xs ih =>
    obtain ⟨ds, hds, -⟩ := exists_answers (isEmpty_moved h on) xs
    rw [answers, h, hds] at hbs
    cases hbs
    rw [movedAll, h] at hcs
    rw [List.cons_append, answers, h, ih (isEmpty_moved h on) hds hcs]
    rfl

theorem allConsultations_append {r : Run κ} (h : r.current.isEmpty = false)
    (xs ys : List (Trigger κ)) :
    r.allConsultations (xs ++ ys) = r.allConsultations xs ++ (r.movedAll xs).allConsultations ys := by
  induction xs generalizing r with
  | nil => rfl
  | cons on xs ih =>
    rw [List.cons_append, allConsultations, allConsultations, movedAll, h]
    simp only [Bool.false_eq_true, if_false]
    rw [ih (isEmpty_moved h on), List.append_assoc]

/-- A run that is in some state takes every word, with one answer for each trigger. What it does
with a word of two parts is what it does with the first and then with the second. -/
theorem updateAll_append {r : Run κ} (h : r.current.isEmpty = false) (w : Wiring)
    (xs ys : List (Trigger κ)) :
    let first := r.updateAll w xs
    let second := first.run.updateAll first.wiring ys
    ∃ bs cs, first.result = .ok bs ∧ bs.length = xs.length ∧ second.result = .ok cs ∧
      cs.length = ys.length ∧ r.updateAll w (xs ++ ys) = ⟨.ok (bs ++ cs), second.run, second.wiring⟩ := by
  intro first second
  obtain ⟨bs, hbs, hlength⟩ := exists_answers h xs
  obtain ⟨cs, hcs, hlength'⟩ := exists_answers (isEmpty_movedAll h xs) ys
  have hfirst : first = ⟨.ok bs, r.movedAll xs, w.fireAll (r.allConsultations xs)⟩ := by
    rw [← hbs]
    exact r.updateAll_eq w xs
  have hsecond : second = ⟨.ok cs, (r.movedAll xs).movedAll ys,
      (w.fireAll (r.allConsultations xs)).fireAll ((r.movedAll xs).allConsultations ys)⟩ := by
    show first.run.updateAll first.wiring ys = _
    rw [hfirst, ← hcs]
    exact updateAll_eq _ _ ys
  refine ⟨bs, cs, by rw [hfirst], hlength, by rw [hsecond], hlength', ?_⟩
  rw [updateAll_eq, answers_append h hbs hcs, movedAll_append, allConsultations_append h,
    Wiring.fireAll_append, hsecond]

/-! ## The lifecycle -/

/-- **The lifecycle of a run.** A new run is driven by actions, each in any wiring.

It is in some state exactly if it was started and not reset since. A step is refused exactly if it is
not, and then the run and the wiring, its hooks and its log, are as before; a step that is not
refused leaves the run in some state.

A run that was started takes every word, with one answer for each trigger, and a word of two parts
as the one part after the other. One that was not takes the empty word alone: any other is refused,
and nothing changes. -/
theorem Driven.lifecycle {id : Uuid} {a : Automaton κ} {policy : Policy} {cs : List (Action κ)}
    {r : Run κ} (h : (fresh id a policy).Driven cs r) :
    (r.isStarted = true ↔ ∃ before rest, cs = before ++ .start :: rest ∧ Action.reset ∉ rest) ∧
    (∀ w on, ((r.update w on).result = .error .notStarted ↔ r.isStarted = false) ∧
      ((r.update w on).result = .error .notStarted →
        (r.update w on).run = r ∧ (r.update w on).wiring = w) ∧
      ∀ b, (r.update w on).result = .ok b → (r.update w on).run.isStarted = true) ∧
    (r.isStarted = true → ∀ w xs ys,
      let first := r.updateAll w xs
      let second := first.run.updateAll first.wiring ys
      ∃ bs cs, first.result = .ok bs ∧ bs.length = xs.length ∧ second.result = .ok cs ∧
        cs.length = ys.length ∧
        r.updateAll w (xs ++ ys) = ⟨.ok (bs ++ cs), second.run, second.wiring⟩) ∧
    (r.isStarted = false → ∀ w, r.updateAll w [] = ⟨.ok [], r, w⟩ ∧
      ∀ on rest, r.updateAll w (on :: rest) = ⟨.error .notStarted, r, w⟩) := by
  refine ⟨?_, fun w on => ?_, fun hstarted w xs ys => ?_, fun hstarted w => ⟨rfl, fun on rest => ?_⟩⟩
  · have hnever : (fresh id a policy).isStarted = false := rfl
    rw [h.isStarted_iff_startedBy, hnever]
    simp [StartedBy]
  · cases hempty : r.current.isEmpty with
    | true =>
      rw [update_of_isEmpty hempty]
      simp [isStarted, hempty]
    | false =>
      rw [update_eq hempty]
      simp [isStarted, hempty, isEmpty_moved hempty on]
  · exact updateAll_append (isStarted_iff.1 hstarted) w xs ys
  · have hempty : r.current.isEmpty = true := by
      unfold isStarted at hstarted
      simpa using hstarted
    unfold updateAll
    rw [update_of_isEmpty hempty]

/-- The shuttle is started and reset, and then started again. -/
theorem Driven.lifecycle_shuttle :
    let r := (((fresh default shuttle {}).act .logging .start).run.act .logging .reset).run
    let q := (r.act {} .start).run
    (fresh default shuttle {}).Driven [.start, .reset] r ∧ r.isStarted = false ∧
      r.updateAll .logging [.text "go"] = ⟨.error .notStarted, r, .logging⟩ ∧
      (fresh default shuttle {}).Driven [.start, .reset, .start] q ∧ q.isStarted = true ∧
      ∃ bs, (q.updateAll {} [.text "go", .text "halt"]).result = .ok bs := by
  intro r q
  have hr : (fresh default shuttle {}).Driven [.start, .reset] r := .act _ (.act _ (.done r))
  have hq : (fresh default shuttle {}).Driven [.start, .reset, .start] q :=
    .act _ (.act _ (.act _ (.done q)))
  have hstopped : r.isStarted = false := rfl
  obtain ⟨hstarted, -, hwords, -⟩ := hq.lifecycle
  obtain ⟨-, -, -, hrefused⟩ := hr.lifecycle
  have hstart : q.isStarted = true := hstarted.2 ⟨[.start, .reset], [], rfl, List.not_mem_nil⟩
  obtain ⟨bs, cs, -, -, -, -, hword⟩ := hwords hstart {} [.text "go"] [.text "halt"]
  exact ⟨hr, hstopped, (hrefused hstopped .logging).2 _ _, hq, hstart, bs ++ cs,
    congrArg Outcome.result hword⟩

end HookedAutomata.Run
