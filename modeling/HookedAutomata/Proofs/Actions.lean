import HookedAutomata.Proofs.Steps

/-!
# Driving a run

A host drives a run by actions (`Run.Action`). Each of them may change the wiring, and the host may
change it in between, so a run is driven in some wiring at each action.

* `Run.act_eq`: the answer, the run afterwards and the slots consulted do not depend on the wiring.
* `Run.Reached` holds of the runs that actions lead to, and `Run.Reached.invariant` is the induction
  over them: what a start, a step and a reset keep holds of all runs that are reached.
* `Run.IsBisimulation` says of two runs that they stay in step where both do the same.
* `Run.shown` and `Run.heard` are what a host sees and what callbacks log, action by action.
-/

namespace HookedAutomata.Run

variable {κ : Type} [CustomTrigger κ]

/-- What a host does with a run. -/
inductive Action (κ : Type) where
  | start
  | update (on : Trigger κ)
  | updateAll (word : List (Trigger κ))
  | reset
  | atEnd

/-- What a host is answered. -/
inductive Answer where
  | done
  | flag (b : Bool)
  | flags (l : List Bool)
  | refused (e : RunError)
  deriving DecidableEq

def Answer.of {α : Type} (f : α → Answer) : Except RunError α → Answer
  | .ok a => f a
  | .error e => .refused e

/-- Does an action. -/
def act (r : Run κ) (w : Wiring) : Action κ → Outcome κ Answer
  | .start =>
    let o := r.start w
    ⟨.flag o.result, o.run, o.wiring⟩
  | .update on =>
    let o := r.update w on
    ⟨.of .flag o.result, o.run, o.wiring⟩
  | .updateAll word =>
    let o := r.updateAll w word
    ⟨.of .flags o.result, o.run, o.wiring⟩
  | .reset => ⟨.done, r.reset, w⟩
  | .atEnd => ⟨.flag r.atEnd, r, w⟩

/-! ## Actions without wiring -/

def movedAll (r : Run κ) : List (Trigger κ) → Run κ
  | [] => r
  | on :: rest => if r.current.isEmpty then r else (r.moved on).movedAll rest

def allConsultations (r : Run κ) : List (Trigger κ) → List (State × Slot)
  | [] => []
  | on :: rest =>
    if r.current.isEmpty then [] else r.consultations on ++ (r.moved on).allConsultations rest

def answers (r : Run κ) : List (Trigger κ) → Except RunError (List Bool)
  | [] => .ok []
  | on :: rest =>
    if r.current.isEmpty then .error .notStarted
    else ((r.moved on).answers rest).map ((!(r.moved on).atEnd) :: ·)

/-- A word gives the answers, leads to the run and fires the slots that are said without wiring. -/
theorem updateAll_eq (r : Run κ) (w : Wiring) (word : List (Trigger κ)) :
    r.updateAll w word =
      ⟨r.answers word, r.movedAll word, w.fireAll (r.allConsultations word)⟩ := by
  induction word generalizing r w with
  | nil => rfl
  | cons on rest ih =>
    unfold updateAll answers movedAll allConsultations
    cases hempty : r.current.isEmpty with
    | true =>
      rw [update_of_isEmpty hempty]
      rfl
    | false =>
      have hrest := ih (r.moved on) (w.fireAll (r.consultations on))
      have hslots : w.fireAll (r.consultations on ++ (r.moved on).allConsultations rest) =
          (w.fireAll (r.consultations on)).fireAll ((r.moved on).allConsultations rest) :=
        Wiring.fireAll_append ..
      -- the rest is read in the wiring that the first step leaves behind
      rw [update_eq hempty]
      simp only [hrest, Bool.false_eq_true, if_false, hslots]

def answer (r : Run κ) : Action κ → Answer
  | .start => .flag (!r.begun.atEnd)
  | .update on =>
    if r.current.isEmpty then .refused .notStarted else .flag (!(r.moved on).atEnd)
  | .updateAll word => .of .flags (r.answers word)
  | .reset => .done
  | .atEnd => .flag r.atEnd

def next (r : Run κ) : Action κ → Run κ
  | .start => r.begun
  | .update on => if r.current.isEmpty then r else r.moved on
  | .updateAll word => r.movedAll word
  | .reset => r.reset
  | .atEnd => r

def slots (r : Run κ) : Action κ → List (State × Slot)
  | .start => r.beginning
  | .update on => if r.current.isEmpty then [] else r.consultations on
  | .updateAll word => r.allConsultations word
  | .reset => []
  | .atEnd => []

/-- What an action does apart from hooks does not depend on the wiring. -/
theorem act_eq (r : Run κ) (w : Wiring) (c : Action κ) :
    r.act w c = ⟨r.answer c, r.next c, w.fireAll (r.slots c)⟩ := by
  cases c with
  | start => simp only [act, answer, next, slots, start_eq]
  | update on =>
    simp only [act, answer, next, slots]
    cases hempty : r.current.isEmpty with
    | true =>
      rw [update_of_isEmpty hempty]
      rfl
    | false =>
      rw [update_eq hempty]
      rfl
  | updateAll word => simp only [act, answer, next, slots, updateAll_eq]
  | reset => rfl
  | atEnd => rfl

/-! ## Runs that are reached -/

/-- The run is reached from `r₀` by actions, each in some wiring. -/
inductive Reached (r₀ : Run κ) : Run κ → Prop where
  | refl : Reached r₀ r₀
  | act {r : Run κ} (w : Wiring) (c : Action κ) (h : Reached r₀ r) : Reached r₀ (r.act w c).run

theorem movedAll_invariant {P : Run κ → Prop}
    (hmoved : ∀ r on, r.current.isEmpty = false → P r → P (r.moved on)) {r : Run κ} (h : P r)
    (word : List (Trigger κ)) : P (r.movedAll word) := by
  induction word generalizing r with
  | nil => exact h
  | cons on rest ih =>
    unfold movedAll
    cases hempty : r.current.isEmpty with
    | true => exact h
    | false => exact ih (hmoved r on hempty h)

/-- What a start, a step and a reset keep, every action keeps. -/
theorem next_invariant {P : Run κ → Prop} (hbegun : ∀ r, P r → P r.begun)
    (hmoved : ∀ r on, r.current.isEmpty = false → P r → P (r.moved on))
    (hreset : ∀ r, P r → P r.reset) {r : Run κ} (h : P r) (c : Action κ) : P (r.next c) := by
  cases c with
  | start => exact hbegun r h
  | update on =>
    simp only [next]
    cases hempty : r.current.isEmpty with
    | true => exact h
    | false => exact hmoved r on hempty h
  | updateAll word => exact movedAll_invariant hmoved h word
  | reset => exact hreset r h
  | atEnd => exact h

/-- What holds of a run, and is kept by a start, a step and a reset, holds of all runs that are
reached. -/
theorem Reached.invariant {P : Run κ → Prop} (hbegun : ∀ r, P r → P r.begun)
    (hmoved : ∀ r on, r.current.isEmpty = false → P r → P (r.moved on))
    (hreset : ∀ r, P r → P r.reset) {r₀ r : Run κ} (h₀ : P r₀) (h : r₀.Reached r) : P r := by
  induction h with
  | refl => exact h₀
  | act w c _ ih =>
    rw [act_eq]
    exact next_invariant hbegun hmoved hreset ih c

/-! ## Runs in step -/

/-- The relation holds only between runs that are both in some state or both in none, and it is kept
where both take a start, a step or a reset. -/
structure IsBisimulation (R : Run κ → Run κ → Prop) : Prop where
  isEmpty : ∀ {q r}, R q r → q.current.isEmpty = r.current.isEmpty
  begun : ∀ {q r}, R q r → R q.begun r.begun
  moved : ∀ {q r} (on : Trigger κ), R q r → R (q.moved on) (r.moved on)
  reset : ∀ {q r}, R q r → R q.reset r.reset

namespace IsBisimulation

variable {R : Run κ → Run κ → Prop} {q r : Run κ}

theorem movedAll (hR : IsBisimulation R) (h : R q r) (word : List (Trigger κ)) :
    R (q.movedAll word) (r.movedAll word) := by
  induction word generalizing q r with
  | nil => exact h
  | cons on rest ih =>
    unfold Run.movedAll
    rw [hR.isEmpty h]
    cases r.current.isEmpty with
    | true => exact h
    | false => exact ih (hR.moved on h)

/-- It is kept where both take any action. -/
theorem next (hR : IsBisimulation R) (h : R q r) (c : Action κ) : R (q.next c) (r.next c) := by
  cases c with
  | start => exact hR.begun h
  | update on =>
    simp only [Run.next]
    rw [hR.isEmpty h]
    cases r.current.isEmpty with
    | true => exact h
    | false => exact hR.moved on h
  | updateAll word => exact hR.movedAll h word
  | reset => exact hR.reset h
  | atEnd => exact h

theorem answers (hR : IsBisimulation R) (hend : ∀ {q r}, R q r → q.atEnd = r.atEnd) (h : R q r)
    (word : List (Trigger κ)) : q.answers word = r.answers word := by
  induction word generalizing q r with
  | nil => rfl
  | cons on rest ih =>
    have hnext : R (q.moved on) (r.moved on) := hR.moved on h
    unfold Run.answers
    rw [hR.isEmpty h, ih hnext, hend hnext]

/-- Where both are over or both are not, both answer the same. -/
theorem answer (hR : IsBisimulation R) (hend : ∀ {q r}, R q r → q.atEnd = r.atEnd) (h : R q r)
    (c : Action κ) : q.answer c = r.answer c := by
  cases c with
  | start => exact congrArg (fun b => Answer.flag (!b)) (hend (hR.begun h))
  | update on =>
    simp only [Run.answer]
    rw [hR.isEmpty h, hend (hR.moved on h)]
  | updateAll word => exact congrArg (Answer.of .flags) (hR.answers hend h word)
  | reset => rfl
  | atEnd => exact congrArg Answer.flag (hend h)

end IsBisimulation

/-! ## What is observed -/

/-- What a host sees of an action: the answer, and of the run afterwards the names of the current
states and those in the history. -/
structure Sight where
  answer : Answer
  current : List String
  history : List (List String)
  deriving DecidableEq

/-- What a host sees, action by action. -/
def shown (r : Run κ) (w : Wiring) : List (Action κ) → List Sight
  | [] => []
  | c :: rest =>
    let o := r.act w c
    ⟨o.result, o.run.current.names, o.run.history.names⟩ :: o.run.shown o.wiring rest

/-- The labels that callbacks leave in the log, action by action. -/
def heard (r : Run κ) (w : Wiring) : List (Action κ) → List (List String)
  | [] => []
  | c :: rest =>
    let o := r.act w c
    o.wiring.log.drop w.log.length :: o.run.heard o.wiring rest

end HookedAutomata.Run
