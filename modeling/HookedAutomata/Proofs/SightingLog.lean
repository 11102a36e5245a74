import HookedAutomata.Proofs.SameNames

/-!
# The history as a log of the steps taken

A run is driven by actions, and on the way it takes steps: one for each start, and one for each
trigger that is not refused (`Run.steps`). The states that a step reaches (`Run.Step.reached`) and
the states that the run is in afterwards are not the same. Where a source may not branch, its targets
are reached and then given up for the error state. Where a source stays or fails, the run is in a
state that no transition reached.

The history goes by what is reached. Each step adds the end states it reaches, if it reaches any, and
nothing else touches the history (`Run.snapshots_next`). Under a policy that lets every source branch
and none stay, the two differ by the error state alone, so that for an error state that is no end
state the history lists the end states the run has been in (`Run.Step.sighted_eq_held`).

The main statement is `Run.Driven.history_logs_steps`.
-/

namespace HookedAutomata.Run

variable {κ : Type} [CustomTrigger κ]

/-! ## The steps taken -/

/-- A step that a run takes: a start, or a step on a trigger. -/
structure Step (κ : Type) [CustomTrigger κ] where
  -- the run as it was before the step
  source : Run κ
  -- there is no trigger for a start
  on : Option (Trigger κ)

namespace Step

/-- The run after the step. -/
def after (s : Step κ) : Run κ :=
  match s.on with
  | none => (s.source.start {}).run
  | some on => (s.source.update {} on).run

/-- The states that transitions lead to: from the start state by closure, or from all current states
on the trigger. -/
def reached (s : Step κ) : StateSet :=
  match s.on with
  | none => s.source.automaton.table.closure (.singleton s.source.automaton.start)
  | some on =>
    .unions (s.source.current.toList.map fun x => s.source.automaton.table.resolve x.name on)

/-- The end states that transitions lead to. -/
def sighted (s : Step κ) : StateSet := s.reached.filter fun x => s.source.automaton.isEnd x.name

/-- The end states that the run is in after the step. -/
def held (s : Step κ) : StateSet := s.after.current.filter fun x => s.source.automaton.isEnd x.name

end Step

/-- The steps for the triggers of a word. -/
def stepsAlong (r : Run κ) : List (Trigger κ) → List (Step κ)
  | [] => []
  | on :: rest => if r.current.isEmpty then [] else ⟨r, some on⟩ :: (r.moved on).stepsAlong rest

/-- The steps taken in one action. A trigger that is refused makes no step. -/
def stepsOf (r : Run κ) : Action κ → List (Step κ)
  | .start => [⟨r, none⟩]
  | .update on => if r.current.isEmpty then [] else [⟨r, some on⟩]
  | .updateAll word => r.stepsAlong word
  | .reset => []
  | .atEnd => []

/-- The steps taken while the run is driven. -/
def steps (r : Run κ) : List (Action κ) → List (Step κ)
  | [] => []
  | c :: cs => r.stepsOf c ++ (r.next c).steps cs

/-- The sets that are not empty, in their order. -/
def noted (l : List StateSet) : List StateSet := l.filter fun s => !s.isEmpty

theorem noted_append (l m : List StateSet) : noted (l ++ m) = noted l ++ noted m :=
  List.filter_append ..

theorem snapshots_record_eq (h : Sightings) (s : StateSet) :
    (h.record s).snapshots = h.snapshots ++ noted [s] := by
  rw [Sightings.snapshots_record, noted, List.filter_cons]
  cases s.isEmpty <;> rfl

/-- A trigger makes a step exactly if it is not refused. -/
theorem steps_update (r : Run κ) (w : Wiring) (on : Trigger κ) :
    r.steps [.update on] =
      match (r.update w on).result with
      | .ok _ => [⟨r, some on⟩]
      | .error _ => [] := by
  cases hempty : r.current.isEmpty with
  | true => simp [steps, stepsOf, hempty, update_of_isEmpty hempty]
  | false => simp [steps, stepsOf, hempty, update_eq hempty]

/-! ## What a step adds -/

theorem endsAmong_union (a : Automaton κ) (s t : StateSet) :
    endsAmong a (s ∪ t) = endsAmong a s ∪ endsAmong a t := by
  refine SortedSet.ext_find? fun n => ?_
  -- of two states of one name both are end states or neither is
  have hname : ∀ u : StateSet, (endsAmong a u).find? n = if a.isEnd n then u.find? n else none := by
    intro u
    rw [endsAmong, SortedSet.find?_filter]
    cases hfind : u.find? n with
    | none => simp
    | some x =>
      obtain rfl : x.name = n := (SortedSet.find?_eq_some_iff.1 hfind).2
      simp [Option.filter]
  rw [hname, SortedSet.find?_union, SortedSet.find?_union, hname, hname]
  cases a.isEnd n <;> rfl

theorem endsAmong_unions (a : Automaton κ) (l : List StateSet) :
    endsAmong a (.unions l) = .unions (l.map (endsAmong a)) := by
  have hfold : ∀ acc : StateSet, endsAmong a (l.foldl SortedSet.union acc) =
      (l.map (endsAmong a)).foldl SortedSet.union (endsAmong a acc) := by
    induction l with
    | nil => exact fun _ => rfl
    | cons s l ih =>
      intro acc
      rw [List.foldl_cons, ih, List.map_cons, List.foldl_cons]
      exact congrArg (List.foldl SortedSet.union · _) (endsAmong_union a acc s)
  exact hfold ∅

theorem sighted_some (r : Run κ) (on : Trigger κ) : Step.sighted ⟨r, some on⟩ = r.sighted on := by
  show endsAmong r.automaton (.unions (r.current.toList.map (r.targets on))) = _
  rw [endsAmong_unions, List.map_map]
  rfl

theorem snapshots_moved (r : Run κ) (on : Trigger κ) :
    (r.moved on).history.snapshots =
      r.history.snapshots ++ noted [Step.sighted ⟨r, some on⟩] := by
  rw [sighted_some]
  exact snapshots_record_eq ..

theorem snapshots_movedAll (r : Run κ) (word : List (Trigger κ)) :
    (r.movedAll word).history.snapshots =
      r.history.snapshots ++ noted ((r.stepsAlong word).map Step.sighted) := by
  induction word generalizing r with
  | nil => exact (List.append_nil _).symm
  | cons on rest ih =>
    unfold movedAll stepsAlong
    cases hempty : r.current.isEmpty with
    | true => exact (List.append_nil _).symm
    | false =>
      simp only [Bool.false_eq_true, if_false]
      rw [ih, snapshots_moved, List.append_assoc, ← noted_append]
      rfl

/-- An action adds what its steps sight, and leaves the earlier snapshots as they are. -/
theorem snapshots_next (r : Run κ) (c : Action κ) :
    (r.next c).history.snapshots =
      r.history.snapshots ++ noted ((r.stepsOf c).map Step.sighted) := by
  cases c with
  | start => exact snapshots_record_eq ..
  | update on =>
    unfold next stepsOf
    cases hempty : r.current.isEmpty with
    | true => exact (List.append_nil _).symm
    | false => exact r.snapshots_moved on
  | updateAll word => exact r.snapshots_movedAll word
  | reset => exact (List.append_nil _).symm
  | atEnd => exact (List.append_nil _).symm

theorem Driven.snapshots_append {r r' : Run κ} {cs : List (Action κ)} (h : r.Driven cs r') :
    r'.history.snapshots = r.history.snapshots ++ noted ((r.steps cs).map Step.sighted) := by
  induction cs generalizing r with
  | nil =>
    cases h
    exact (List.append_nil _).symm
  | cons c cs ih =>
    rw [ih h.next_of_cons, snapshots_next, List.append_assoc, ← noted_append, ← List.map_append]
    rfl

/-! ## What is sighted and what is held -/

/-- Sources may branch and not stay, and the error state is no end state. -/
structure Plain (r : Run κ) : Prop where
  branching : r.policy.allowBranching = true
  staying : r.policy.allowStaying = false
  error : r.automaton.isEnd r.automaton.error.name = false

/-- What holds of a run, and is kept by a start, a step and a reset, holds of the run before each
step that is taken. Before a step on a trigger the run is in some state. -/
theorem steps_invariant {P : Run κ → Prop} (hbegun : ∀ r, P r → P r.begun)
    (hmoved : ∀ r on, r.current.isEmpty = false → P r → P (r.moved on))
    (hreset : ∀ r, P r → P r.reset) {r : Run κ} (h : P r) {cs : List (Action κ)} {s : Step κ}
    (hs : s ∈ r.steps cs) :
    P s.source ∧ ∀ on, s.on = some on → s.source.current.isEmpty = false := by
  have halong : ∀ word (q : Run κ), P q → s ∈ q.stepsAlong word →
      P s.source ∧ ∀ on, s.on = some on → s.source.current.isEmpty = false := by
    intro word
    induction word with
    | nil => exact fun _ _ hs => absurd hs List.not_mem_nil
    | cons on rest ih =>
      intro q hq hs
      unfold stepsAlong at hs
      cases hempty : q.current.isEmpty with
      | true => simp [hempty] at hs
      | false =>
        simp only [hempty, Bool.false_eq_true, if_false, List.mem_cons] at hs
        rcases hs with rfl | hs
        · exact ⟨hq, fun _ _ => hempty⟩
        · exact ih (q.moved on) (hmoved q on hempty hq) hs
  induction cs generalizing r with
  | nil => exact absurd hs List.not_mem_nil
  | cons c cs ih =>
    rcases List.mem_append.1 hs with hs | hs
    · cases c with
      | start =>
        obtain rfl := List.mem_singleton.1 hs
        exact ⟨h, fun _ hon => absurd hon (by simp)⟩
      | update on => exact halong [on] r h hs
      | updateAll word => exact halong word r h hs
      | reset => exact absurd hs List.not_mem_nil
      | atEnd => exact absurd hs List.not_mem_nil
    · exact ih (next_invariant hbegun hmoved hreset h c) hs

/-- What is contributed in place of the targets, where there are none, is no end state. -/
theorem Plain.endsAmong_successors {r : Run κ} (h : r.Plain) (s : State) (ts : StateSet) :
    endsAmong r.automaton (r.successors s ts) = endsAmong r.automaton ts := by
  unfold successors
  rw [h.branching, h.staying]
  cases hts : ts.isEmpty with
  | true =>
    obtain rfl : ts = ∅ := SortedSet.ext (List.isEmpty_iff.1 hts)
    refine SortedSet.ext ?_
    show [r.automaton.error].filter (fun x => r.automaton.isEnd x.name) = []
    rw [List.filter_cons, h.error]
    rfl
  | false => simp

theorem Step.sighted_eq_held {s : Step κ} (h : s.source.Plain)
    (hon : ∀ on, s.on = some on → s.source.current.isEmpty = false) : s.sighted = s.held := by
  obtain ⟨r, on⟩ := s
  cases on with
  | none =>
    show endsAmong r.automaton r.initial = endsAmong r.automaton (r.start {}).run.current
    rw [start_eq]
    rfl
  | some on =>
    have hmoved : (r.update {} on).run = r.moved on := by
      rw [update_eq (hon on rfl)]
    rw [sighted_some]
    show _ = endsAmong r.automaton (r.update {} on).run.current
    rw [hmoved]
    show .unions _ = endsAmong r.automaton (.unions _)
    rw [endsAmong_unions, List.map_map]
    congr 2
    funext x
    exact (h.endsAmong_successors x (r.targets on x)).symm

/-! ## The log -/

/-- **The history is a log of the steps taken.** A new run is driven by actions, each in any wiring.

Its history lists, step by step, the end states that transitions led to: in the closure of the start
state, or among the targets of the current states. So it lists those of a source that may not branch
too, and neither a state that merely stayed nor an error state that was entered for want of targets.
A step that reaches no end state is left out, and so is a trigger that was refused.

Whatever is done with the run from then on, the history so far stays as it is, and what comes after
it is listed in the same way. No snapshot is empty.

If sources may branch and not stay, and the error state is no end state, the history lists the end
states among the current states after each step. -/
theorem Driven.history_logs_steps {id : Uuid} {a : Automaton κ} {policy : Policy} {cs : List (Action κ)}
    {r : Run κ} (h : (fresh id a policy).Driven cs r) :
    r.history.snapshots = noted (((fresh id a policy).steps cs).map Step.sighted) ∧
    (∀ ds q, r.Driven ds q →
      q.history.snapshots = r.history.snapshots ++ noted ((r.steps ds).map Step.sighted)) ∧
    (∀ s ∈ r.history.snapshots, s.isEmpty = false) ∧
    (∀ w on, r.steps [.update on] =
      match (r.update w on).result with
      | .ok _ => [⟨r, some on⟩]
      | .error _ => []) ∧
    (policy.allowBranching = true → policy.allowStaying = false →
      a.isEnd a.error.name = false →
      r.history.snapshots = noted (((fresh id a policy).steps cs).map Step.held)) := by
  have hlog : r.history.snapshots = noted (((fresh id a policy).steps cs).map Step.sighted) :=
    h.snapshots_append
  refine ⟨hlog, fun _ _ hq => hq.snapshots_append, r.history.nonempty, r.steps_update,
    fun hbranching hstaying herror => ?_⟩
  have hplain : (fresh id a policy).Plain := ⟨hbranching, hstaying, herror⟩
  have hsame : ((fresh id a policy).steps cs).map Step.sighted =
      ((fresh id a policy).steps cs).map Step.held := by
    refine List.map_congr_left fun s hs => ?_
    -- an action changes neither the policy nor the automaton
    obtain ⟨hsource, hstarted⟩ := steps_invariant (P := Plain)
      (fun _ hq => ⟨hq.branching, hq.staying, hq.error⟩)
      (fun _ _ _ hq => ⟨hq.branching, hq.staying, hq.error⟩)
      (fun _ hq => ⟨hq.branching, hq.staying, hq.error⟩) hplain hs
    exact Step.sighted_eq_held hsource hstarted
  rw [hlog, hsame]

/-- The shuttle is done once before it is reset. The step that is refused then, and a new start, add
nothing. The next step adds one snapshot. -/
theorem Driven.history_logs_steps_shuttle :
    let go : Action Symbol := .update (.text "go")
    let word := [.start, go, .reset, go, .start]
    let r₀ := fresh default shuttle {}
    let r := (((((r₀.act {} .start).run.act {} go).run.act {} .reset).run.act .logging go).run.act {}
      .start).run
    r₀.Driven word r ∧ r.Driven [go] (r.act {} go).run ∧
      r.history.snapshots = [.singleton ⟨"done", 2⟩] ∧
      (r.act {} go).run.history.snapshots = r.history.snapshots ++ [.singleton ⟨"done", 2⟩] ∧
      r.history.snapshots = noted ((r₀.steps word).map Step.held) := by
  intro go word r₀ r
  have hr : r₀.Driven word r := .act _ (.act _ (.act _ (.act _ (.act _ (.done r)))))
  have hq : r.Driven [go] (r.act {} go).run := .act _ (.done _)
  obtain ⟨hlog, happend, -, -, hheld⟩ := hr.history_logs_steps
  refine ⟨hr, hq, hlog.trans ?_, (happend _ _ hq).trans ?_, hheld rfl rfl rfl⟩
  · decide +kernel
  · decide +kernel

end HookedAutomata.Run
