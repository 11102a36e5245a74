import Mathlib.Data.List.Basic
import HookedAutomata.Proofs.Wirings
import HookedAutomata.Trigger.Symbol

/-!
# The order of hooks

A step consults slots in a fixed order, source by source (`Run.itinerary`), and a start consults the
entry slots of the states that it enters. Whether or not hooks rewire hooks, each slot is read when
its turn comes and what it holds then is run (`Wiring.Consults`).

That nothing else is consulted shows in the log. A slot may hold a callback that logs its place,
and where all of them do, the log spells out the places that were consulted
(`Wiring.log_fireAll_telling`). So the places in the itinerary, in that order, are the only ones
that account for a step in every wiring (`Wiring.fireAll_eq_iff`).

The main statement is `Run.consults_itinerary`.
-/

namespace HookedAutomata

variable {κ : Type} [CustomTrigger κ]

/-! ## Consulting slots -/

namespace Wiring

/-- Consulting the slots one after another leads from one wiring to another: a slot is read in the
wiring that those before it leave behind. -/
inductive Consults : Wiring → List (State × Slot) → Wiring → Prop where
  | done (w : Wiring) : Consults w [] w
  | run {w w' : Wiring} {s : State} {slot : Slot} {l : List (State × Slot)} {c : Callback}
      (holds : w.hook s slot = some c) (rest : Consults (w.run c) l w') :
      Consults w ((s, slot) :: l) w'
  | pass {w w' : Wiring} {s : State} {slot : Slot} {l : List (State × Slot)}
      (holds : w.hook s slot = none) (rest : Consults w l w') : Consults w ((s, slot) :: l) w'

theorem fire_of_some {w : Wiring} {s : State} {slot : Slot} {c : Callback}
    (h : w.hook s slot = some c) : w.fire s slot = w.run c := by
  unfold fire
  rw [h]

theorem fire_of_none {w : Wiring} {s : State} {slot : Slot} (h : w.hook s slot = none) :
    w.fire s slot = w := by
  unfold fire
  rw [h]

theorem consults_fireAll (w : Wiring) (l : List (State × Slot)) : w.Consults l (w.fireAll l) := by
  induction l generalizing w with
  | nil => exact .done w
  | cons p l ih =>
    obtain ⟨s, slot⟩ := p
    rw [fireAll_cons]
    cases hhook : w.hook s slot with
    | some c =>
      rw [fire_of_some hhook]
      exact .run hhook (ih (w.run c))
    | none =>
      rw [fire_of_none hhook]
      exact .pass hhook (ih w)

/-- Where consulting leads to is the left fold of firing. -/
theorem consults_iff {w w' : Wiring} {l : List (State × Slot)} :
    w.Consults l w' ↔ w' = w.fireAll l := by
  constructor
  · intro h
    induction h with
    | done w => rfl
    | run holds _ ih => rw [ih, fireAll_cons, fire_of_some holds]
    | pass holds _ ih => rw [ih, fireAll_cons, fire_of_none holds]
  · rintro rfl
    exact w.consults_fireAll l

/-! ## Places -/

/-- Where a consultation looks: an instance, by its number, and one of its slots. -/
def place (p : State × Slot) : Nat × Slot := (p.1.instanceId, p.2)

theorem fire_congr {s t : State} {slot : Slot} (h : s.instanceId = t.instanceId) (w : Wiring) :
    w.fire s slot = w.fire t slot := by
  unfold fire hook hooksOf
  rw [h]

theorem fireAll_congr {l m : List (State × Slot)} (h : l.map place = m.map place) (w : Wiring) :
    w.fireAll l = w.fireAll m := by
  induction l generalizing m w with
  | nil =>
    rw [List.map_eq_nil_iff.1 h.symm]
  | cons p l ih =>
    cases m with
    | nil => cases h
    | cons q m =>
      obtain ⟨hplace, hrest⟩ := List.cons.inj h
      obtain ⟨hinstance, hslot⟩ := Prod.mk.inj hplace
      rw [fireAll_cons, fireAll_cons, hslot, fire_congr hinstance, ih hrest]

def slotLetter : Slot → Char
  | .entry => 'e'
  | .exit => 'x'
  | .stay => 's'

theorem slotLetter_injective : Function.Injective slotLetter := by
  intro a b
  cases a <;> cases b <;> decide

/-- A label that says which place it is for: a stroke for each instance made before it. -/
def placeLabel (place : Nat × Slot) : String :=
  String.ofList (slotLetter place.2 :: List.replicate place.1 '|')

theorem placeLabel_injective : Function.Injective placeLabel := by
  intro p q h
  obtain ⟨hletter, hstrokes⟩ := List.cons.inj (String.ofList_injective h)
  have hinstance : p.1 = q.1 := by simpa using congrArg List.length hstrokes
  exact Prod.ext hinstance (slotLetter_injective hletter)

/-- The hook that logs its place. -/
def teller (place : Nat × Slot) : Callback := ⟨placeLabel place, [.emit (placeLabel place)]⟩

/-- Every slot of the listed instances logs its place. -/
def telling (ids : List Nat) : Wiring where
  hooks := ids.map fun i =>
    (i, ⟨some (teller (i, .entry)), some (teller (i, .exit)), some (teller (i, .stay))⟩)

theorem hook_telling {ids : List Nat} {p : State × Slot} (h : p.1.instanceId ∈ ids) :
    (telling ids).hook p.1 p.2 = some (teller (place p)) := by
  unfold hook hooksOf telling
  rw [List.lookup_graph _ h]
  obtain ⟨s, slot⟩ := p
  cases slot <;> rfl

/-- Where all slots log their places, the log spells out what was consulted. -/
theorem log_fireAll_telling {ids : List Nat} {l : List (State × Slot)}
    (h : ∀ p ∈ l, p.1.instanceId ∈ ids) :
    ((telling ids).fireAll l).log = (l.map place).map placeLabel := by
  have hlogs : ∀ p ∈ l, ∀ c,
      (telling ids).hook p.1 p.2 = some c → c.OnlyLogs (telling ids).code := by
    intro p hp c hc
    obtain rfl := Option.some.inj ((hook_telling (h p hp)).symm.trans hc)
    exact Callback.onlyLogs_emit _ [placeLabel (place p)] _
  have hlabels : ∀ p ∈ l, (telling ids).labelsAt p = [placeLabel (place p)] := by
    intro p hp
    unfold labelsAt
    rw [hook_telling (h p hp)]
    rfl
  rw [fireAll_of_onlyLogs hlogs]
  show [] ++ l.flatMap (telling ids).labelsAt = _
  rw [List.nil_append, List.flatMap_congr hlabels, List.map_map]
  exact List.flatMap_pure_eq_map _ l

/-- Two sequences of slots do the same in every wiring only if they look in the same places. -/
theorem fireAll_eq_iff {l m : List (State × Slot)} :
    (∀ w, fireAll w l = fireAll w m) ↔ l.map place = m.map place := by
  constructor
  · intro h
    have hl : ∀ p ∈ l, p.1.instanceId ∈ (l ++ m).map (·.1.instanceId) :=
      fun p hp => List.mem_map.2 ⟨p, List.mem_append_left m hp, rfl⟩
    have hm : ∀ p ∈ m, p.1.instanceId ∈ (l ++ m).map (·.1.instanceId) :=
      fun p hp => List.mem_map.2 ⟨p, List.mem_append_right l hp, rfl⟩
    have hlogs := congrArg (fun w : Wiring => w.log) (h (telling ((l ++ m).map (·.1.instanceId))))
    rw [log_fireAll_telling hl, log_fireAll_telling hm] at hlogs
    exact placeLabel_injective.list_map hlogs
  · exact fun h w => fireAll_congr h w

/-- What fires some slots consults the slots at their places in their order, and no others. -/
theorem consults_iff_map_place {f : Wiring → Wiring} {m : List (State × Slot)}
    (h : ∀ w, f w = w.fireAll m) (l : List (State × Slot)) :
    (∀ w : Wiring, w.Consults l (f w)) ↔ l.map place = m.map place := by
  rw [← fireAll_eq_iff]
  simp only [consults_iff, h]
  exact forall_congr' fun w => eq_comm

end Wiring

/-! ## The itinerary of a step -/

namespace Run

/-- The slots that a source consults: the entry slots of the states that its step leads to, in
order. Without such states it then consults its stay slot, if it may stay, or its exit slot and the
entry slot of the error state. Otherwise it consults its exit slot, and the entry slot of the error
state if there are several such states and it may not branch. -/
def sourceItinerary (r : Run κ) (on : Trigger κ) (s : State) : List (State × Slot) :=
  let targets := r.automaton.table.resolve s.name on
  targets.toList.map (·, .entry) ++
    if targets.isEmpty then
      if r.policy.allowStaying then [(s, .stay)] else [(s, .exit), (r.automaton.error, .entry)]
    else
      (s, .exit) :: if 1 < targets.size ∧ r.policy.allowBranching = false then
        [(r.automaton.error, .entry)] else []

/-- The slots that a step consults, source by source. -/
def itinerary (r : Run κ) (on : Trigger κ) : List (State × Slot) :=
  r.current.toList.flatMap (r.sourceItinerary on)

theorem consulted_eq_sourceItinerary (r : Run κ) (on : Trigger κ) (s : State) :
    r.consulted on s = r.sourceItinerary on s := by
  unfold consulted sourceItinerary targets
  generalize r.automaton.table.resolve s.name on = ts
  show entries ts ++ _ = entries ts ++ _
  congr 1
  unfold departure
  cases hempty : ts.isEmpty with
  | true => rfl
  | false =>
    -- of a set that is not empty, to have one member is not to have more
    have hsize : ts.size ≠ 0 := by
      rw [SortedSet.size_eq_length_names]
      rw [SortedSet.isEmpty_eq_names] at hempty
      simpa using hempty
    have hone : (ts.size == 1) = !decide (1 < ts.size) := by
      rw [Bool.eq_iff_iff]
      simp only [beq_iff_eq, Bool.not_eq_true', decide_eq_false_iff_not]
      omega
    rw [hone]
    by_cases hseveral : 1 < ts.size
    · cases r.policy.allowBranching <;> simp [hseveral]
    · simp [hseveral]

theorem consultations_eq_itinerary (r : Run κ) (on : Trigger κ) :
    r.consultations on = r.itinerary on := by
  unfold consultations itinerary
  rw [funext (r.consulted_eq_sourceItinerary on)]

/-- An update fires the slots of the itinerary. One that is refused has no sources. -/
theorem wiring_update (r : Run κ) (w : Wiring) (on : Trigger κ) :
    (r.update w on).wiring = w.fireAll (r.itinerary on) := by
  cases hempty : r.current.isEmpty with
  | false => rw [update_eq hempty, consultations_eq_itinerary]
  | true =>
    have hnone : r.current.toList = [] := List.isEmpty_iff.1 hempty
    rw [update_of_isEmpty hempty]
    unfold itinerary
    rw [hnone]
    rfl

theorem wiring_start (r : Run κ) (w : Wiring) :
    (r.start w).wiring = w.fireAll
      (entries (r.automaton.table.closure (.singleton r.automaton.start))) := by
  rw [start_eq]
  rfl

/-- **The order of hooks, with hooks that rewire hooks.** In whatever wiring a run takes a step, the
wiring afterwards, its hooks and its log, is the left fold of firing the slots of the itinerary,
each of which is read when its turn comes. Sources, and the states that each of them leads to, take
their turns in increasing order of names. The slots at these places in this order are the only ones
that account for the step in every wiring. A start does so with the entry slots of the closure of
the start state. -/
theorem consults_itinerary (r : Run κ) (on : Trigger κ) :
    let initial := r.automaton.table.closure (.singleton r.automaton.start)
    ((∀ w, (r.update w on).wiring = (r.itinerary on).foldl (fun w p => w.fire p.1 p.2) w) ∧
      (∀ l : List (State × Slot), (∀ w : Wiring, w.Consults l (r.update w on).wiring) ↔
        l.map Wiring.place = (r.itinerary on).map Wiring.place) ∧
      r.current.names.Pairwise (· < ·) ∧
      ∀ n, (r.automaton.table.resolve n on).names.Pairwise (· < ·)) ∧
    (∀ w, (r.start w).wiring = initial.toList.foldl (fun w s => w.fire s .entry) w) ∧
      (∀ l : List (State × Slot), (∀ w : Wiring, w.Consults l (r.start w).wiring) ↔
        l.map Wiring.place = initial.toList.map fun s => (s.instanceId, .entry)) ∧
      initial.names.Pairwise (· < ·) := by
  intro initial
  refine ⟨⟨fun w => r.wiring_update w on, ?_, ?_, ?_⟩, fun w => ?_, fun l => ?_, ?_⟩
  · exact Wiring.consults_iff_map_place fun w => r.wiring_update w on
  · exact r.current.pairwise_names
  · exact fun n => (r.automaton.table.resolve n on).pairwise_names
  · rw [wiring_start]
    exact List.foldl_map
  · have hplaces : (entries initial).map Wiring.place =
        initial.toList.map fun s => (s.instanceId, .entry) := List.map_map
    rw [← hplaces]
    exact Wiring.consults_iff_map_place r.wiring_start l
  · exact initial.pairwise_names

-- The entry hook of the state that is entered replaces the exit hook of the state that is left, and
-- what it puts there is what runs.
example :
    let a : Automaton Symbol := .assemble ⟨"idle", 0⟩ ⟨"error", 2⟩ ∅ <| .ofTransitions
      ⟨[⟨⟨"idle", 0⟩, .text "go", .singleton ⟨"busy", 1⟩⟩], by decide⟩
    let rewiring : Callback :=
      ⟨"rewiring", [.emit "entered", .rewire "idle" .exit (some ⟨"new", [.emit "new"]⟩)]⟩
    let w : Wiring :=
      { hooks := [(0, { exit := some ⟨"old", [.emit "old"]⟩ }), (1, { entry := some rewiring })]
        handles := [("idle", ⟨"idle", 0⟩)] }
    let r : Run Symbol := ⟨default, a, {}, .singleton ⟨"idle", 0⟩, ∅⟩
    (r.update w (.text "go")).wiring.log = ["entered", "new"] := by
  decide +kernel

-- Code of the host looks at the exit hook of the state before it does anything. It finds none, and
-- puts the callback there that called it. So it is called again, finds itself and leaves it at
-- that. It counts how often it was called.
example :
    let idle : State := ⟨"idle", 0⟩
    let a : Automaton Symbol := .assemble idle ⟨"error", 1⟩ ∅ <| .ofTransitions
      ⟨[⟨idle, .text "tick", .singleton idle⟩], by decide⟩
    let again : Callback := ⟨"again", [.call 0]⟩
    let code : Nat → Board → Board := fun _ board =>
      let seen : Wiring := { toBoard := board }
      let left : Wiring :=
        match seen.hook idle .exit with
        | none => seen.setHook idle .exit (some again)
        | some _ => seen
      { left.toBoard with
        memory := board.memory ++ "|"
        log := board.log ++ [board.memory ++ "|"] }
    let w : Wiring := { hooks := [(0, { entry := some again })], code }
    let r : Run Symbol := ⟨default, a, {}, .singleton idle, ∅⟩
    let after := (r.update w (.text "tick")).wiring
    after.log = ["|", "||"] ∧ after.hookName idle .exit = some "again" := by
  decide +kernel

end Run

end HookedAutomata
