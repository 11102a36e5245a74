import HookedAutomata.Proofs.SilentMoves
import HookedAutomata.Run

/-!
# What a step does

A step threads the wiring through everything it does, because hooks may rewire hooks. What it
decides does not look at the wiring, so the two can be told apart:

* `Run.begun` and `Run.moved` are the runs that a start and a step lead to, said without wiring;
* `Run.beginning` and `Run.consultations` are the slots that are consulted on the way, in order;
* `Run.start_eq` and `Run.update_eq`: starting and updating give those runs, and the wiring
  afterwards is the fold of `Wiring.fire` over those slots, each read when its turn comes.

What a source contributes is `Run.successors`, and `Run.has_successors` says which names that are.
The next current names are those contributed by some source (`Run.has_moved`).
-/

namespace HookedAutomata

namespace Wiring

/-- Fires slots one after another. -/
def fireAll (w : Wiring) (l : List (State × Slot)) : Wiring := l.foldl (fun w c => w.fire c.1 c.2) w

@[simp] theorem fireAll_nil (w : Wiring) : w.fireAll [] = w := rfl

@[simp] theorem fireAll_cons (w : Wiring) (c : State × Slot) (l : List (State × Slot)) :
    w.fireAll (c :: l) = (w.fire c.1 c.2).fireAll l := rfl

theorem fireAll_append (w : Wiring) (l m : List (State × Slot)) :
    w.fireAll (l ++ m) = (w.fireAll l).fireAll m := by
  unfold fireAll
  rw [List.foldl_append]

end Wiring

namespace Run

variable {κ : Type} [CustomTrigger κ]

/-! ## One source -/

/-- The entry slots of the members of a set, by name. -/
def entries (ts : StateSet) : List (State × Slot) := ts.toList.map fun s => (s, Slot.entry)

/-- The states that a source contributes to the next current states. -/
def successors (r : Run κ) (s : State) (ts : StateSet) : StateSet :=
  if ts.isEmpty then
    if r.policy.allowStaying then .singleton s else .singleton r.automaton.error
  else if ts.size == 1 || r.policy.allowBranching then ts
  else .singleton r.automaton.error

/-- The slots consulted once the targets of a source have been entered. -/
def departure (r : Run κ) (s : State) (ts : StateSet) : List (State × Slot) :=
  if ts.isEmpty then
    if r.policy.allowStaying then [(s, .stay)] else [(s, .exit), (r.automaton.error, .entry)]
  else if ts.size == 1 || r.policy.allowBranching then [(s, .exit)]
  else [(s, .exit), (r.automaton.error, .entry)]

theorem contribute_eq (r : Run κ) (w : Wiring) (s : State) (ts : StateSet) :
    r.contribute w s ts = (r.successors s ts, w.fireAll (r.departure s ts)) := by
  unfold contribute successors departure
  -- the three are told by the same questions: are there targets, may it stay, may it branch
  cases ts.isEmpty with
  | true => cases r.policy.allowStaying <;> rfl
  | false => cases ts.size == 1 || r.policy.allowBranching <;> rfl

def endsAmong (a : Automaton κ) (ts : StateSet) : StateSet := ts.filter fun s => a.isEnd s.name

theorem foldl_enter (a : Automaton κ) (l : List State) (p : Progress) :
    l.foldl (enter a) p =
      ⟨p.wiring.fireAll (l.map fun s => (s, .entry)), p.next,
        (l.filter fun s => a.isEnd s.name).foldl SortedSet.insert p.seen⟩ := by
  induction l generalizing p with
  | nil => rfl
  | cons s l ih =>
    rw [List.foldl_cons, ih]
    -- the entry slot is fired either way, but only an end state is sighted
    cases hend : a.isEnd s.name with
    | true => simp [enter, hend]
    | false => simp [enter, hend]

/-- Entering a set of states fires their entry slots and sights the end states among them. -/
theorem foldl_enter_toList (a : Automaton κ) (ts : StateSet) (p : Progress) :
    ts.toList.foldl (enter a) p =
      ⟨p.wiring.fireAll (entries ts), p.next, p.seen ∪ endsAmong a ts⟩ :=
  foldl_enter a ts.toList p

/-- The states that the step of one source leads to. -/
def targets (r : Run κ) (on : Trigger κ) (s : State) : StateSet :=
  r.automaton.table.resolve s.name on

/-- The slots that the step of one source consults. -/
def consulted (r : Run κ) (on : Trigger κ) (s : State) : List (State × Slot) :=
  entries (r.targets on s) ++ r.departure s (r.targets on s)

theorem advance_eq (r : Run κ) (on : Trigger κ) (p : Progress) (s : State) :
    r.advance on p s =
      ⟨p.wiring.fireAll (r.consulted on s), p.next ∪ r.successors s (r.targets on s),
        p.seen ∪ endsAmong r.automaton (r.targets on s)⟩ := by
  unfold advance
  simp only [foldl_enter_toList, contribute_eq, consulted, Wiring.fireAll_append]
  rfl

/-! ## All sources -/

theorem foldl_advance (r : Run κ) (on : Trigger κ) (l : List State) (p : Progress) :
    l.foldl (r.advance on) p =
      ⟨p.wiring.fireAll (l.flatMap (r.consulted on)),
        (l.map fun s => r.successors s (r.targets on s)).foldl SortedSet.union p.next,
        (l.map fun s => endsAmong r.automaton (r.targets on s)).foldl SortedSet.union p.seen⟩ := by
  induction l generalizing p with
  | nil => rfl
  | cons s l ih =>
    rw [List.foldl_cons, ih, advance_eq, List.flatMap_cons, Wiring.fireAll_append]
    rfl

def initial (r : Run κ) : StateSet :=
  r.automaton.table.closure (.singleton r.automaton.start)

def beginning (r : Run κ) : List (State × Slot) := entries r.initial

/-- The run that a start leads to. -/
def begun (r : Run κ) : Run κ :=
  { r with
    current := r.initial
    history := r.history.record (endsAmong r.automaton r.initial) }

/-- The slots that a step consults, source by source. -/
def consultations (r : Run κ) (on : Trigger κ) : List (State × Slot) :=
  r.current.toList.flatMap (r.consulted on)

/-- The next current states: what the sources contribute. -/
def nextStates (r : Run κ) (on : Trigger κ) : StateSet :=
  .unions (r.current.toList.map fun s => r.successors s (r.targets on s))

def sighted (r : Run κ) (on : Trigger κ) : StateSet :=
  .unions (r.current.toList.map fun s => endsAmong r.automaton (r.targets on s))

/-- The run that a step leads to. -/
def moved (r : Run κ) (on : Trigger κ) : Run κ :=
  { r with current := r.nextStates on, history := r.history.record (r.sighted on) }

/-- Starting gives the run begun and fires the slots of the beginning. -/
theorem start_eq (r : Run κ) (w : Wiring) :
    r.start w = ⟨!r.begun.atEnd, r.begun, w.fireAll r.beginning⟩ := by
  unfold start
  simp only [foldl_enter_toList, SortedSet.empty_union]
  rfl

/-- Updating a run that is in no state is refused and changes nothing. -/
theorem update_of_isEmpty {r : Run κ} (h : r.current.isEmpty = true) (w : Wiring)
    (on : Trigger κ) : r.update w on = ⟨.error .notStarted, r, w⟩ := by
  unfold update
  rw [if_pos h]

/-- Updating a run that is in some state gives the run moved and fires the slots consulted. -/
theorem update_eq {r : Run κ} (h : r.current.isEmpty = false) (w : Wiring) (on : Trigger κ) :
    r.update w on =
      ⟨.ok (!(r.moved on).atEnd), r.moved on, w.fireAll (r.consultations on)⟩ := by
  unfold update
  rw [if_neg (by simp [h])]
  simp only [foldl_advance]
  rfl

/-! ## The names that are reached -/

/-- The names that a source contributes. -/
theorem has_successors (r : Run κ) (s : State) (ts : StateSet) (n : String) :
    (r.successors s ts).has n =
      if ts.isEmpty then
        if r.policy.allowStaying then s.name == n else r.automaton.error.name == n
      else if ts.size == 1 || r.policy.allowBranching then ts.has n
      else r.automaton.error.name == n := by
  unfold successors
  cases ts.isEmpty with
  | true => cases r.policy.allowStaying <;> simp
  | false => cases ts.size == 1 || r.policy.allowBranching <;> simp

/-- A start enters what moves that consume nothing lead to from the start state. -/
theorem has_begun (r : Run κ) (n : String) :
    r.begun.current.has n = true ↔ r.automaton.table.Silently r.automaton.start.name n := by
  unfold begun initial
  rw [Table.has_closure]
  simp

/-- A step leads to what some source contributes. -/
theorem has_moved (r : Run κ) (on : Trigger κ) (n : String) :
    (r.moved on).current.has n = true ↔
      ∃ s ∈ r.current, (r.successors s (r.targets on s)).has n = true := by
  unfold moved nextStates
  exact SortedSet.has_unions_map

theorem has_endsAmong (a : Automaton κ) (ts : StateSet) (n : String) :
    (endsAmong a ts).has n = (ts.has n && a.isEnd n) :=
  SortedSet.has_filter_name ts a.isEnd n

/-- A step sights the end states among the targets of all sources. -/
theorem has_sighted (r : Run κ) (on : Trigger κ) (n : String) :
    (r.sighted on).has n = true ↔
      (∃ s ∈ r.current, (r.targets on s).has n = true) ∧ r.automaton.isEnd n = true := by
  unfold sighted
  rw [SortedSet.has_unions_map]
  constructor
  · rintro ⟨s, hs, hn⟩
    rw [has_endsAmong, Bool.and_eq_true] at hn
    exact ⟨⟨s, hs, hn.1⟩, hn.2⟩
  · rintro ⟨⟨s, hs, hn⟩, hend⟩
    exact ⟨s, hs, by rw [has_endsAmong, hn, hend]; rfl⟩

theorem isEmpty_successors (r : Run κ) (s : State) (ts : StateSet) :
    (r.successors s ts).isEmpty = false := by
  unfold successors
  cases hts : ts.isEmpty with
  | true => cases r.policy.allowStaying <;> rfl
  | false =>
    cases ts.size == 1 || r.policy.allowBranching with
    | true => exact hts
    | false => rfl

theorem isEmpty_moved {r : Run κ} (h : r.current.isEmpty = false) (on : Trigger κ) :
    (r.moved on).current.isEmpty = false := by
  obtain ⟨m, hm⟩ := SortedSet.isEmpty_eq_false_iff.1 h
  obtain ⟨s, hs, -⟩ := SortedSet.has_iff.1 hm
  obtain ⟨n, hn⟩ := SortedSet.isEmpty_eq_false_iff.1 (r.isEmpty_successors s (r.targets on s))
  exact SortedSet.isEmpty_eq_false_iff.2 ⟨n, (r.has_moved on n).2 ⟨s, hs, hn⟩⟩

theorem isEmpty_begun (r : Run κ) : r.begun.current.isEmpty = false :=
  SortedSet.isEmpty_eq_false_iff.2 ⟨r.automaton.start.name, (r.has_begun _).2 .refl⟩

/-! ## The instances that are reached -/

theorem mem_successors {r : Run κ} {s : State} {ts : StateSet} {x : State}
    (h : x ∈ r.successors s ts) : x = s ∨ x = r.automaton.error ∨ x ∈ ts := by
  unfold successors at h
  split at h
  · split at h
    · exact .inl (SortedSet.mem_singleton.1 h)
    · exact .inr (.inl (SortedSet.mem_singleton.1 h))
  · split at h
    · exact .inr (.inr h)
    · exact .inr (.inl (SortedSet.mem_singleton.1 h))

theorem mem_moved {r : Run κ} {on : Trigger κ} {x : State} (h : x ∈ (r.moved on).current) :
    x ∈ r.current ∨ x = r.automaton.error ∨ ∃ s ∈ r.current, x ∈ r.targets on s := by
  obtain ⟨s, hs, hx⟩ := SortedSet.mem_unions_map h
  rcases mem_successors hx with rfl | h | h
  · exact .inl hs
  · exact .inr (.inl h)
  · exact .inr (.inr ⟨s, hs, h⟩)

/-- When a source is left, nothing is consulted but its own slots and those of the error state. -/
theorem mem_departure {r : Run κ} {s : State} {ts : StateSet} {p : State × Slot}
    (h : p ∈ r.departure s ts) : p.1 = s ∨ p.1 = r.automaton.error := by
  have hboth : p ∈ [(s, Slot.exit), (r.automaton.error, .entry)] →
      p.1 = s ∨ p.1 = r.automaton.error := by
    intro h
    simp only [List.mem_cons, List.not_mem_nil, or_false] at h
    exact h.imp (congrArg Prod.fst) (congrArg Prod.fst)
  unfold departure at h
  split at h
  · split at h
    · exact .inl (congrArg Prod.fst (List.mem_singleton.1 h))
    · exact hboth h
  · split at h
    · exact .inl (congrArg Prod.fst (List.mem_singleton.1 h))
    · exact hboth h

end Run

end HookedAutomata
