import HookedAutomata.Proofs.Actions

/-!
# Behaviour depends on names alone

Runs decide by the names of states. So two runs whose automata have the same names in the same
places, and which are in states of the same names, stay so whatever is done with both
(`Run.Alike.next`), give the same answers (`Run.Alike.answer`) and consult the slots of states of the
same names in the same order (`Run.Alike.keys_slots`). Their instances, their hooks and the wirings
they are driven in may be different.

End names matter only for states that a run can enter (`Automaton.CanEnter`).
-/

namespace HookedAutomata

variable {κ : Type} [CustomTrigger κ]

/-! ## Automata with the same names -/

namespace Automaton

/-- A run can enter a state of the name: it is the start state or a target. -/
def CanEnter (a : Automaton κ) (n : String) : Prop :=
  n = a.start.name ∨ ∃ m on, (a.table.direct m on).has n = true

theorem CanEnter.silently {a : Automaton κ} {m n : String} (h : a.CanEnter m)
    (hmn : a.table.Silently m n) : a.CanEnter n := by
  induction hmn with
  | refl => exact h
  | tail _ hmove _ => exact .inr ⟨_, .epsilon, hmove⟩

theorem canEnter_of_has_resolve {a : Automaton κ} {m n : String} {on : Trigger κ}
    (h : (a.table.resolve m on).has n = true) : a.CanEnter n := by
  obtain ⟨k, hk, hkn⟩ := Table.has_resolve.1 h
  have hk' : a.CanEnter k := .inr ⟨m, on, hk⟩
  exact hk'.silently hkn

/-- The same names in the places where runs look. -/
structure Alike (a b : Automaton κ) : Prop where
  start : a.start.name = b.start.name
  error : a.error.name = b.error.name
  direct : ∀ m on n, (a.table.direct m on).has n = (b.table.direct m on).has n
  ends : ∀ n, b.CanEnter n → a.isEnd n = b.isEnd n

namespace Alike

variable {a b : Automaton κ}

theorem canEnter (h : a.Alike b) {n : String} : a.CanEnter n ↔ b.CanEnter n := by
  unfold CanEnter
  rw [h.start]
  simp only [h.direct]

theorem symm (h : a.Alike b) : b.Alike a :=
  ⟨h.start.symm, h.error.symm, fun m on n => (h.direct m on n).symm,
    fun n hn => (h.ends n (h.canEnter.1 hn)).symm⟩

theorem trans {c : Automaton κ} (h : a.Alike b) (h' : b.Alike c) : a.Alike c :=
  ⟨h.start.trans h'.start, h.error.trans h'.error,
    fun m on n => (h.direct m on n).trans (h'.direct m on n),
    fun n hn => (h.ends n (h'.canEnter.2 hn)).trans (h'.ends n hn)⟩

theorem silently (h : a.Alike b) {m n : String} :
    a.table.Silently m n ↔ b.table.Silently m n := by
  have hmove : (fun m n => (a.table.silent m).has n = true) =
      fun m n => (b.table.silent m).has n = true := by
    funext m n
    show ((a.table.direct m .epsilon).has n = true) = _
    rw [h.direct]
    rfl
  unfold Table.Silently
  rw [hmove]

theorem resolve (h : a.Alike b) (m : String) (on : Trigger κ) :
    (a.table.resolve m on).names = (b.table.resolve m on).names := by
  refine SortedSet.names_eq_iff.2 fun n => ?_
  rw [Bool.eq_iff_iff, Table.has_resolve, Table.has_resolve]
  simp only [h.direct, h.silently]

end Alike

end Automaton

/-- A snapshot is added by its names, unless it is empty. -/
theorem Sightings.names_record (h : Sightings) (s : StateSet) :
    (h.record s).names = h.names ++ [s.names].filter (· ≠ []) := by
  unfold names
  rw [snapshots_record, List.map_append, SortedSet.isEmpty_eq_names]
  cases hnames : s.names <;> simp [hnames]

/-! ## Runs in states of the same names -/

namespace Run

/-- Runs of automata with the same names, in states of the same names. -/
structure Alike (q r : Run κ) : Prop where
  automaton : q.automaton.Alike r.automaton
  policy : q.policy = r.policy
  current : q.current.names = r.current.names
  history : q.history.names = r.history.names

namespace Alike

variable {q r : Run κ}

theorem symm (h : q.Alike r) : r.Alike q :=
  ⟨h.automaton.symm, h.policy.symm, h.current.symm, h.history.symm⟩

theorem isEmpty (h : q.Alike r) : q.current.isEmpty = r.current.isEmpty :=
  SortedSet.isEmpty_congr h.current

theorem source (h : q.Alike r) {s : State} (hs : s ∈ q.current) :
    ∃ s' ∈ r.current, s'.name = s.name := by
  have hhas : r.current.has s.name = true := by
    rw [← SortedSet.names_eq_iff.1 h.current]
    exact SortedSet.has_of_mem hs
  exact SortedSet.has_iff.1 hhas

theorem atEnd (h : q.Alike r) : q.atEnd = r.atEnd := by
  have hnone : q.history.isEmpty = r.history.isEmpty := by
    have hnames : ∀ k : Sightings, k.isEmpty = k.names.isEmpty := by
      intro k
      simp [Sightings.isEmpty, Sightings.names]
    rw [hnames, hnames, h.history]
  unfold Run.atEnd
  rw [SortedSet.size_congr h.current, SortedSet.names_eq_iff.1 h.current, h.automaton.error,
    h.policy, hnone]

/-! ### One step -/

theorem targets (h : q.Alike r) (on : Trigger κ) {s s' : State} (hs : s.name = s'.name) :
    (q.targets on s).names = (r.targets on s').names := by
  unfold Run.targets
  rw [hs]
  exact h.automaton.resolve s'.name on

theorem successors (h : q.Alike r) {s s' : State} (hs : s.name = s'.name) {ts ts' : StateSet}
    (hts : ts.names = ts'.names) : (q.successors s ts).names = (r.successors s' ts').names := by
  refine SortedSet.names_eq_iff.2 fun n => ?_
  rw [has_successors, has_successors, SortedSet.isEmpty_congr hts, SortedSet.size_congr hts,
    SortedSet.names_eq_iff.1 hts, h.policy, h.automaton.error, hs]

theorem initial (h : q.Alike r) : q.initial.names = r.initial.names := by
  refine SortedSet.names_eq_iff.2 fun n => ?_
  have hbegun : q.begun.current.has n = true ↔ r.begun.current.has n = true := by
    rw [has_begun, has_begun, h.automaton.start, h.automaton.silently]
  exact Bool.eq_iff_iff.2 hbegun

theorem has_moved (h : q.Alike r) {on : Trigger κ} {n : String}
    (hn : (q.moved on).current.has n = true) : (r.moved on).current.has n = true := by
  obtain ⟨s, hs, hsn⟩ := (q.has_moved on n).1 hn
  obtain ⟨s', hs', hname⟩ := h.source hs
  refine (r.has_moved on n).2 ⟨s', hs', ?_⟩
  rw [← SortedSet.names_eq_iff.1 (h.successors hname.symm (h.targets on hname.symm))]
  exact hsn

theorem has_sighted (h : q.Alike r) {on : Trigger κ} {n : String}
    (hn : (q.sighted on).has n = true) : (r.sighted on).has n = true := by
  obtain ⟨⟨s, hs, hsn⟩, hend⟩ := (q.has_sighted on n).1 hn
  obtain ⟨s', hs', hname⟩ := h.source hs
  have htarget : (r.targets on s').has n = true := by
    rw [← SortedSet.names_eq_iff.1 (h.targets on hname.symm)]
    exact hsn
  refine (r.has_sighted on n).2 ⟨⟨s', hs', htarget⟩, ?_⟩
  rw [← h.automaton.ends n (Automaton.canEnter_of_has_resolve htarget)]
  exact hend

/-- Snapshots of the same names make the same histories. -/
theorem record (h : q.Alike r) {s t : StateSet} (hst : s.names = t.names) :
    (q.history.record s).names = (r.history.record t).names := by
  rw [Sightings.names_record, Sightings.names_record, h.history, hst]

/-- A start sights end states of the same names. -/
theorem endsAmong_initial (h : q.Alike r) :
    (endsAmong q.automaton q.initial).names = (endsAmong r.automaton r.initial).names := by
  refine SortedSet.names_eq_iff.2 fun n => ?_
  rw [has_endsAmong, has_endsAmong, SortedSet.names_eq_iff.1 h.initial]
  cases hn : r.initial.has n with
  | false => rfl
  | true =>
    -- only names that a run can enter are looked up among the end names
    have hstart : r.automaton.CanEnter r.automaton.start.name := .inl rfl
    rw [h.automaton.ends n (hstart.silently ((r.has_begun n).1 hn))]

/-- A step sights end states of the same names. -/
theorem sighted (h : q.Alike r) (on : Trigger κ) : (q.sighted on).names = (r.sighted on).names :=
  SortedSet.names_eq_iff.2 fun _ => Bool.eq_iff_iff.2 ⟨h.has_sighted, h.symm.has_sighted⟩

theorem begun (h : q.Alike r) : q.begun.Alike r.begun :=
  ⟨h.automaton, h.policy, h.initial, h.record h.endsAmong_initial⟩

theorem moved (h : q.Alike r) (on : Trigger κ) : (q.moved on).Alike (r.moved on) := by
  refine ⟨h.automaton, h.policy, SortedSet.names_eq_iff.2 fun n => ?_, h.record (h.sighted on)⟩
  exact Bool.eq_iff_iff.2 ⟨h.has_moved, h.symm.has_moved⟩

theorem reset (h : q.Alike r) : q.reset.Alike r.reset :=
  ⟨h.automaton, h.policy, rfl, h.history⟩

/-! ### Actions -/

theorem isBisimulation : IsBisimulation (Alike : Run κ → Run κ → Prop) where
  isEmpty h := h.isEmpty
  begun h := h.begun
  moved on h := h.moved on
  reset h := h.reset

theorem next (h : q.Alike r) (c : Action κ) : (q.next c).Alike (r.next c) :=
  isBisimulation.next h c

theorem answer (h : q.Alike r) (c : Action κ) : q.answer c = r.answer c :=
  isBisimulation.answer (fun h => h.atEnd) h c

/-- Runs that are alike show the same, whatever is done with both and in whatever wirings. -/
theorem shown (h : q.Alike r) (w v : Wiring) (cs : List (Action κ)) :
    q.shown w cs = r.shown v cs := by
  induction cs generalizing q r w v with
  | nil => rfl
  | cons c rest ih =>
    have hnext := h.next c
    unfold Run.shown
    simp only [act_eq]
    rw [h.answer c, hnext.current, hnext.history, ih hnext]

end Alike

/-! ## The slots that are consulted -/

/-- Slots by the names of their states. -/
def keys (l : List (State × Slot)) : List (String × Slot) := l.map fun p => (p.1.name, p.2)

theorem keys_append (l m : List (State × Slot)) : keys (l ++ m) = keys l ++ keys m :=
  List.map_append

theorem keys_entries (ts : StateSet) : keys (entries ts) = ts.names.map fun n => (n, .entry) := by
  unfold keys entries SortedSet.names
  rw [List.map_map, List.map_map]
  rfl

/-- States of the same names that have slots of the same names each have so together. -/
theorem keys_flatMap {f g : State → List (State × Slot)} {l m : List State}
    (hnames : l.map (·.name) = m.map (·.name))
    (h : ∀ s s', s.name = s'.name → keys (f s) = keys (g s')) :
    keys (l.flatMap f) = keys (m.flatMap g) := by
  induction l generalizing m with
  | nil =>
    rw [List.map_eq_nil_iff.1 hnames.symm]
    rfl
  | cons s l ih =>
    cases m with
    | nil => cases hnames
    | cons s' m =>
      obtain ⟨hname, hrest⟩ := List.cons.inj hnames
      rw [List.flatMap_cons, List.flatMap_cons, keys_append, keys_append, h s s' hname, ih hrest]

namespace Alike

variable {q r : Run κ}

theorem keys_departure (h : q.Alike r) {s s' : State} (hs : s.name = s'.name) {ts ts' : StateSet}
    (hts : ts.names = ts'.names) : keys (q.departure s ts) = keys (r.departure s' ts') := by
  unfold departure
  -- both sides ask the same questions, of sets of one size
  rw [SortedSet.isEmpty_congr hts, SortedSet.size_congr hts, h.policy]
  cases ts'.isEmpty with
  | true =>
    cases r.policy.allowStaying with
    | true => simp [keys, hs]
    | false => simp [keys, hs, h.automaton.error]
  | false =>
    cases ts'.size == 1 || r.policy.allowBranching with
    | true => simp [keys, hs]
    | false => simp [keys, hs, h.automaton.error]

theorem keys_consultations (h : q.Alike r) (on : Trigger κ) :
    keys (q.consultations on) = keys (r.consultations on) := by
  refine keys_flatMap h.current fun s s' hs => ?_
  have htargets := h.targets on hs
  unfold consulted
  rw [keys_append, keys_append, keys_entries, keys_entries, htargets,
    h.keys_departure hs htargets]

theorem keys_allConsultations (h : q.Alike r) (word : List (Trigger κ)) :
    keys (q.allConsultations word) = keys (r.allConsultations word) := by
  induction word generalizing q r with
  | nil => rfl
  | cons on rest ih =>
    unfold allConsultations
    rw [h.isEmpty]
    cases r.current.isEmpty with
    | true => rfl
    | false =>
      show keys (q.consultations on ++ _) = keys (r.consultations on ++ _)
      rw [keys_append, keys_append, h.keys_consultations on, ih (h.moved on)]

/-- Runs that are alike consult slots of the same names in the same order. -/
theorem keys_slots (h : q.Alike r) (c : Action κ) : keys (q.slots c) = keys (r.slots c) := by
  cases c with
  | start =>
    show keys (entries q.initial) = keys (entries r.initial)
    rw [keys_entries, keys_entries, h.initial]
  | update on =>
    simp only [slots]
    rw [h.isEmpty]
    cases r.current.isEmpty with
    | true => rfl
    | false => exact h.keys_consultations on
  | updateAll word => exact h.keys_allConsultations word
  | reset => rfl
  | atEnd => rfl

end Alike

end Run

end HookedAutomata
