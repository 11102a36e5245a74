import HookedAutomata.Proofs.Restoring

/-!
# A state under one handle

A host comes by an automaton by drafting or loading it, and may edit its table (`Automaton.Made`).
It comes by a run by making a new one over such an automaton or by loading one, and then drives it
(`Run.Arises`). What such a run holds, now and in its history, are the instances that the automaton
itself has (`Run.Arises.keeps`).

Of these there is one for each name, so however the host has got hold of a state, it has the
instance that the run is in, and a hook that it replaces is the one that is fired.

The main statement is `Run.Arises.own_instances`.
-/

namespace HookedAutomata

variable {κ : Type} [CustomTrigger κ]

/-! ## Automata -/

namespace Automaton

/-- The automata that a host comes by: drafted or loaded, with any edits of their tables. -/
inductive Made : Automaton κ → Prop where
  | drafted {a : Automaton κ} (h : a.Drafted) : Made a
  | loaded {a : Automaton κ} {r : AutomatonRecord} {g : Registries κ} {v w : Wiring}
      (h : r.load g v = .ok (a, w)) : Made a
  | edited {a : Automaton κ} (h : Made a) (l : List (Table.Edit κ)) : Made (a.edited l)

theorem Made.shared {a : Automaton κ} (h : a.Made) : a.Shared := by
  induction h with
  | drafted h => exact h.shared
  | loaded h =>
    obtain ⟨-, states, es, hreplayed⟩ := AutomatonRecord.replayed_of_load h
    exact hreplayed.shared.1
  | edited _ l ih => exact ih.edited l

/-- The instances that a host gets from an automaton: its start and its error state and the states
of its entries. -/
def Hands (a : Automaton κ) (x : State) : Prop :=
  x ∈ a.table.transitions.states ∨ x = a.start ∨ x = a.error

/-- Where instances are shared, the instances handed out are the states. -/
theorem Shared.hands_iff {a : Automaton κ} (ha : a.Shared) {x : State} :
    a.Hands x ↔ x ∈ a.states :=
  ⟨ha.mem_states, Automaton.mem_states⟩

theorem mem_of_resolveName {a : Automaton κ} {n : String} {x : State}
    (h : a.resolveName n = .ok x) : x ∈ a.states := by
  unfold resolveName at h
  split at h
  · rename_i s hfind
    obtain rfl := Except.ok.inj h
    exact (SortedSet.find?_eq_some_iff.1 hfind).1
  · cases h

theorem mem_of_resolveNames {a : Automaton κ} {l : List String} {s : StateSet}
    (h : a.resolveNames l = .ok s) {x : State} (hx : x ∈ s) : x ∈ a.states := by
  unfold resolveNames at h
  cases hl : l.mapM a.resolveName with
  | error e =>
    rw [hl] at h
    cases h
  | ok xs =>
    rw [hl] at h
    obtain rfl := Except.ok.inj h
    obtain ⟨n, -, hn⟩ :=
      exists_mem_of_forall₂_right (forall₂_of_mapM_eq_ok hl) (SortedSet.mem_collect hx)
    exact mem_of_resolveName hn

end Automaton

/-! ## Runs -/

theorem Sightings.mem_foldl_record {h : Sightings} {l : List StateSet} {s : StateSet}
    (hs : s ∈ (l.foldl record h).snapshots) : s ∈ h.snapshots ∨ s ∈ l := by
  induction l generalizing h with
  | nil => exact .inl hs
  | cons t l ih =>
    rcases ih hs with hs | hs
    · rw [snapshots_record] at hs
      rcases List.mem_append.1 hs with hs | hs
      · exact .inl hs
      · split at hs
        · exact absurd hs List.not_mem_nil
        · exact .inr (List.mem_cons.2 (.inl (List.mem_singleton.1 hs)))
    · exact .inr (List.mem_cons_of_mem t hs)

namespace Run

/-- The run is in the state, or has it in a snapshot of its history. -/
def Holds (r : Run κ) (x : State) : Prop := x ∈ r.current ∨ ∃ s ∈ r.history.snapshots, x ∈ s

/-- What the run holds are instances that the automaton has. -/
structure Keeps (a : Automaton κ) (r : Run κ) : Prop where
  within : r.Within a
  history : ∀ s ∈ r.history.snapshots, ∀ x ∈ s, x ∈ a.states

variable {a : Automaton κ} {r : Run κ}

theorem Keeps.mem_states (h : r.Keeps a) {x : State} (hx : r.Holds x) : x ∈ a.states := by
  rcases hx with hx | ⟨s, hs, hx⟩
  · exact h.within.current x hx
  · exact h.history s hs x hx

/-- A snapshot of the automaton's instances is added to such snapshots. -/
theorem Keeps.record (h : r.Keeps a) {t : StateSet} (ht : ∀ x ∈ t, x ∈ a.states) :
    ∀ s ∈ (r.history.record t).snapshots, ∀ x ∈ s, x ∈ a.states := by
  intro s hs
  rcases Sightings.mem_foldl_record (l := [t]) hs with hs | hs
  · exact h.history s hs
  · rw [List.mem_singleton.1 hs]
    exact ht

theorem Keeps.begun (h : r.Keeps a) (ha : a.Shared) : r.begun.Keeps a where
  within := h.within.begun ha
  history := h.record fun _ hx => h.within.mem_initial ha (SortedSet.mem_filter.1 hx).1

theorem Keeps.moved (h : r.Keeps a) (ha : a.Shared) (on : Trigger κ) : (r.moved on).Keeps a where
  within := h.within.moved ha on
  history := h.record fun x hx => by
    -- what is sighted are targets of some source
    obtain ⟨s, -, hx⟩ := SortedSet.mem_unions_map hx
    exact h.within.mem_targets ha (SortedSet.mem_filter.1 hx).1

theorem Keeps.reset (h : r.Keeps a) : r.reset.Keeps a := ⟨h.within.reset, h.history⟩

theorem Keeps.next (h : r.Keeps a) (ha : a.Shared) (c : Action κ) : (r.next c).Keeps a :=
  next_invariant (fun _ h => h.begun ha) (fun _ on _ h => h.moved ha on) (fun _ h => h.reset) h c

theorem keeps_fresh (id : Uuid) (a : Automaton κ) (policy : Policy) : (fresh id a policy).Keeps a :=
  ⟨⟨rfl, fun x hx => absurd hx (SortedSet.not_mem_empty x)⟩, fun _ hs => absurd hs List.not_mem_nil⟩

/-- A run is loaded over the automaton of its record, with states that are found there by name. -/
theorem keeps_of_load {q : RunRecord} {g : Registries κ} {v w : Wiring}
    (h : q.load g v = .ok (r, w)) :
    q.automaton.load g v = .ok (r.automaton, w) ∧ r.Keeps r.automaton := by
  obtain ⟨-, a, current, snapshots, ha, hcurrent, hsnapshots, rfl⟩ := RunRecord.load_eq_ok_iff.1 h
  refine ⟨ha, ⟨rfl, fun x hx => Automaton.mem_of_resolveNames hcurrent hx⟩, fun s hs x hx => ?_⟩
  have hlooked : s ∈ snapshots := (Sightings.mem_foldl_record hs).resolve_left List.not_mem_nil
  obtain ⟨ns, -, hns⟩ := exists_mem_of_forall₂_right (forall₂_of_mapM_eq_ok hsnapshots) hlooked
  exact Automaton.mem_of_resolveNames hns hx

/-- The runs that a host comes by: a new one over such an automaton or a loaded one, and from any of
these what an action makes of it, in whatever wiring. -/
inductive Arises : Run κ → Prop where
  | fresh {a : Automaton κ} (h : a.Made) (id : Uuid) (policy : Policy) : Arises (fresh id a policy)
  | loaded {r : Run κ} {q : RunRecord} {g : Registries κ} {v w : Wiring}
      (h : q.load g v = .ok (r, w)) : Arises r
  | act {r : Run κ} (h : Arises r) (w : Wiring) (c : Action κ) : Arises (r.act w c).run

theorem Arises.keeps (h : r.Arises) : r.automaton.Shared ∧ r.Keeps r.automaton := by
  induction h with
  | fresh h id policy => exact ⟨h.shared, keeps_fresh id _ policy⟩
  | loaded h =>
    obtain ⟨hload, hkeeps⟩ := keeps_of_load h
    exact ⟨(Automaton.Made.loaded hload).shared, hkeeps⟩
  | @act r _ w c ih =>
    obtain ⟨hshared, hkeeps⟩ := ih
    have hnext := hkeeps.next hshared c
    rw [act_eq]
    show (r.next c).automaton.Shared ∧ (r.next c).Keeps (r.next c).automaton
    rw [hnext.within.automaton]
    exact ⟨hshared, hnext⟩

/-- **A run holds its automaton's own instances.** Whatever run a host has come by, every state that
it holds, now or in its history, is a state of its automaton, is the one that the automaton finds
under its name, and is the one that the host gets from the automaton under that name by any other
way. The start and the error state are found under their names too.

An action fires slots of these instances only. So a hook that was replaced through any handle is the
one that is found when the slot is consulted under that name. -/
theorem Arises.own_instances (h : r.Arises) :
    (∀ x, r.Holds x → x ∈ r.automaton.states ∧ r.automaton.state? x.name = some x ∧
      ∀ y, r.automaton.Hands y → y.name = x.name → y = x) ∧
    r.automaton.state? r.automaton.start.name = some r.automaton.start ∧
    r.automaton.state? r.automaton.error.name = some r.automaton.error ∧
    ∀ (w : Wiring) (c : Action κ), (r.act w c).wiring = w.fireAll (r.slots c) ∧
      ∀ p ∈ r.slots c, ∀ y, r.automaton.Hands y → y.name = p.1.name →
        y = p.1 ∧ ∀ (u : Wiring) (hook : Option Callback),
          (u.setHook y p.2 hook).hook p.1 p.2 = hook := by
  obtain ⟨hshared, hkeeps⟩ := h.keeps
  have hfound : ∀ x ∈ r.automaton.states, r.automaton.state? x.name = some x :=
    fun x hx => SortedSet.find?_eq_some_iff.2 ⟨hx, rfl⟩
  have hone : ∀ x ∈ r.automaton.states, ∀ y, r.automaton.Hands y → y.name = x.name → y = x :=
    fun x hx y hy => SortedSet.eq_of_mem_of_name_eq (hshared.hands_iff.1 hy) hx
  refine ⟨fun x hx => ?_, ?_, ?_, fun w c => ⟨?_, fun p hp y hy hname => ?_⟩⟩
  · have hmem := hkeeps.mem_states hx
    exact ⟨hmem, hfound x hmem, hone x hmem⟩
  · exact hfound _ (hshared.hands_iff.1 (.inr (.inl rfl)))
  · exact hfound _ (hshared.hands_iff.1 (.inr (.inr rfl)))
  · rw [act_eq]
  · obtain rfl := hone p.1 (hkeeps.within.mem_slots hshared hp) y hy hname
    refine ⟨rfl, fun u hook => ?_⟩
    rw [Wiring.hook_setHook, if_pos ⟨rfl, rfl⟩]

/-- A run of a turnstile that was saved while it was open. -/
def turnstileRecord : RunRecord where
  version := recordVersion
  id := default
  savedAt := default
  automaton :=
    { states := [⟨"locked", "log", none, none⟩, .named "open"]
      transitions := [⟨"locked", ⟨"text", "coin"⟩, ["open"]⟩]
      start := "locked"
      error := .named "error"
      ends := ["open"] }
  current := ["open"]
  history := [["open"]]
  policy := {}

/-- The turnstile is loaded and then pushed, which takes it to the error state. -/
theorem Arises.own_instances_turnstile :
    ∃ (r : Run Symbol) (v : Wiring),
      turnstileRecord.load Registries.logging .logging = .ok (r, v) ∧
      let q := (r.act v (.update (.text "push"))).run
      q.Arises ∧ q.Holds ⟨"error", 6⟩ ∧ q.Holds ⟨"open", 5⟩ ∧
        q.automaton.state? "error" = some ⟨"error", 6⟩ ∧
        q.automaton.state? "open" = some ⟨"open", 5⟩ ∧
        ∀ y, q.automaton.Hands y → y.name = "open" → y = ⟨"open", 5⟩ := by
  have hload : ∃ (r : Run Symbol) (v : Wiring),
      turnstileRecord.load Registries.logging .logging = .ok (r, v) ∧
        let q := (r.act v (.update (.text "push"))).run
        q.Holds ⟨"error", 6⟩ ∧ q.Holds ⟨"open", 5⟩ :=
    ⟨_, _, rfl, .inl (.head _), .inr ⟨_, .head _, .head _⟩⟩
  obtain ⟨r, v, hload, herror, hopen⟩ := hload
  have harises : (r.act v (.update (.text "push"))).run.Arises := .act (.loaded hload) v _
  obtain ⟨hheld, -⟩ := harises.own_instances
  exact ⟨r, v, hload, harises, herror, hopen, (hheld _ herror).2.1, (hheld _ hopen).2⟩

end Run

end HookedAutomata
