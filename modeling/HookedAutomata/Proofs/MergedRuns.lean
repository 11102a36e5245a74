import HookedAutomata.Proofs.Handles
import HookedAutomata.Proofs.SavedHooks
import HookedAutomata.Proofs.SightingLog

/-!
# Current states are processed one by one

What a current state gives, to the next current states and to the end states that are sighted, does
not depend on which other states are current (`Run.Gives`, `Run.Sights`). What they give is united.
So a run in the states of two others does in each step what the two do together (`Run.Merges.moved`,
`Run.Merges.sighted`), whatever the policy says about staying, failing and branching.

Runs in given states are had from records. A record that is loaded once is loaded in any wiring, and
each time as an automaton of the same names (`AutomatonRecord.load_again`), as entries are merged by
names and so whatever instances are made for the states.

The main statement is `RunRecord.load_merged`.
-/

namespace HookedAutomata

variable {κ : Type} [CustomTrigger κ]

/-! ## Records that are loaded again -/

/-- The state without its instance. -/
def State.bare (s : State) : State := ⟨s.name, 0⟩

theorem State.name_bare (s : State) : s.bare.name = s.name := rfl

theorem StateSet.relabel_bare_congr {s t : StateSet} (h : s.names = t.names) :
    s.relabel State.bare State.name_bare = t.relabel State.bare State.name_bare := by
  have hbare : ∀ (u : StateSet) n, (u.relabel State.bare State.name_bare).find? n =
      if u.has n = true then some ⟨n, 0⟩ else none := by
    intro u n
    rw [SortedSet.find?_relabel, SortedSet.has]
    cases hfind : u.find? n with
    | none => rfl
    | some x =>
      obtain rfl : x.name = n := (SortedSet.find?_eq_some_iff.1 hfind).2
      rfl
  refine SortedSet.ext_find? fun n => ?_
  rw [hbare, hbare, SortedSet.names_eq_iff.1 h]

def Entry.bare (e : Entry κ) : Entry κ := e.relabel State.bare State.name_bare

omit [CustomTrigger κ] in
/-- Entries that are drawn for one recorded transition are the same but for their instances. -/
theorem TransitionRecord.Drawn.bare_eq {t : TransitionRecord} {g : TriggerRegistry κ}
    {states states' : StateSet} {e e' : Entry κ} (h : t.Drawn states g e)
    (h' : t.Drawn states' g e') : e.bare = e'.bare := by
  obtain ⟨on, haccept, hover⟩ := h
  obtain ⟨on', haccept', hover'⟩ := h'
  have hon : on = on' := by
    have hresolve := TriggerRegistry.resolve_of_accepts haccept
    rw [TriggerRegistry.resolve_of_accepts haccept'] at hresolve
    exact (Except.ok.inj hresolve).symm
  have hsource : e.source.bare = e'.source.bare := by
    unfold State.bare
    rw [hover.source_name, hover'.source_name]
  have htrigger : e.trigger = e'.trigger := by rw [hover.trigger, hover'.trigger, hon]
  have htargets : e.targets.names = e'.targets.names := by
    refine SortedSet.names_eq_iff.2 fun n => ?_
    rw [Bool.eq_iff_iff, hover.has_targets, hover'.has_targets]
  unfold Entry.bare Entry.relabel
  rw [hsource, htrigger, StateSet.relabel_bare_congr htargets]

omit [CustomTrigger κ] in
theorem TransitionRecord.map_bare_eq {l : List TransitionRecord} {g : TriggerRegistry κ}
    {states states' : StateSet} {es es' : List (Entry κ)}
    (h : List.Forall₂ (Drawn states g) l es) (h' : List.Forall₂ (Drawn states' g) l es') :
    es.map Entry.bare = es'.map Entry.bare := by
  induction h generalizing es' with
  | nil =>
    cases h'
    rfl
  | cons hfirst _ ih =>
    cases h' with
    | cons hfirst' hrest' => rw [List.map_cons, List.map_cons, hfirst.bare_eq hfirst', ih hrest']

namespace AutomatonRecord

variable {r : AutomatonRecord} {g : Registries κ} {v w v' w' : Wiring} {states states' : StateSet}
  {es es' : List (Entry κ)} {a a' : Automaton κ}

/-- The direct targets are those of the merged entries, whatever their instances are. -/
theorem Replayed.names_direct (h : r.Replayed g v w states es a) (n : String) (on : Trigger κ) :
    (a.table.direct n on).names =
      (((es.map Entry.bare).foldl Transitions.merge ∅).targets n on).names := by
  rw [h.table, Table.names_direct_pin, Table.names_direct_pin]
  show ((es.foldl Transitions.merge ∅).targets n on).names = _
  have hbare : (es.map Entry.bare).foldl Transitions.merge ∅ =
      (es.foldl Transitions.merge ∅).relabel State.bare State.name_bare :=
    Transitions.foldl_merge_relabel ∅ _ _ es
  rw [hbare, Transitions.targets_relabel, SortedSet.names_relabel]

/-- What is loaded from one record, in whatever wirings, has the same names in the same places. -/
theorem Replayed.alike_again (h : r.Replayed g v w states es a)
    (h' : r.Replayed g v' w' states' es' a') : a.Alike a' := by
  refine ⟨h.start_name.trans h'.start_name.symm, h.error_name.trans h'.error_name.symm,
    fun m on n => ?_, fun n _ => ?_⟩
  · refine SortedSet.names_eq_iff.1 ?_ n
    rw [h.names_direct, h'.names_direct, TransitionRecord.map_bare_eq h.entries h'.entries]
  · unfold Automaton.isEnd
    rw [h.ends, h'.ends]

/-- A record that is loaded once is loaded in any wiring. -/
theorem load_again (h : r.load g v = .ok (a, w)) (u : Wiring) :
    ∃ b u', r.load g u = .ok (b, u') ∧ b.Alike a ∧ ∀ n, b.states.has n = a.states.has n := by
  obtain ⟨hvalid, states, es, hreplayed⟩ := replayed_of_load h
  have haccepted : ∀ t ∈ r.transitions, ∃ on, g.triggers.Accepts t.trigger on := by
    intro t ht
    obtain ⟨e, -, on, haccept, -⟩ := exists_mem_of_forall₂_left hreplayed.entries ht
    exact ⟨on, haccept⟩
  obtain ⟨b, u', states', es', hload, hagain⟩ := load_of_accepted hvalid haccepted u
  refine ⟨b, u', hload, hagain.alike_again hreplayed, fun n => ?_⟩
  rw [Bool.eq_iff_iff, hagain.has_states_iff, hreplayed.has_states_iff]

end AutomatonRecord

namespace Automaton

theorem has_of_resolveNames {a : Automaton κ} {l : List String} {s : StateSet}
    (h : a.resolveNames l = .ok s) : ∀ n ∈ l, a.states.has n = true := by
  unfold resolveNames at h
  cases hl : l.mapM a.resolveName with
  | error e =>
    rw [hl] at h
    cases h
  | ok xs =>
    intro n hn
    obtain ⟨x, -, hx⟩ := exists_mem_of_forall₂_left (forall₂_of_mapM_eq_ok hl) hn
    unfold resolveName at hx
    split at hx
    · rename_i s hfind
      exact Option.isSome_iff_exists.2 ⟨s, hfind⟩
    · cases hx

end Automaton

namespace Run

/-! ## One source -/

/-- A source of the name `m` gives the name `n` to the next current states. -/
def Gives (r : Run κ) (on : Trigger κ) (m n : String) : Prop :=
  (r.successors ⟨m, 0⟩ (r.targets on ⟨m, 0⟩)).has n = true

/-- A source of the name `m` leads to an end state of the name `n`. -/
def Sights (r : Run κ) (on : Trigger κ) (m n : String) : Prop :=
  (r.targets on ⟨m, 0⟩).has n = true ∧ r.automaton.isEnd n = true

theorem gives_name (r : Run κ) (on : Trigger κ) (s : State) (n : String) :
    r.Gives on s.name n ↔ (r.successors s (r.targets on s)).has n = true := by
  unfold Gives
  rw [has_successors, has_successors]
  rfl

theorem has_moved_iff_gives (r : Run κ) (on : Trigger κ) (n : String) :
    (r.moved on).current.has n = true ↔ ∃ m, r.current.has m = true ∧ r.Gives on m n := by
  rw [has_moved]
  constructor
  · rintro ⟨s, hs, hn⟩
    exact ⟨s.name, SortedSet.has_of_mem hs, (r.gives_name on s n).2 hn⟩
  · rintro ⟨m, hm, hn⟩
    obtain ⟨s, hs, rfl⟩ := SortedSet.has_iff.1 hm
    exact ⟨s, hs, (r.gives_name on s n).1 hn⟩

theorem has_sighted_iff_sights (r : Run κ) (on : Trigger κ) (n : String) :
    (r.sighted on).has n = true ↔ ∃ m, r.current.has m = true ∧ r.Sights on m n := by
  rw [has_sighted]
  constructor
  · rintro ⟨⟨s, hs, hn⟩, hend⟩
    exact ⟨s.name, SortedSet.has_of_mem hs, hn, hend⟩
  · rintro ⟨m, hm, hn, hend⟩
    obtain ⟨s, hs, rfl⟩ := SortedSet.has_iff.1 hm
    exact ⟨⟨s, hs, hn⟩, hend⟩

/-- The runs have automata of the same names, and one policy. They may be in different states. -/
structure SameRules (x z : Run κ) : Prop where
  automaton : x.automaton.Alike z.automaton
  policy : x.policy = z.policy

namespace SameRules

variable {x z : Run κ}

theorem symm (h : x.SameRules z) : z.SameRules x := ⟨h.automaton.symm, h.policy.symm⟩

theorem trans {y : Run κ} (h : x.SameRules y) (h' : y.SameRules z) : x.SameRules z :=
  ⟨h.automaton.trans h'.automaton, h.policy.trans h'.policy⟩

theorem gives_iff (h : x.SameRules z) {on : Trigger κ} {m n : String} :
    x.Gives on m n ↔ z.Gives on m n := by
  -- what a source gives does not depend on the states that the run is in
  have hfresh : (fresh x.id x.automaton x.policy).Alike (fresh z.id z.automaton z.policy) :=
    ⟨h.automaton, h.policy, rfl, rfl⟩
  have hnames : (x.successors ⟨m, 0⟩ (x.targets on ⟨m, 0⟩)).names =
      (z.successors ⟨m, 0⟩ (z.targets on ⟨m, 0⟩)).names :=
    hfresh.successors rfl (h.automaton.resolve m on)
  exact Bool.eq_iff_iff.1 (SortedSet.names_eq_iff.1 hnames n)

theorem sights_iff (h : x.SameRules z) {on : Trigger κ} {m n : String} :
    x.Sights on m n ↔ z.Sights on m n := by
  have htargets : (x.targets on ⟨m, 0⟩).has n = (z.targets on ⟨m, 0⟩).has n :=
    SortedSet.names_eq_iff.1 (h.automaton.resolve m on) n
  unfold Sights
  rw [htargets]
  refine and_congr_right fun hn => ?_
  rw [h.automaton.ends n (Automaton.canEnter_of_has_resolve hn)]

end SameRules

/-! ## Merged runs -/

/-- The run `z` is in the states that the runs `x` and `y` are in, by name. -/
structure Merges (x y z : Run κ) : Prop where
  left : x.SameRules z
  right : y.SameRules z
  left_started : x.current.isEmpty = false
  right_started : y.current.isEmpty = false
  current : ∀ n, z.current.has n = (x.current.has n || y.current.has n)

namespace Merges

variable {x y z : Run κ}

theorem started (h : Merges x y z) : z.current.isEmpty = false := by
  obtain ⟨n, hn⟩ := SortedSet.isEmpty_eq_false_iff.1 h.left_started
  refine SortedSet.isEmpty_eq_false_iff.2 ⟨n, ?_⟩
  rw [h.current, hn]
  rfl

/-- Sources that are united give what they give apart. -/
theorem moved (h : Merges x y z) (on : Trigger κ) :
    Merges (x.moved on) (y.moved on) (z.moved on) := by
  refine ⟨⟨h.left.automaton, h.left.policy⟩, ⟨h.right.automaton, h.right.policy⟩,
    isEmpty_moved h.left_started on, isEmpty_moved h.right_started on, fun n => ?_⟩
  rw [Bool.eq_iff_iff, Bool.or_eq_true, has_moved_iff_gives, has_moved_iff_gives,
    has_moved_iff_gives]
  simp only [h.current, h.left.gives_iff, h.right.gives_iff, Bool.or_eq_true, or_and_right,
    exists_or]

theorem sighted (h : Merges x y z) (on : Trigger κ) :
    (z.sighted on).names = (x.sighted on ∪ y.sighted on).names := by
  refine SortedSet.names_eq_iff.2 fun n => ?_
  rw [SortedSet.has_union, Bool.eq_iff_iff, Bool.or_eq_true, has_sighted_iff_sights,
    has_sighted_iff_sights, has_sighted_iff_sights]
  simp only [h.current, h.left.sights_iff, h.right.sights_iff, Bool.or_eq_true, or_and_right,
    exists_or]

theorem driven (h : Merges x y z) {word : List (Trigger κ)} {x' y' z' : Run κ}
    (hx : x.Driven (word.map .update) x') (hy : y.Driven (word.map .update) y')
    (hz : z.Driven (word.map .update) z') : Merges x' y' z' := by
  induction word generalizing x y z with
  | nil =>
    cases hx
    cases hy
    cases hz
    exact h
  | cons on word ih =>
    have hx' := hx.next_of_cons
    have hy' := hy.next_of_cons
    have hz' := hz.next_of_cons
    simp only [next, h.left_started, h.right_started, h.started] at hx' hy' hz'
    exact ih (h.moved on) hx' hy' hz'

end Merges

/-- The step is taken, and it adds the snapshot to the history, if that is not empty. -/
def Notes (r : Run κ) (w : Wiring) (on : Trigger κ) (s : StateSet) : Prop :=
  (∃ b, (r.update w on).result = .ok b) ∧
    (r.update w on).run.history.snapshots = r.history.snapshots ++ noted [s]

theorem notes_sighted {r : Run κ} (h : r.current.isEmpty = false) (w : Wiring) (on : Trigger κ) :
    r.Notes w on (r.sighted on) := by
  unfold Notes
  rw [update_eq h]
  exact ⟨⟨_, rfl⟩, snapshots_record_eq ..⟩

end Run

/-! ## Runs in given states -/

namespace RunRecord

/-- A record that is loaded once is loaded in any wiring, and with any states of its automaton in
the place of the current ones. -/
theorem load_again {q : RunRecord} {g : Registries κ} {v w : Wiring} {r : Run κ}
    (h : q.load g v = .ok (r, w)) {l : List String}
    (hl : ∀ n ∈ l, r.automaton.states.has n = true) (u : Wiring) :
    ∃ x u', load { q with current := l } g u = .ok (x, u') ∧ x.SameRules r ∧
      ∀ n, x.current.has n = true ↔ n ∈ l := by
  obtain ⟨hversion, a, current, snapshots, ha, -, hsnapshots, rfl⟩ := load_eq_ok_iff.1 h
  obtain ⟨b, u', hb, halike, hstates⟩ := AutomatonRecord.load_again ha u
  obtain ⟨s, hs, hnames, -⟩ := Automaton.resolveNames_of_has fun n hn =>
    (hstates n).trans (hl n hn)
  -- the history is found again too
  have hhistory : ∀ n ∈ q.history.flatten, b.states.has n = true := by
    intro n hn
    obtain ⟨ns, hns, hn⟩ := List.mem_flatten.1 hn
    obtain ⟨t, -, ht⟩ := exists_mem_of_forall₂_left (forall₂_of_mapM_eq_ok hsnapshots) hns
    exact (hstates n).trans (Automaton.has_of_resolveNames ht n hn)
  obtain ⟨ts, hts, -⟩ := Automaton.mapM_resolveNames_of_has hhistory
  refine ⟨⟨q.id, b, q.policy, s, ts.foldl Sightings.record ∅⟩, u',
    load_eq_ok_iff.2 ⟨hversion, b, s, ts, hb, hs, hts, rfl⟩, ⟨halike, rfl⟩, fun n => ?_⟩
  rw [← SortedSet.mem_names, hnames, mem_inOrder]

/-- **Current states are processed one by one.** A record of a run can be loaded. `A` and `B` are
sets of states of its automaton that are not empty, and `C` is their union, all by name and in any
order. Then the record is loaded with each of them as its current states, each time in any wiring,
and the three runs are driven by the same word, each step in any wiring.

After every step the run that began in `C` is in the states of the two others together. Its next
step is taken, as are theirs, and the end states that it notes are those that they note together. -/
theorem load_merged {q : RunRecord} {g : Registries κ} {v₀ w₀ : Wiring} {r : Run κ}
    (h : q.load g v₀ = .ok (r, w₀)) {A B C : List String} (hA : A ≠ []) (hB : B ≠ [])
    (hC : ∀ n, n ∈ C ↔ n ∈ A ∨ n ∈ B) (hstates : ∀ n ∈ C, r.automaton.states.has n = true)
    (u v w : Wiring) :
    ∃ x y z u' v' w', load { q with current := A } g u = .ok (x, u') ∧
      load { q with current := B } g v = .ok (y, v') ∧
      load { q with current := C } g w = .ok (z, w') ∧
      ∀ (word : List (Trigger κ)) x' y' z', x.Driven (word.map .update) x' →
        y.Driven (word.map .update) y' → z.Driven (word.map .update) z' →
        z'.current.names = (x'.current ∪ y'.current).names ∧
        ∀ on u v w, ∃ s t st : StateSet, x'.Notes u on s ∧ y'.Notes v on t ∧ z'.Notes w on st ∧
          st.names = (s ∪ t).names := by
  obtain ⟨x, u', hx, hxr, hxnames⟩ := load_again h
    (fun n hn => hstates n ((hC n).2 (.inl hn))) u
  obtain ⟨y, v', hy, hyr, hynames⟩ := load_again h
    (fun n hn => hstates n ((hC n).2 (.inr hn))) v
  obtain ⟨z, w', hz, hzr, hznames⟩ := load_again h hstates w
  have hmerges : Run.Merges x y z := by
    refine ⟨hxr.trans hzr.symm, hyr.trans hzr.symm, ?_, ?_, fun n => ?_⟩
    · obtain ⟨n, hn⟩ := List.exists_mem_of_ne_nil A hA
      exact SortedSet.isEmpty_eq_false_iff.2 ⟨n, (hxnames n).2 hn⟩
    · obtain ⟨n, hn⟩ := List.exists_mem_of_ne_nil B hB
      exact SortedSet.isEmpty_eq_false_iff.2 ⟨n, (hynames n).2 hn⟩
    · rw [Bool.eq_iff_iff, Bool.or_eq_true, hznames, hxnames, hynames, hC]
  refine ⟨x, y, z, u', v', w', hx, hy, hz, fun word x' y' z' hx' hy' hz' => ?_⟩
  have hmerges' := hmerges.driven hx' hy' hz'
  refine ⟨SortedSet.names_eq_iff.2 fun n => ?_, fun on u v w => ?_⟩
  · rw [hmerges'.current, SortedSet.has_union]
  · exact ⟨x'.sighted on, y'.sighted on, z'.sighted on,
      Run.notes_sighted hmerges'.left_started u on, Run.notes_sighted hmerges'.right_started v on,
      Run.notes_sighted hmerges'.started w on, hmerges'.sighted on⟩

/-- The turnstile is loaded while it is locked, while it is open, and in both states. A coin opens
the one and breaks the other. -/
theorem load_merged_turnstile :
    ∃ (r : Run Symbol) (v : Wiring),
      Run.turnstileRecord.load Registries.logging .logging = .ok (r, v) ∧
      (∀ n, n ∈ ["locked", "open"] ↔ n ∈ ["locked"] ∨ n ∈ ["open"]) ∧
      (∀ n ∈ ["locked", "open"], r.automaton.states.has n = true) ∧
      ∃ (x y z : Run Symbol) (u' v' w' : Wiring),
        load { Run.turnstileRecord with current := ["locked"] } Registries.logging .logging =
          .ok (x, u') ∧
        load { Run.turnstileRecord with current := ["open"] } Registries.logging {} = .ok (y, v') ∧
        load { Run.turnstileRecord with current := ["locked", "open"] } Registries.logging v =
          .ok (z, w') ∧
        let coin : Run.Action Symbol := .update (.text "coin")
        (x.act u' coin).run.current.names = ["open"] ∧
          (z.act w' coin).run.current.names =
            ((x.act u' coin).run.current ∪ (y.act v' coin).run.current).names ∧
          ∃ s t st : StateSet, x.Notes u' (.text "coin") s ∧ y.Notes v' (.text "coin") t ∧
            z.Notes w' (.text "coin") st ∧ st.names = (s ∪ t).names := by
  obtain ⟨r, v, hload, hstates⟩ : ∃ (r : Run Symbol) (v : Wiring),
      Run.turnstileRecord.load Registries.logging .logging = .ok (r, v) ∧
        ∀ n ∈ ["locked", "open"], r.automaton.states.has n = true :=
    ⟨_, _, rfl, by decide +kernel⟩
  have hunion : ∀ n, n ∈ ["locked", "open"] ↔ n ∈ ["locked"] ∨ n ∈ ["open"] := by simp
  obtain ⟨x, y, z, u', v', w', hx, hy, hz, hmerged⟩ :=
    load_merged hload (List.cons_ne_nil "locked" []) (List.cons_ne_nil "open" []) hunion hstates
      .logging {} v
  refine ⟨r, v, hload, hunion, hstates, x, y, z, u', v', w', hx, hy, hz, ?_, ?_, ?_⟩
  · cases hx
    decide +kernel
  · exact (hmerged [.text "coin"] _ _ _ (.act u' (.done _)) (.act v' (.done _))
      (.act w' (.done _))).1
  · exact (hmerged [] x y z (.done x) (.done y) (.done z)).2 (.text "coin") u' v' w'

end RunRecord

end HookedAutomata
