import HookedAutomata.Proofs.Loading
import HookedAutomata.Proofs.OwnStates
import HookedAutomata.Proofs.Saving

/-!
# What a record means, and what saving and loading keeps

A record says of an automaton where its steps lead and which states it starts, fails and ends in
(`AutomatonRecord.Depicts`). The order of its transitions does not matter, nor whether several of
them are for one step, nor how they spell its trigger.

An automaton that was loaded is depicted by its record (`Replayed.depicts`), over fresh instances
alone (`Replayed.shared`). One that was saved is depicted by what was saved, if its triggers are
rebuilt as triggers that match (`Automaton.depicts_toRecord`). What one record depicts has the same
names in the same places (`AutomatonRecord.Depicts.alike`), and so what is saved and loaded has.
-/

namespace HookedAutomata

variable {κ : Type} [CustomTrigger κ]

/-! ## Entries that are merged -/

theorem exists_mem_of_forall₂_left {α β : Type} {R : α → β → Prop} {l : List α} {m : List β}
    (h : List.Forall₂ R l m) {a : α} (ha : a ∈ l) : ∃ b ∈ m, R a b := by
  induction h with
  | nil => exact absurd ha List.not_mem_nil
  | cons hab _ ih =>
    rcases List.mem_cons.1 ha with rfl | ha
    · exact ⟨_, List.mem_cons_self, hab⟩
    · obtain ⟨b, hb, hR⟩ := ih ha
      exact ⟨b, List.mem_cons_of_mem _ hb, hR⟩

theorem exists_mem_of_forall₂_right {α β : Type} {R : α → β → Prop} {l : List α} {m : List β}
    (h : List.Forall₂ R l m) {b : β} (hb : b ∈ m) : ∃ a ∈ l, R a b :=
  exists_mem_of_forall₂_left h.flip hb

namespace Transitions

theorem mem_states_foldl_merge {m : Transitions κ} {es : List (Entry κ)} {s : State}
    (h : s ∈ (es.foldl merge m).states) : s ∈ m.states ∨ ∃ e ∈ es, s ∈ e.states := by
  induction es generalizing m with
  | nil => exact .inl h
  | cons e es ih =>
    rcases ih h with h | ⟨e', he', hs⟩
    · rcases mem_states_merge h with h | h
      · exact .inl h
      · exact .inr ⟨e, List.mem_cons_self, h⟩
    · exact .inr ⟨e', List.mem_cons_of_mem e he', hs⟩

/-- Merging entries adds up the targets of those that have the key. -/
theorem has_targets_foldl_merge [EquivBEq κ] (m : Transitions κ) (es : List (Entry κ)) (n : String)
    (on : Trigger κ) (k : String) :
    ((es.foldl merge m).targets n on).has k = true ↔ (m.targets n on).has k = true ∨
      ∃ e ∈ es, e.isFor n on = true ∧ e.targets.has k = true := by
  induction es generalizing m with
  | nil => simp
  | cons e es ih =>
    have hmerge : ((m.merge e).targets n on).has k = true ↔ (m.targets n on).has k = true ∨
        (e.isFor n on = true ∧ e.targets.has k = true) := by
      have hfor : (n == e.source.name && on == e.trigger) = e.isFor n on := by
        rw [Entry.isFor, BEq.comm (a := n), BEq.comm (a := on)]
      rw [targets_merge, hfor]
      -- the merge adds to the key of the entry and leaves all others as they are
      cases e.isFor n on with
      | true => simp
      | false => simp
    rw [List.foldl_cons, ih, hmerge, or_assoc]
    simp

/-- A name is a target of a key exactly if the entry for the key has it. -/
theorem has_targets_iff [EquivBEq κ] {m : Transitions κ} {n : String} {on : Trigger κ}
    {k : String} : (m.targets n on).has k = true ↔
      ∃ e ∈ m.entries, e.isFor n on = true ∧ e.targets.has k = true := by
  unfold targets
  constructor
  · intro h
    cases hfind : m.find? n on with
    | none => simp [hfind] at h
    | some e =>
      rw [hfind] at h
      exact ⟨e, mem_of_find? hfind, isFor_of_find? hfind, h⟩
  · intro h
    obtain ⟨e, he, hfor, hk⟩ := h
    obtain ⟨hn, hon⟩ := Bool.and_eq_true_iff.1 hfor
    rw [← beq_iff_eq.1 hn, ← find?_congr m hon, find?_of_mem he]
    exact hk

end Transitions

theorem Table.has_direct_pin {t : Table κ} {s : State} {n : String} {on : Trigger κ} {k : String} :
    ((t.pin s).direct n on).has k = (t.direct n on).has k :=
  SortedSet.names_eq_iff.1 (names_direct_pin t s n on) k

/-- A name that a run can enter is that of a state. -/
theorem Automaton.has_states_of_canEnter {a : Automaton κ} {n : String} (h : a.CanEnter n) :
    a.states.has n = true := by
  rcases h with rfl | ⟨m, on, h⟩
  · exact has_states.2 (.inr (.inl rfl))
  · obtain ⟨x, hx, rfl⟩ := SortedSet.has_iff.1 h
    exact has_states.2 (.inl (Table.has_states_of_mem (Table.mem_states_of_mem_direct hx)))

/-- A state whose hooks are the registry's own gets them back from its record. -/
theorem State.hooks_toRecord {g : CallbackRegistry} {w : Wiring} {s : State}
    (h : ∀ slot c, w.hook s slot = some c →
      c.name ≠ noCallback ∧ g.callbacks.find? c.name = some c) :
    (s.toRecord w).hooks g = w.hooksOf s := by
  have hslot : ∀ slot, (w.hookName s slot).bind g.get? = w.hook s slot := by
    intro slot
    unfold Wiring.hookName
    cases hhook : w.hook s slot with
    | none => rfl
    | some c =>
      obtain ⟨hname, hfind⟩ := h slot c hhook
      show g.get? c.name = some c
      unfold CallbackRegistry.get?
      rw [if_neg hname, hfind]
  -- an entry slot without a callback is saved under the name that stands for none
  have hentry : g.get? ((w.hookName s .entry).getD noCallback) = w.hook s .entry := by
    rw [← hslot .entry]
    cases w.hookName s .entry with
    | none => exact if_pos rfl
    | some n => rfl
  show Hooks.mk _ _ _ = _
  rw [show g.get? (s.toRecord w).entry = _ from hentry,
    show (s.toRecord w).exit.bind g.get? = _ from hslot .exit,
    show (s.toRecord w).stay.bind g.get? = _ from hslot .stay]
  rfl

/-! ## Transitions for a step -/

/-- The transition is for the source and the trigger: the registry rebuilds its trigger as one that
matches. -/
def TransitionRecord.IsFor (t : TransitionRecord) (g : TriggerRegistry κ) (n : String)
    (on : Trigger κ) : Prop :=
  t.source = n ∧ ∃ on', g.resolve t.trigger = .ok on' ∧ (on' == on) = true

/-- A registry rebuilds a recorded trigger in one way only. -/
theorem TransitionRecord.isFor_of_resolve {t : TransitionRecord} {g : TriggerRegistry κ}
    {on' : Trigger κ} (h : g.resolve t.trigger = .ok on') {n : String} {on : Trigger κ} :
    t.IsFor g n on ↔ t.source = n ∧ (on' == on) = true := by
  unfold IsFor
  simp [h]

namespace TransitionRecord.Drawn

variable {t : TransitionRecord} {states : StateSet} {g : TriggerRegistry κ} {e : Entry κ}

/-- An entry that is drawn for a transition is for the same steps. -/
theorem isFor_iff (h : t.Drawn states g e) {n : String} {on : Trigger κ} :
    e.isFor n on = true ↔ t.IsFor g n on := by
  obtain ⟨on', haccept, hover⟩ := h
  rw [isFor_of_resolve (TriggerRegistry.resolve_of_accepts haccept), Entry.isFor, hover.source_name,
    hover.trigger, Bool.and_eq_true, beq_iff_eq]

omit [CustomTrigger κ] in
theorem has_targets (h : t.Drawn states g e) {k : String} :
    e.targets.has k = true ↔ k ∈ t.targets := by
  obtain ⟨on, -, hover⟩ := h
  exact hover.has_targets k

end TransitionRecord.Drawn

/-! ## The automaton of a record -/

namespace AutomatonRecord

variable {r : AutomatonRecord} {g : Registries κ} {v w : Wiring} {states : StateSet}
  {es : List (Entry κ)} {a : Automaton κ}

/-- The direct targets are all targets of transitions for the source and a matching trigger. -/
theorem Replayed.has_direct [EquivBEq κ] (h : r.Replayed g v w states es a) (n : String)
    (on : Trigger κ) (k : String) : (a.table.direct n on).has k = true ↔
      ∃ t ∈ r.transitions, t.IsFor g.triggers n on ∧ k ∈ t.targets := by
  rw [h.table, Table.has_direct_pin, Table.has_direct_pin]
  show ((es.foldl Transitions.merge ∅).targets n on).has k = true ↔ _
  rw [Transitions.has_targets_foldl_merge, Transitions.targets_empty, SortedSet.has_empty,
    or_iff_right (by decide)]
  constructor
  · intro hloaded
    obtain ⟨e, he, hfor, hk⟩ := hloaded
    obtain ⟨t, ht, hdrawn⟩ := exists_mem_of_forall₂_right h.entries he
    exact ⟨t, ht, hdrawn.isFor_iff.1 hfor, hdrawn.has_targets.1 hk⟩
  · intro hrecorded
    obtain ⟨t, ht, hfor, hk⟩ := hrecorded
    obtain ⟨e, he, hdrawn⟩ := exists_mem_of_forall₂_left h.entries ht
    exact ⟨e, he, hdrawn.isFor_iff.2 hfor, hdrawn.has_targets.2 hk⟩

theorem Replayed.has_endNames (h : r.Replayed g v w states es a) (n : String) :
    a.endNames.has n = true ↔ n ∈ r.ends := by
  rw [h.ends, SortedSet.has_ofList]
  simp

/-- The record says of the automaton what is so, in all places where a run looks. -/
structure Depicts (r : AutomatonRecord) (g : TriggerRegistry κ) (a : Automaton κ) : Prop where
  start : r.start = a.start.name
  error : r.error.name = a.error.name
  direct : ∀ n on k, (∃ t ∈ r.transitions, t.IsFor g n on ∧ k ∈ t.targets) ↔
    (a.table.direct n on).has k = true
  ends : ∀ n, a.CanEnter n → (n ∈ r.ends ↔ a.isEnd n = true)

theorem Replayed.depicts [EquivBEq κ] (h : r.Replayed g v w states es a) :
    r.Depicts g.triggers a where
  start := h.start_name.symm
  error := h.error_name.symm
  direct n on k := (h.has_direct n on k).symm
  ends n _ := (h.has_endNames n).symm

/-- What one record depicts has the same names in the same places. -/
theorem Depicts.alike {g : TriggerRegistry κ} {b : Automaton κ} (h : r.Depicts g a)
    (h' : r.Depicts g b) : a.Alike b := by
  have hstart : a.start.name = b.start.name := h.start.symm.trans h'.start
  have hdirect : ∀ m on n, (a.table.direct m on).has n = (b.table.direct m on).has n :=
    fun m on n => Bool.eq_iff_iff.2 ((h.direct m on n).symm.trans (h'.direct m on n))
  refine ⟨hstart, h.error.symm.trans h'.error, hdirect, fun n hn => ?_⟩
  have hn' : a.CanEnter n := by
    unfold Automaton.CanEnter at hn ⊢
    rw [hstart]
    simpa only [hdirect] using hn
  exact Bool.eq_iff_iff.2 ((h.ends n hn').symm.trans (h'.ends n hn))

/-- What is loaded is an automaton over the fresh instances. -/
theorem Replayed.shared (h : r.Replayed g v w states es a) :
    a.Shared ∧ ∀ x ∈ a.table.instances, x ∈ states := by
  refine Automaton.shared_of_subset h.table h.start_mem h.error_mem fun x hx => ?_
  rcases Transitions.mem_states_foldl_merge hx with hx | ⟨e, he, hx⟩
  · exact absurd hx List.not_mem_nil
  · obtain ⟨t, -, on, -, hover⟩ := exists_mem_of_forall₂_right h.entries he
    rcases Transitions.mem_entry_states.1 hx with rfl | hx
    · exact hover.source_mem
    · exact hover.targets_mem x hx

theorem Replayed.mem_states (h : r.Replayed g v w states es a) {x : State} (hx : x ∈ a.states) :
    x ∈ states :=
  h.shared.2 x (h.shared.1.mem_instances (Automaton.mem_states hx))

/-- A state that is loaded was recorded under its name. -/
theorem Replayed.exists_mem_allStates (h : r.Replayed g v w states es a) {x : State}
    (hx : x ∈ a.states) : ∃ q ∈ r.allStates, q.name = x.name :=
  List.mem_map.1 (mem_knownNames.1 ((h.names _).1 (SortedSet.has_of_mem (h.mem_states hx))))

/-- A state that is loaded has the hooks that the registry finds for its record. -/
theorem Replayed.hooksOf_eq_hooks (h : r.Replayed g v w states es a) {x : State}
    (hx : x ∈ a.states) {q : StateRecord} (hq : q ∈ r.allStates) (hname : q.name = x.name) :
    w.hooksOf x = q.hooks g.callbacks := by
  obtain ⟨s, hs, hsname, hhooks⟩ := h.hooks q hq
  -- the instance made for that record is the only one of its name
  have hsame : x = s :=
    SortedSet.eq_of_mem_of_name_eq (h.mem_states hx) hs (hname.symm.trans hsname.symm)
  rw [hsame, hhooks]

end AutomatonRecord

/-! ## The automaton of a record that was saved -/

/-- A recorded entry is for the same steps, if its trigger is rebuilt as one that matches. -/
theorem Entry.isFor_toRecord [EquivBEq κ] {e : Entry κ} {g : TriggerRegistry κ}
    (h : ∃ on, g.resolve e.trigger.toRecord = .ok on ∧ (on == e.trigger) = true) {n : String}
    {on : Trigger κ} : e.toRecord.IsFor g n on ↔ e.isFor n on = true := by
  obtain ⟨on', hresolve, hmatch⟩ := h
  rw [TransitionRecord.isFor_of_resolve (show g.resolve e.toRecord.trigger = .ok on' from hresolve),
    BEq.congr_left hmatch, isFor, Bool.and_eq_true, beq_iff_eq (a := e.source.name)]
  rfl

/-- The end names that are saved are those of which the automaton has a state. -/
theorem Automaton.mem_ends_toRecord {a : Automaton κ} {w : Wiring} {n : String} :
    n ∈ (a.toRecord w).ends ↔ a.isEnd n = true ∧ a.states.has n = true := by
  show n ∈ a.endNames.toList.filter a.states.has ↔ a.endNames.has n = true ∧ _
  rw [List.mem_filter, SortedSet.has_iff (s := a.endNames)]
  simp only [Named.name_string, exists_eq_right]
  rfl

/-- What is saved depicts the automaton, if each trigger is rebuilt as one that matches. -/
theorem Automaton.depicts_toRecord [EquivBEq κ] {a : Automaton κ} {g : TriggerRegistry κ}
    (htriggers : ∀ e ∈ a.table.transitions.entries,
      ∃ on, g.resolve e.trigger.toRecord = .ok on ∧ (on == e.trigger) = true) (w : Wiring) :
    (a.toRecord w).Depicts g a where
  start := rfl
  error := rfl
  direct n on k := by
    show _ ↔ (a.table.transitions.targets n on).has k = true
    rw [Transitions.has_targets_iff]
    constructor
    · intro hrecorded
      obtain ⟨t, ht, hfor, hk⟩ := hrecorded
      obtain ⟨e, he, rfl⟩ := mem_transitions_toRecord.1 ht
      exact ⟨e, he, (Entry.isFor_toRecord (htriggers e he)).1 hfor, SortedSet.mem_names.1 hk⟩
    · intro hentry
      obtain ⟨e, he, hfor, hk⟩ := hentry
      exact ⟨e.toRecord, mem_transitions_toRecord.2 ⟨e, he, rfl⟩,
        (Entry.isFor_toRecord (htriggers e he)).2 hfor, SortedSet.mem_names.2 hk⟩
  ends n hn := by
    rw [mem_ends_toRecord]
    exact and_iff_left (has_states_of_canEnter hn)

namespace AutomatonRecord

variable {r : AutomatonRecord} {g : Registries κ} {v w : Wiring} {states : StateSet}
  {es : List (Entry κ)} {a : Automaton κ}

theorem mem_allStates_of_mem_states {r : AutomatonRecord} {s : StateRecord} (h : s ∈ r.states) :
    s ∈ r.allStates := by
  unfold allStates
  split
  · exact h
  · exact List.mem_append_left _ h

variable {b : Automaton κ} {u : Wiring}

/-- What is loaded from a record that was saved has the same names in the same places, if each
trigger is rebuilt as one that matches. -/
theorem Replayed.alike [EquivBEq κ] (h : (b.toRecord u).Replayed g v w states es a)
    (htriggers : ∀ e ∈ b.table.transitions.entries,
      ∃ on, g.triggers.resolve e.trigger.toRecord = .ok on ∧ (on == e.trigger) = true) :
    a.Alike b :=
  h.depicts.alike (Automaton.depicts_toRecord htriggers u)

/-- A state that is loaded has the hooks that the registry finds for the state saved under its
name. -/
theorem Replayed.hooksOf_eq (h : (b.toRecord u).Replayed g v w states es a) {x y : State}
    (hx : x ∈ b.states) (hy : y ∈ a.states) (hname : y.name = x.name) :
    w.hooksOf y = (x.toRecord u).hooks g.callbacks := by
  have hlisted : x.toRecord u ∈ (b.toRecord u).allStates :=
    mem_allStates_of_mem_states (List.mem_map.2 ⟨x, hx, rfl⟩)
  exact h.hooksOf_eq_hooks hy hlisted hname.symm

/-- A state that is loaded has the hooks that the state saved under its name had, if these are the
registry's own. -/
theorem Replayed.hooksOf (h : (b.toRecord u).Replayed g v w states es a)
    (hown : ∀ s ∈ b.states, ∀ slot c, u.hook s slot = some c →
      c.name ≠ noCallback ∧ g.callbacks.callbacks.find? c.name = some c)
    {x y : State} (hx : x ∈ b.states) (hy : y ∈ a.states) (hname : y.name = x.name) :
    w.hooksOf y = u.hooksOf x := by
  rw [h.hooksOf_eq hx hy hname]
  exact State.hooks_toRecord (hown x hx)

/-- Each state that is loaded was saved under its name. -/
theorem Replayed.has_states (h : (b.toRecord u).Replayed g v w states es a) {y : State}
    (hy : y ∈ a.states) : b.states.has y.name = true := by
  rw [← Automaton.mem_knownNames_toRecord (w := u), ← h.names]
  exact SortedSet.has_of_mem (h.mem_states hy)

end AutomatonRecord

end HookedAutomata
