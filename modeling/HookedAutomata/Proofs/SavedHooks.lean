import HookedAutomata.Proofs.Restoring

/-!
# Which hooks come back from a record

Whatever automaton is saved, if its record is loaded at all then the states that come back are those
that were saved, name by name (`Replayed.has_states_eq`): a state is kept by the transitions that
it occurs in, or as the start or the error state (`Replayed.has_states_iff`).

Each slot comes back with a callback of the name that was in it, the registry's own
(`State.hookNames_toRecord`). There is one name that a record cannot hold, `noCallback`: it stands
for no callback wherever it is read. A registry takes a callback of that name all the same, and a
hook of that name is saved, passes the checks and is lost
(`Automaton.not_forall_hookName_load_toRecord`).

The main statement is `Automaton.hookName_load_toRecord`, which says what is in every slot.
-/

namespace HookedAutomata

variable {κ : Type} [CustomTrigger κ]

/-! ## Names in transitions -/

/-- The source or a target of the entry has the name. -/
def Entry.Names (e : Entry κ) (n : String) : Prop := e.source.name = n ∨ e.targets.has n = true

namespace Transitions

/-- The name occurs in some entry. -/
def Names (m : Transitions κ) (n : String) : Prop := ∃ e ∈ m.entries, e.Names n

theorem names_relabel {m : Transitions κ} {f : State → State} {h : ∀ s, (f s).name = s.name}
    {n : String} : (m.relabel f h).Names n ↔ m.Names n := by
  have hentry : ∀ e : Entry κ, (e.relabel f h).Names n ↔ e.Names n := by
    intro e
    simp only [Entry.Names, Entry.relabel, h, SortedSet.has_relabel]
  show (∃ e ∈ m.entries.map (Entry.relabel f h), e.Names n) ↔ _
  simp only [List.mem_map, exists_exists_and_eq_and, hentry]
  rfl

/-- More targets for a key add their names where the key has an entry. -/
theorem names_modify {m : Transitions κ} {n : String} {on : Trigger κ} {ts : StateSet}
    {k : String} : (m.modify n on (· ∪ ts)).Names k ↔
      m.Names k ∨ ∃ e ∈ m.entries, e.isFor n on = true ∧ ts.has k = true := by
  have hentry : ∀ e : Entry κ, (if e.isFor n on then e.withTargets (· ∪ ts) else e).Names k ↔
      e.Names k ∨ (e.isFor n on = true ∧ ts.has k = true) := by
    intro e
    cases hfor : e.isFor n on with
    | true =>
      show e.source.name = k ∨ (e.targets ∪ ts).has k = true ↔ _
      rw [SortedSet.has_union, Bool.or_eq_true, ← or_assoc]
      simp [Entry.Names]
    | false => simp
  show (∃ x ∈ m.entries.map _, Entry.Names x k) ↔ _
  simp only [List.mem_map, exists_exists_and_eq_and, hentry, and_or_left, exists_or]
  rfl

/-- A merged entry adds its names, whether or not its key is new. -/
theorem names_merge {m : Transitions κ} {e : Entry κ} {n : String} :
    (m.merge e).Names n ↔ m.Names n ∨ e.Names n := by
  unfold merge
  cases hinsert : m.insert? e with
  | some m' =>
    unfold Names
    rw [Option.getD_some, entries_insert? hinsert]
    simp only [List.mem_append, List.mem_singleton, or_and_right, exists_or, exists_eq_left]
  | none =>
    -- the key has an entry already: its source has the same name, and it gets the targets
    have htaken : m.find? e.source.name e.trigger ≠ none := insert?_eq_none_iff.1 hinsert
    obtain ⟨old, hfind⟩ := Option.ne_none_iff_exists'.1 htaken
    have hmem : old ∈ m.entries := mem_of_find? hfind
    have hfor : old.isFor e.source.name e.trigger = true := isFor_of_find? hfind
    have hsource : old.source.name = e.source.name :=
      beq_iff_eq.1 (Bool.and_eq_true_iff.1 hfor).1
    rw [Option.getD_none, names_modify]
    constructor
    · intro h
      rcases h with h | ⟨x, -, -, htarget⟩
      · exact .inl h
      · exact .inr (.inr htarget)
    · intro h
      rcases h with h | h | htarget
      · exact .inl h
      · exact .inl ⟨old, hmem, .inl (hsource.trans h)⟩
      · exact .inr ⟨old, hmem, hfor, htarget⟩

theorem names_foldl_merge {m : Transitions κ} {es : List (Entry κ)} {n : String} :
    (es.foldl merge m).Names n ↔ m.Names n ∨ ∃ e ∈ es, e.Names n := by
  induction es generalizing m with
  | nil => simp
  | cons e es ih =>
    rw [List.foldl_cons, ih, names_merge, or_assoc]
    simp

end Transitions

/-- The states of a table are those of its entries, by name. -/
theorem Table.has_states_iff {t : Table κ} {n : String} :
    t.states.has n = true ↔ t.transitions.Names n := by
  constructor
  · intro h
    obtain ⟨s, hs, rfl⟩ := SortedSet.has_iff.1 h
    obtain ⟨e, he, hse⟩ := Transitions.mem_states.1 (mem_states hs)
    refine ⟨e, he, ?_⟩
    rcases Transitions.mem_entry_states.1 hse with hsource | htarget
    · exact .inl (congrArg State.name hsource).symm
    · exact .inr (SortedSet.has_of_mem htarget)
  · intro h
    obtain ⟨e, he, hn⟩ := h
    have hstate : ∀ s ∈ e.states, t.states.has s.name = true :=
      fun s hs => has_states_of_mem (Transitions.mem_states.2 ⟨e, he, hs⟩)
    rcases hn with rfl | hn
    · exact hstate e.source List.mem_cons_self
    · obtain ⟨s, hs, rfl⟩ := SortedSet.has_iff.1 hn
      exact hstate s (List.mem_cons_of_mem _ hs)

/-- The names of the transitions that are saved are those that occur in the table. -/
theorem Automaton.names_transitions_toRecord {a : Automaton κ} {w : Wiring} {n : String} :
    (∃ t ∈ (a.toRecord w).transitions, t.source = n ∨ n ∈ t.targets) ↔
      a.table.transitions.Names n := by
  constructor
  · intro hrecorded
    obtain ⟨t, ht, hn⟩ := hrecorded
    obtain ⟨e, he, rfl⟩ := mem_transitions_toRecord.1 ht
    exact ⟨e, he, hn.imp_right SortedSet.mem_names.1⟩
  · intro hnames
    obtain ⟨e, he, hn⟩ := hnames
    exact ⟨e.toRecord, mem_transitions_toRecord.2 ⟨e, he, rfl⟩, hn.imp_right SortedSet.mem_names.2⟩

namespace AutomatonRecord

variable {r : AutomatonRecord} {g : Registries κ} {v w : Wiring} {states : StateSet}
  {es : List (Entry κ)} {a : Automaton κ}

/-- What is loaded has a state of each name that a transition of the record refers to, and of the
names of its start and its error state, and no other states. A state that is merely listed is
dropped. -/
theorem Replayed.has_states_iff (h : r.Replayed g v w states es a) {n : String} :
    a.states.has n = true ↔
      (∃ t ∈ r.transitions, t.source = n ∨ n ∈ t.targets) ∨ r.start = n ∨ r.error.name = n := by
  have hentries : (∃ e ∈ es, e.Names n) ↔
      ∃ t ∈ r.transitions, t.source = n ∨ n ∈ t.targets := by
    constructor
    · intro hloaded
      obtain ⟨e, he, hn⟩ := hloaded
      obtain ⟨t, ht, on, -, hover⟩ := exists_mem_of_forall₂_right h.entries he
      unfold Entry.Names at hn
      rw [hover.source_name, hover.has_targets] at hn
      exact ⟨t, ht, hn⟩
    · intro hrecorded
      obtain ⟨t, ht, hn⟩ := hrecorded
      obtain ⟨e, he, on, -, hover⟩ := exists_mem_of_forall₂_left h.entries ht
      refine ⟨e, he, ?_⟩
      unfold Entry.Names
      rw [hover.source_name, hover.has_targets]
      exact hn
  have hnone : ¬ (∅ : Transitions κ).Names n := fun ⟨e, he, _⟩ => absurd he List.not_mem_nil
  -- pinning replaces instances and keeps their names
  have htable : a.table.transitions.Names n ↔ (es.foldl Transitions.merge ∅).Names n := by
    rw [h.table]
    exact Transitions.names_relabel.trans Transitions.names_relabel
  rw [Automaton.has_states, Table.has_states_iff, htable, Transitions.names_foldl_merge,
    or_iff_right hnone, hentries, h.start_name, h.error_name]

variable {b : Automaton κ} {u : Wiring}

/-- What is loaded from a record that was saved has states of the same names. -/
theorem Replayed.has_states_eq (h : (b.toRecord u).Replayed g v w states es a) (n : String) :
    a.states.has n = b.states.has n := by
  rw [Bool.eq_iff_iff, h.has_states_iff, Automaton.has_states, Table.has_states_iff,
    Automaton.names_transitions_toRecord]
  rfl

end AutomatonRecord

/-! ## The callbacks of one state -/

/-- What a registry finds for a name that it contains has that name, or is nothing for the name that
stands for no callback. -/
theorem CallbackRegistry.map_name_get? {g : CallbackRegistry} {n : String}
    (h : g.contains n = true) : (g.get? n).map (·.name) = (some n).filter (· != noCallback) := by
  unfold get?
  by_cases hn : n = noCallback
  · simp [hn, Option.filter_some]
  · have hhas : g.callbacks.has n = true := by simpa [contains, hn] using h
    obtain ⟨c, hc⟩ := Option.isSome_iff_exists.1 hhas
    have hname : c.name = n := (SortedSet.find?_eq_some_iff.1 hc).2
    simp [hn, hc, hname, Option.filter_some]

/-- A recorded state gets back, in each slot, the callback of the name that was saved, if the
registry contains the names. -/
theorem State.hookNames_toRecord {g : CallbackRegistry} {w : Wiring} {s : State}
    (h : ∀ n ∈ (s.toRecord w).callbackNames, g.contains n = true) (slot : Slot) :
    (((s.toRecord w).hooks g).get slot).map (·.name) =
      (w.hookName s slot).filter (· != noCallback) := by
  have hfound : ∀ n? : Option String, (∀ n ∈ n?, g.contains n = true) →
      (n?.bind g.get?).map (·.name) = n?.filter (· != noCallback) := by
    intro n? hcontains
    cases n? with
    | none => rfl
    | some n => exact CallbackRegistry.map_name_get? (hcontains n rfl)
  cases slot with
  | exit =>
    exact hfound _ fun n hn => h n (StateRecord.mem_callbackNames.2 (.inr (.inl hn)))
  | stay =>
    exact hfound _ fun n hn => h n (StateRecord.mem_callbackNames.2 (.inr (.inr hn)))
  | entry =>
    -- this slot is saved as a name even where it is empty
    show (g.get? ((w.hookName s .entry).getD noCallback)).map (·.name) = _
    cases hentry : w.hookName s .entry with
    | none => rfl
    | some n =>
      refine CallbackRegistry.map_name_get? ?_
      by_cases hn : n = noCallback
      · simp [CallbackRegistry.contains, hn]
      · have hsaved : (s.toRecord w).entry = n := by
          show (w.hookName s .entry).getD noCallback = n
          rw [hentry]
          rfl
        refine h n (StateRecord.mem_callbackNames.2 (.inl ⟨?_, hsaved.symm⟩))
        rwa [hsaved]

/-! ## The callbacks of all states -/

namespace Automaton

/-- A state of a saved automaton comes back under its name, with the callbacks that the registry
finds for it. -/
theorem hooks_load_toRecord {a b : Automaton κ} {g : Registries κ} {w v v' : Wiring}
    (hload : (a.toRecord w).load g v = .ok (b, v')) {s : State} (hs : s ∈ a.states) :
    (∀ n ∈ (s.toRecord w).callbackNames, g.callbacks.contains n = true) ∧
      ∃ y, b.state? s.name = some y ∧ v'.hooksOf y = (s.toRecord w).hooks g.callbacks := by
  obtain ⟨hvalid, states, es, hreplayed⟩ := AutomatonRecord.replayed_of_load hload
  have hlisted : s.toRecord w ∈ (a.toRecord w).states := List.mem_map.2 ⟨s, hs, rfl⟩
  have hhas : b.states.has s.name = true := by
    rw [hreplayed.has_states_eq]
    exact SortedSet.has_of_mem hs
  obtain ⟨y, hy⟩ := Option.isSome_iff_exists.1 hhas
  obtain ⟨hmem, hname⟩ := SortedSet.find?_eq_some_iff.1 hy
  exact ⟨hvalid.callback _ (List.mem_append_left _ hlisted), y, hy,
    hreplayed.hooksOf_eq hs hmem hname⟩

/-- **Saving and loading keeps every hook but those named as no callback.** Whatever automaton is
saved, and whatever registries load its record: if an automaton is loaded, it has a state for each
state that was saved, under its name, and each of its slots holds a callback of the name that the
slot held when it was saved. A slot is empty exactly where it was empty before or held a callback
whose name stands for none. -/
theorem hookName_load_toRecord {a b : Automaton κ} {g : Registries κ} {w v v' : Wiring}
    (hload : (a.toRecord w).load g v = .ok (b, v')) {s : State} (hs : s ∈ a.states) :
    ∃ y, b.state? s.name = some y ∧
      ∀ slot, v'.hookName y slot = (w.hookName s slot).filter (· != noCallback) := by
  obtain ⟨hcontains, y, hy, hhooks⟩ := hooks_load_toRecord hload hs
  refine ⟨y, hy, fun slot => ?_⟩
  have hslot : v'.hookName y slot = ((v'.hooksOf y).get slot).map (·.name) := rfl
  rw [hslot, hhooks]
  exact State.hookNames_toRecord hcontains slot

end Automaton

/-! ## A callback that is lost -/

/-- A callback under the name that stands for no callback. -/
def Callback.unnamed : Callback := ⟨noCallback, [.emit noCallback]⟩

/-- The registry takes it like any other. -/
def Registries.unnamed : Registries Symbol := ⟨.initial, ⟨.singleton .unnamed⟩⟩

example : CallbackRegistry.empty.register .unnamed = .ok Registries.unnamed.callbacks := rfl

/-- The first instance that was made runs it when it is left. -/
def Wiring.unnamed : Wiring := { created := 2, hooks := [(0, { exit := some .unnamed })] }

theorem Wiring.eq_unnamed_of_hook {s : State} {slot : Slot} {c : Callback}
    (h : unnamed.hook s slot = some c) : c = .unnamed := by
  have hget := get_of_hook rfl h
  cases slot with
  | entry => cases hget
  | exit => exact (Option.some.inj hget).symm
  | stay => cases hget

namespace Automaton

/-- A start and an error state without transitions, as they are drafted. -/
def idle : Automaton Symbol := .assemble ⟨"idle", 0⟩ ⟨"error", 1⟩ ∅ (.ofTransitions ∅)

theorem drafted_idle : idle.Drafted :=
  ⟨[.addState ⟨"idle", 0⟩, .addState ⟨"error", 1⟩, .setStart "idle", .setError "error"], rfl⟩

theorem exists_load_idle :
    ∃ b v', (idle.toRecord .unnamed).load Registries.unnamed .unnamed = .ok (b, v') := by
  have hcallbacks : ∀ s ∈ idle.states, ∀ slot n, Wiring.unnamed.hookName s slot = some n →
      Registries.unnamed.callbacks.contains n = true := by
    intro s _ slot n hn
    obtain ⟨c, hc, rfl⟩ := Option.map_eq_some_iff.1 hn
    rw [Wiring.eq_unnamed_of_hook hc]
    rfl
  have htriggers : ∀ e ∈ idle.table.transitions.entries,
      ∃ on, Registries.unnamed.triggers.resolve e.trigger.toRecord = .ok on :=
    fun e he => absurd he List.not_mem_nil
  obtain ⟨b, v', -, -, hload, -⟩ :=
    drafted_idle.shared.load_toRecord hcallbacks htriggers Wiring.unnamed
  exact ⟨b, v', hload⟩

theorem hookName_load_toRecord_idle :
    ∃ (b : Automaton Symbol) (v' : Wiring) (y : State),
      (idle.toRecord .unnamed).load Registries.unnamed .unnamed = .ok (b, v') ∧
      idle.start ∈ idle.states ∧ b.state? "idle" = some y ∧
      ∀ slot, v'.hookName y slot =
        (Wiring.unnamed.hookName idle.start slot).filter (· != noCallback) := by
  obtain ⟨b, v', hload⟩ := exists_load_idle
  have hstart : idle.start ∈ idle.states := drafted_idle.shared.mem_states (.inr (.inl rfl))
  obtain ⟨y, hy, hslots⟩ := hookName_load_toRecord hload hstart
  exact ⟨b, v', y, hload, hstart, hy, hslots⟩

/-- An automaton all of whose hooks are registered need not get them back: a callback that was
registered under the name that stands for none is saved and is not loaded. -/
theorem not_forall_hookName_load_toRecord :
    ¬ ∀ (a b : Automaton Symbol) (g : Registries Symbol) (w v v' : Wiring), a.Drafted →
      (∀ s ∈ a.states, ∀ slot c, w.hook s slot = some c →
        g.callbacks.callbacks.has c.name = true) →
      (a.toRecord w).load g v = .ok (b, v') →
      ∀ s ∈ a.states, ∃ y, b.state? s.name = some y ∧
        ∀ slot, v'.hookName y slot = w.hookName s slot := by
  intro hkeeps
  obtain ⟨b, v', hload⟩ := exists_load_idle
  have hstart : idle.start ∈ idle.states := drafted_idle.shared.mem_states (.inr (.inl rfl))
  have hregistered : ∀ s ∈ idle.states, ∀ slot c, Wiring.unnamed.hook s slot = some c →
      Registries.unnamed.callbacks.callbacks.has c.name = true := by
    intro s _ slot c hc
    rw [Wiring.eq_unnamed_of_hook hc]
    rfl
  obtain ⟨y, hy, hkept⟩ :=
    hkeeps idle b .unnamed .unnamed .unnamed v' drafted_idle hregistered hload idle.start hstart
  -- the state that comes back has the hooks of its record, where the exit hook is lost
  obtain ⟨-, z, hz, hhooks⟩ := hooks_load_toRecord hload hstart
  obtain rfl : y = z := Option.some.inj (hy.symm.trans hz)
  have hlost : v'.hookName y .exit = none := by
    show ((v'.hooksOf y).get .exit).map (·.name) = none
    rw [hhooks]
    rfl
  have hsaved : Wiring.unnamed.hookName idle.start .exit = some noCallback := rfl
  rw [hkept .exit, hsaved] at hlost
  cases hlost

end Automaton

end HookedAutomata
