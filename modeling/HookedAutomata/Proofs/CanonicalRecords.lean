import HookedAutomata.Proofs.RecordOrder
import HookedAutomata.Proofs.SavedHooks

/-!
# Saving makes records canonical

A record may list a transition twice, spell one trigger in several ways, list states that nothing
refers to and names in any order. Loading merges and drops, and saving puts in order. What comes out
is canonical (`AutomatonRecord.Canonical`), and loading and saving it once more changes nothing.

That takes registries that give back what was saved (`TriggerRegistry.Restores`): a trigger that was
rebuilt is saved under a spelling that is rebuilt as a matching trigger with the same spelling.

The main statement is `AutomatonRecord.canonical_of_load`.
-/

namespace HookedAutomata

variable {κ : Type} [CustomTrigger κ]

/-! ## Lists that are related one by one -/

section Lists

variable {α β γ : Type}

/-- What holds between any two values of a list holds between the values related to them. -/
theorem pairwise_of_forall₂ {R : α → β → Prop} {S : α → α → Prop} {T : β → β → Prop} {l : List α}
    {m : List β} (h : List.Forall₂ R l m) (hl : l.Pairwise S)
    (hST : ∀ a b c d, R a c → R b d → S a b → T c d) : m.Pairwise T := by
  induction h with
  | nil => exact .nil
  | cons hac hrest ih =>
    obtain ⟨hfirst, hl⟩ := List.pairwise_cons.1 hl
    refine List.pairwise_cons.2 ⟨fun d hd => ?_, ih hl⟩
    obtain ⟨b, hb, hbd⟩ := exists_mem_of_forall₂_right hrest hd
    exact hST _ b _ d hac hbd (hfirst b hb)

/-- Lists of the same names are mapped alike by functions that agree where the names do. -/
theorem map_eq_of_names_eq [Named α] [Named β] {f : α → γ} {g : β → γ} {l : List α} {m : List β}
    (h : l.map Named.name = m.map Named.name)
    (hfg : ∀ a ∈ l, ∀ b ∈ m, Named.name a = Named.name b → f a = g b) : l.map f = m.map g := by
  induction l generalizing m with
  | nil =>
    rw [List.map_eq_nil_iff.1 h.symm]
    rfl
  | cons a l ih =>
    cases m with
    | nil => cases h
    | cons b m =>
      obtain ⟨hname, hrest⟩ := List.cons.inj h
      have hfirst : f a = g b := hfg a List.mem_cons_self b List.mem_cons_self hname
      rw [List.map_cons, List.map_cons, hfirst, ih hrest fun c hc d hd =>
        hfg c (List.mem_cons_of_mem a hc) d (List.mem_cons_of_mem b hd)]

end Lists

/-- A set of names that were listed in order has them in that order. -/
theorem SortedSet.toList_ofList {l : List String} (h : l.Pairwise (· < ·)) :
    (ofList l : NameSet).toList = l := by
  refine eq_of_pairwise_of_mem_iff (ofList l).sorted h fun n => ⟨mem_ofList, fun hn => ?_⟩
  have hhas : (ofList l).has n = true := by
    rw [has_ofList]
    exact List.any_eq_true.2 ⟨n, hn, by simp⟩
  obtain ⟨m, hm, rfl⟩ := has_iff.1 hhas
  exact hm

/-! ## Entries that are merged -/

namespace Transitions

theorem trigger_mem_modify {m : Transitions κ} {n : String} {on : Trigger κ}
    {f : StateSet → StateSet} {e : Entry κ} (h : e ∈ (m.modify n on f).entries) :
    ∃ x ∈ m.entries, x.trigger = e.trigger := by
  obtain ⟨x, hx, rfl⟩ := List.mem_map.1 h
  refine ⟨x, hx, ?_⟩
  split <;> rfl

/-- Merging keeps the spelling of the trigger that came first. -/
theorem trigger_mem_foldl_merge {m : Transitions κ} {es : List (Entry κ)} {e : Entry κ}
    (h : e ∈ (es.foldl merge m).entries) :
    (∃ x ∈ m.entries, x.trigger = e.trigger) ∨ ∃ x ∈ es, x.trigger = e.trigger := by
  induction es generalizing m with
  | nil => exact .inl ⟨e, h, rfl⟩
  | cons e' es ih =>
    rcases ih h with ⟨x, hx, hon⟩ | ⟨x, hx, hon⟩
    · unfold merge at hx
      cases hinsert : m.insert? e' with
      | some m' =>
        rw [hinsert, Option.getD_some, entries_insert? hinsert] at hx
        rcases List.mem_append.1 hx with hx | hx
        · exact .inl ⟨x, hx, hon⟩
        · rw [List.mem_singleton.1 hx] at hon
          exact .inr ⟨e', List.mem_cons_self, hon⟩
      | none =>
        rw [hinsert, Option.getD_none] at hx
        obtain ⟨y, hy, hyon⟩ := trigger_mem_modify hx
        exact .inl ⟨y, hy, hyon.trans hon⟩
    · exact .inr ⟨x, List.mem_cons_of_mem e' hx, hon⟩

/-- Entries of different keys are merged by putting them one after another. -/
theorem entries_foldl_merge {m : Transitions κ} {es : List (Entry κ)}
    (h : (m.entries ++ es).Pairwise fun a b => a.isFor b.source.name b.trigger = false) :
    (es.foldl merge m).entries = m.entries ++ es := by
  induction es generalizing m with
  | nil => exact (List.append_nil _).symm
  | cons e es ih =>
    have hfree : m.find? e.source.name e.trigger = none := by
      refine List.find?_eq_none.2 fun x hx => ?_
      have happart := (List.pairwise_append.1 h).2.2 x hx e List.mem_cons_self
      simpa using happart
    have hmerge : (m.merge e).entries = m.entries ++ [e] := by
      unfold merge insert?
      rw [dif_pos hfree]
      rfl
    have hrest := ih (m := m.merge e) (by rwa [hmerge, ← List.append_cons])
    rw [List.foldl_cons, hrest, hmerge, ← List.append_cons]

end Transitions

/-! ## What registries give back -/

/-- The trigger is rebuilt from its record as one that matches and has the same record. -/
def Trigger.Kept (g : TriggerRegistry κ) (on : Trigger κ) : Prop :=
  ∃ on', g.resolve on.toRecord = .ok on' ∧ (on' == on) = true ∧ on'.toRecord = on.toRecord

/-- Every trigger that the registry rebuilds, from whatever record, is kept. -/
def TriggerRegistry.Restores (g : TriggerRegistry κ) : Prop :=
  ∀ r on, g.resolve r = .ok on → on.Kept g

/-- Triggers that are kept match if they have the same record. -/
theorem Trigger.Kept.beq [EquivBEq κ] {g : TriggerRegistry κ} {on off : Trigger κ}
    (hon : on.Kept g) (hoff : off.Kept g) (h : on.toRecord = off.toRecord) :
    (on == off) = true := by
  obtain ⟨on', hresolve, hmatch, -⟩ := hon
  obtain ⟨off', hresolve', hmatch', -⟩ := hoff
  rw [h, hresolve'] at hresolve
  obtain rfl := Except.ok.inj hresolve
  exact BEq.trans (BEq.symm hmatch) hmatch'

/-- The callback is the one that the registry gives under its name. -/
def CallbackRegistry.Owns (g : CallbackRegistry) (c : Callback) : Prop :=
  c.name ≠ noCallback ∧ g.callbacks.find? c.name = some c

theorem CallbackRegistry.owns_of_get? {g : CallbackRegistry} {n : String} {c : Callback}
    (h : g.get? n = some c) : g.Owns c := by
  unfold get? at h
  split at h
  · cases h
  · rename_i hn
    have hname : c.name = n := (SortedSet.find?_eq_some_iff.1 h).2
    unfold Owns
    rw [hname]
    exact ⟨hn, h⟩

theorem CallbackRegistry.Owns.contains {g : CallbackRegistry} {c : Callback} (h : g.Owns c) :
    g.contains c.name = true := by
  unfold CallbackRegistry.contains SortedSet.has
  rw [h.2]
  simp

/-- The hooks that a recorded state is given are the registry's own. -/
theorem StateRecord.owns_hooks {r : StateRecord} {g : CallbackRegistry} {slot : Slot} {c : Callback}
    (h : (r.hooks g).get slot = some c) : g.Owns c := by
  cases slot with
  | entry => exact CallbackRegistry.owns_of_get? h
  | exit =>
    obtain ⟨n, -, hn⟩ := Option.bind_eq_some_iff.1 h
    exact CallbackRegistry.owns_of_get? hn
  | stay =>
    obtain ⟨n, -, hn⟩ := Option.bind_eq_some_iff.1 h
    exact CallbackRegistry.owns_of_get? hn

/-! ## What is loaded -/

namespace AutomatonRecord

variable {r : AutomatonRecord} {g : Registries κ} {v w : Wiring} {states : StateSet}
  {es : List (Entry κ)} {a : Automaton κ}

/-- The hooks of a loaded state are the registry's own. -/
theorem Replayed.owns_hook (h : r.Replayed g v w states es a) {s : State} (hs : s ∈ a.states)
    {slot : Slot} {c : Callback} (hc : w.hook s slot = some c) : g.callbacks.Owns c := by
  obtain ⟨q, hq, hname⟩ := h.exists_mem_allStates hs
  unfold Wiring.hook at hc
  rw [h.hooksOf_eq_hooks hs hq hname] at hc
  exact StateRecord.owns_hooks hc

/-- The triggers of a loaded automaton are triggers that the registry has rebuilt. -/
theorem Replayed.kept_trigger (h : r.Replayed g v w states es a) (hg : g.triggers.Restores)
    {e : Entry κ} (he : e ∈ a.table.transitions.entries) : e.trigger.Kept g.triggers := by
  rw [h.table] at he
  -- pins replace instances and leave triggers alone
  obtain ⟨e', he', rfl⟩ := List.mem_map.1 he
  obtain ⟨x, hx, rfl⟩ := List.mem_map.1 he'
  rcases Transitions.trigger_mem_foldl_merge hx with ⟨y, hy, -⟩ | ⟨y, hy, hyx⟩
  · exact absurd hy List.not_mem_nil
  · obtain ⟨t, -, on, haccept, hover⟩ := exists_mem_of_forall₂_right h.entries hy
    have hkept := hg _ _ (TriggerRegistry.resolve_of_accepts haccept)
    rw [← hover.trigger, hyx] at hkept
    exact hkept

end AutomatonRecord

/-! ## What is saved -/

/-- The record is in order and lists what occurs in it, no more and no less. -/
structure AutomatonRecord.Canonical (r : AutomatonRecord) : Prop where
  states : (r.states.map (·.name)).Pairwise (· < ·)
  occurring : ∀ n, n ∈ r.states.map (·.name) ↔
    n = r.start ∨ n = r.error.name ∨ ∃ t ∈ r.transitions, n = t.source ∨ n ∈ t.targets
  error : r.error ∈ r.states
  transitions : r.transitions.Pairwise TransitionRecord.Before
  targets : ∀ t ∈ r.transitions, t.targets.Pairwise (· < ·)
  ends : r.ends.Pairwise (· < ·)
  ends_listed : ∀ n ∈ r.ends, n ∈ r.states.map (·.name)

namespace Automaton

variable {a : Automaton κ} {w : Wiring}

/-- Entries whose triggers are kept have records that differ in source or trigger. -/
theorem pairwise_transitions_toRecord [EquivBEq κ] {g : TriggerRegistry κ}
    (hkept : ∀ e ∈ a.table.transitions.entries, e.trigger.Kept g) :
    (a.toRecord w).transitions.Pairwise TransitionRecord.Before := by
  have hdiffer : (a.table.transitions.entries.map Entry.toRecord).Pairwise fun t u =>
      ¬ (t.source = u.source ∧ t.trigger = u.trigger) := by
    refine List.pairwise_map.2 (a.table.transitions.distinct.imp_of_mem ?_)
    rintro d e hd he happart ⟨hsource, htrigger⟩
    have hmatch := (hkept d hd).beq (hkept e he) htrigger
    have hfor : d.isFor e.source.name e.trigger = true := by
      simp [Entry.isFor, show d.source.name = e.source.name from hsource, hmatch]
    rw [happart] at hfor
    cases hfor
  have hsorted := List.pairwise_mergeSort TransitionRecord.le_trans TransitionRecord.le_total
    (a.table.transitions.entries.map Entry.toRecord)
  -- sorting changes the order alone, and the records still differ
  have hdiffer' := ((List.mergeSort_perm _ TransitionRecord.le).pairwise_iff
    fun {t u} h h' => h ⟨h'.1.symm, h'.2.symm⟩).2 hdiffer
  exact (hsorted.and hdiffer').imp fun h => TransitionRecord.before_of_le h.1 h.2

/-- A shared automaton whose triggers are kept is saved in canonical form. -/
theorem Shared.canonical_toRecord [EquivBEq κ] (ha : a.Shared) {g : TriggerRegistry κ}
    (hkept : ∀ e ∈ a.table.transitions.entries, e.trigger.Kept g) (w : Wiring) :
    (a.toRecord w).Canonical where
  states := by
    rw [map_name_toRecord]
    exact a.states.pairwise_names
  occurring n := by
    have hoccur : (∃ t ∈ (a.toRecord w).transitions, n = t.source ∨ n ∈ t.targets) ↔
        a.table.states.has n = true := by
      rw [Table.has_states_iff, ← names_transitions_toRecord (w := w)]
      simp only [eq_comm]
    rw [map_name_toRecord, SortedSet.mem_names, has_states, hoccur]
    show _ ↔ n = a.start.name ∨ n = a.error.name ∨ _
    rw [eq_comm (a := n), eq_comm (a := n)]
    tauto
  error := List.mem_map.2 ⟨a.error, ha.mem_states (.inr (.inr rfl)), rfl⟩
  transitions := pairwise_transitions_toRecord hkept
  targets t ht := by
    obtain ⟨e, -, rfl⟩ := mem_transitions_toRecord.1 ht
    exact e.targets.pairwise_names
  ends := a.endNames.sorted.filter _
  ends_listed n hn := by
    rw [map_name_toRecord, SortedSet.mem_names]
    exact (List.mem_filter.1 hn).2

end Automaton

/-! ## What is loaded from a canonical record -/

/-- A state is saved by its name and its hooks. -/
theorem State.toRecord_congr {x y : State} {u w : Wiring} (hname : x.name = y.name)
    (hhooks : w.hooksOf x = u.hooksOf y) : x.toRecord w = y.toRecord u := by
  unfold State.toRecord Wiring.hookName Wiring.hook
  rw [hname, hhooks]

theorem Entry.toRecord_relabel (e : Entry κ) (f : State → State) (h : ∀ s, (f s).name = s.name) :
    (e.relabel f h).toRecord = e.toRecord := by
  have htargets : (e.targets.relabel f h).names = e.targets.names := SortedSet.names_relabel ..
  unfold Entry.toRecord Entry.relabel
  rw [h, htargets]

/-- A pin replaces instances, which are not saved. -/
theorem Table.map_toRecord_pin (t : Table κ) (s : State) :
    (t.pin s).transitions.entries.map Entry.toRecord =
      t.transitions.entries.map Entry.toRecord := by
  show (t.transitions.entries.map (Entry.relabel _ _)).map Entry.toRecord = _
  rw [List.map_map]
  exact List.map_congr_left fun e _ => e.toRecord_relabel _ _

namespace AutomatonRecord

variable {g : Registries κ} {u v w : Wiring} {states : StateSet} {es : List (Entry κ)}
  {a b : Automaton κ}

/-- Entries that are drawn for the transitions of a saved automaton have different keys. -/
theorem Replayed.pairwise_entries [EquivBEq κ] (h : (b.toRecord u).Replayed g v w states es a)
    (hkept : ∀ e ∈ b.table.transitions.entries, e.trigger.Kept g.triggers) :
    es.Pairwise fun d e => d.isFor e.source.name e.trigger = false := by
  have hmatch : ∀ e ∈ b.table.transitions.entries, ∀ on,
      g.triggers.Accepts e.toRecord.trigger on → (on == e.trigger) = true := by
    intro e he on haccept
    obtain ⟨on', hresolve, hmatch, -⟩ := hkept e he
    have hboth := TriggerRegistry.resolve_of_accepts haccept
    rw [show e.toRecord.trigger = e.trigger.toRecord from rfl, hresolve] at hboth
    obtain rfl := Except.ok.inj hboth
    exact hmatch
  -- said of records, so that it does not depend on the order in which they are saved
  have hrecords : (b.table.transitions.entries.map Entry.toRecord).Pairwise fun t t' =>
      ∀ on on', g.triggers.Accepts t.trigger on → g.triggers.Accepts t'.trigger on' →
        (t.source == t'.source && on == on') = false := by
    refine List.pairwise_map.2 (b.table.transitions.distinct.imp_of_mem ?_)
    intro d e hd he happart on on' haccept haccept'
    rw [← happart, BEq.congr_left (hmatch d hd on haccept),
      BEq.congr_right (hmatch e he on' haccept')]
    rfl
  have hsymm : ∀ {t t' : TransitionRecord}, (∀ on on', g.triggers.Accepts t.trigger on →
        g.triggers.Accepts t'.trigger on' → (t.source == t'.source && on == on') = false) →
      ∀ on on', g.triggers.Accepts t'.trigger on → g.triggers.Accepts t.trigger on' →
        (t'.source == t.source && on == on') = false := by
    intro t t' htt' on on' haccept haccept'
    rw [BEq.comm (a := t'.source), BEq.comm (a := on)]
    exact htt' on' on haccept' haccept
  have hsaved := ((List.mergeSort_perm _ TransitionRecord.le).pairwise_iff hsymm).2 hrecords
  refine pairwise_of_forall₂ h.entries hsaved ?_
  rintro t t' d e ⟨on, haccept, hover⟩ ⟨on', haccept', hover'⟩ happart
  unfold Entry.isFor
  rw [hover.source_name, hover.trigger, hover'.source_name, hover'.trigger]
  exact happart on on' haccept haccept'

/-- An entry that is drawn for a saved transition is saved as that transition. -/
theorem Drawn.toRecord_eq {g : TriggerRegistry κ} {t : TransitionRecord} {e : Entry κ}
    (h : t.Drawn states g e) (hsaved : ∃ x ∈ b.table.transitions.entries, x.toRecord = t)
    (hkept : ∀ x ∈ b.table.transitions.entries, x.trigger.Kept g) : e.toRecord = t := by
  obtain ⟨x, hx, rfl⟩ := hsaved
  obtain ⟨on, haccept, hover⟩ := h
  obtain ⟨on', hresolve, -, hsame⟩ := hkept x hx
  have hboth := TriggerRegistry.resolve_of_accepts haccept
  rw [show x.toRecord.trigger = x.trigger.toRecord from rfl, hresolve] at hboth
  obtain rfl := Except.ok.inj hboth
  have htargets : e.targets.names = x.targets.names := by
    refine SortedSet.names_eq_iff.2 fun n => ?_
    rw [Bool.eq_iff_iff, hover.has_targets]
    exact SortedSet.mem_names
  unfold Entry.toRecord
  rw [hover.source_name, hover.trigger, hsame, htargets]
  rfl

/-- The transitions of a saved automaton are saved again as they were. -/
theorem Replayed.toRecords_eq [EquivBEq κ] (h : (b.toRecord u).Replayed g v w states es a)
    (hkept : ∀ e ∈ b.table.transitions.entries, e.trigger.Kept g.triggers) :
    a.table.toRecords = b.table.toRecords := by
  have hentries : (es.foldl Transitions.merge ∅).entries = es :=
    Transitions.entries_foldl_merge (h.pairwise_entries hkept)
  have hdrawn : (b.toRecord u).transitions = es.map Entry.toRecord := by
    rw [← List.forall₂_eq_eq_eq, List.forall₂_map_right_iff]
    have hlisted := (List.forall₂_and_left _ _).2
      ⟨fun t (ht : t ∈ (b.toRecord u).transitions) => ht, h.entries⟩
    refine hlisted.imp fun t e hte => ?_
    exact (Drawn.toRecord_eq hte.2 (Automaton.mem_transitions_toRecord.1 hte.1) hkept).symm
  have hloaded : a.table.transitions.entries.map Entry.toRecord = b.table.toRecords := by
    rw [h.table, Table.map_toRecord_pin, Table.map_toRecord_pin]
    show (es.foldl Transitions.merge ∅).entries.map Entry.toRecord = _
    rw [hentries]
    exact hdrawn.symm
  -- what was saved is in order already
  have hsorted : b.table.toRecords.Pairwise fun t t' => t.le t' = true :=
    List.pairwise_mergeSort TransitionRecord.le_trans TransitionRecord.le_total _
  show (a.table.transitions.entries.map Entry.toRecord).mergeSort TransitionRecord.le = _
  rw [hloaded, List.mergeSort_of_pairwise hsorted]

/-- An automaton that is loaded from a record that was saved is saved as that record, if its hooks
were the registry's own and its triggers are kept. -/
theorem Replayed.toRecord_eq [EquivBEq κ] (h : (b.toRecord u).Replayed g v w states es a)
    (hb : b.Shared)
    (howns : ∀ s ∈ b.states, ∀ slot c, u.hook s slot = some c → g.callbacks.Owns c)
    (hkept : ∀ e ∈ b.table.transitions.entries, e.trigger.Kept g.triggers) :
    a.toRecord w = b.toRecord u := by
  have hstate : ∀ y ∈ a.states, ∀ x ∈ b.states, y.name = x.name → y.toRecord w = x.toRecord u :=
    fun y hy x hx hname => State.toRecord_congr hname (h.hooksOf howns hx hy hname)
  have hnames : a.states.names = b.states.names := SortedSet.names_eq_iff.2 h.has_states_eq
  have hstates : a.states.toList.map (State.toRecord w) = b.states.toList.map (State.toRecord u) :=
    map_eq_of_names_eq hnames hstate
  have herror : a.error.toRecord w = b.error.toRecord u :=
    hstate _ (h.shared.1.mem_states (.inr (.inr rfl))) _ (hb.mem_states (.inr (.inr rfl)))
      h.error_name
  -- the end names that are saved are those of states, and the states have the same names
  have hends : a.endNames.toList.filter a.states.has = b.endNames.toList.filter b.states.has := by
    have hlisted : (b.endNames.toList.filter b.states.has).Pairwise (· < ·) :=
      b.endNames.sorted.filter _
    have hloaded : a.endNames.toList = b.endNames.toList.filter b.states.has := by
      rw [h.ends]
      exact SortedSet.toList_ofList hlisted
    have hhas : a.states.has = b.states.has := funext h.has_states_eq
    rw [hloaded, hhas]
    exact List.filter_eq_self.2 fun n hn => (List.mem_filter.1 hn).2
  have hstart : a.start.name = b.start.name := h.start_name
  unfold Automaton.toRecord
  rw [hstates, h.toRecords_eq hkept, hstart, herror, hends]

/-- **Loading and saving makes a record canonical, once and for all.** Registries that keep the
triggers they rebuild load a record, and the automaton is saved. Then what is saved is in canonical
form, is loaded again by the same registries, over whatever wiring, and is saved as it was. -/
theorem canonical_of_load [EquivBEq κ] {r : AutomatonRecord} {g : Registries κ} {v w : Wiring}
    {a : Automaton κ} (hg : g.triggers.Restores) (hload : r.load g v = .ok (a, w)) :
    (a.toRecord w).Canonical ∧
      ∀ v', ∃ b w', (a.toRecord w).load g v' = .ok (b, w') ∧ b.toRecord w' = a.toRecord w := by
  obtain ⟨-, states, es, hreplayed⟩ := replayed_of_load hload
  have ha : a.Shared := hreplayed.shared.1
  have hkept : ∀ e ∈ a.table.transitions.entries, e.trigger.Kept g.triggers :=
    fun e he => hreplayed.kept_trigger hg he
  have howns : ∀ s ∈ a.states, ∀ slot c, w.hook s slot = some c → g.callbacks.Owns c :=
    fun s hs slot c hc => hreplayed.owns_hook hs hc
  refine ⟨ha.canonical_toRecord hkept w, fun v' => ?_⟩
  have hcallbacks : ∀ s ∈ a.states, ∀ slot n, w.hookName s slot = some n →
      g.callbacks.contains n = true := by
    intro s hs slot n hn
    obtain ⟨c, hc, rfl⟩ := Option.map_eq_some_iff.1 hn
    exact (howns s hs slot c hc).contains
  have htriggers : ∀ e ∈ a.table.transitions.entries,
      ∃ on, g.triggers.resolve e.trigger.toRecord = .ok on :=
    fun e he => (hkept e he).imp fun _ hon => hon.1
  obtain ⟨b, w', states', es', hload', hreplayed'⟩ := ha.load_toRecord hcallbacks htriggers v'
  exact ⟨b, w', hload', hreplayed'.toRecord_eq ha howns hkept⟩

end AutomatonRecord

/-! ## A record that is not canonical -/

/-- Words are known, which match without regard to case. -/
def Registries.words : Registries Symbol where
  triggers := ⟨.ofList
    [⟨Trigger.epsilonTag, fun _ => .ok .epsilon⟩, ⟨Trigger.textTag, fun s => .ok (.text s)⟩,
      ⟨"nocase", fun s => (Symbol.parseWord s).map .custom⟩]⟩
  callbacks := .empty

theorem Registries.restores_words : words.triggers.Restores := by
  intro r on h
  obtain ⟨b, hb, hon⟩ := TriggerRegistry.accepts_of_resolve h
  have hmem : b ∈ [(⟨Trigger.epsilonTag, fun _ => .ok .epsilon⟩ : Rebuilder Symbol),
      ⟨Trigger.textTag, fun s => .ok (.text s)⟩,
      ⟨"nocase", fun s => (Symbol.parseWord s).map .custom⟩] :=
    SortedSet.mem_ofList (SortedSet.find?_eq_some_iff.1 hb).1
  simp only [List.mem_cons, List.not_mem_nil, or_false] at hmem
  rcases hmem with rfl | rfl | rfl
  · obtain rfl := Except.ok.inj hon
    exact ⟨.epsilon, rfl, BEq.rfl, rfl⟩
  · obtain rfl := Except.ok.inj hon
    exact ⟨.text r.payload, rfl, BEq.rfl, rfl⟩
  · obtain rfl := Except.ok.inj hon
    exact ⟨.custom (.word r.payload), rfl, BEq.rfl, rfl⟩

namespace AutomatonRecord

/-- A switch of which one transition is spelled in two ways, with a state that nothing refers to,
and in no order. -/
def switch : AutomatonRecord where
  states := [.named "off", .named "on", .named "lost"]
  transitions := [⟨"off", ⟨"nocase", "Go"⟩, ["on"]⟩, ⟨"off", ⟨"nocase", "go"⟩, ["on", "off"]⟩]
  start := "off"
  error := .named "error"
  ends := ["on", "off", "on"]

theorem canonical_of_load_switch :
    Registries.words.triggers.Restores ∧ ¬ switch.Canonical ∧
      ∃ a w, switch.load Registries.words {} = .ok (a, w) ∧ (a.toRecord w).Canonical ∧
        ∀ v', ∃ b w', (a.toRecord w).load Registries.words v' = .ok (b, w') ∧
          b.toRecord w' = a.toRecord w := by
  have hunsorted : ¬ switch.Canonical := fun h => absurd h.states (by decide)
  have hload : ∃ a w, switch.load Registries.words {} = .ok (a, w) := ⟨_, _, rfl⟩
  obtain ⟨a, w, hload⟩ := hload
  exact ⟨Registries.restores_words, hunsorted, a, w, hload,
    canonical_of_load Registries.restores_words hload⟩

end AutomatonRecord

end HookedAutomata
