import HookedAutomata.Proofs.RecordOrder
import HookedAutomata.Proofs.Saving
import HookedAutomata.Proofs.TableHistories

/-!
# The order of entries in a saved automaton

A table may hold its entries in any order, and whoever walks it meets them in that order
(`Automaton.Reordered`). Saving sorts what is saved, so that the order should not show. It does not
show in the states, nor in the end names, which are sets. It may show in the transitions: they are
sorted by source, tag and payload, and sorting leaves those that agree in all three as they stood
(`Table.filter_toRecords`).

Two triggers of different kinds may have one tag and one payload, and so may two of one kind that are
not equal. Where a source has entries for both that lead to different targets, the table is tied
(`Table.Untied`), and either of them may come first in the record.

The main statement is `Automaton.toRecord_reordered`.
-/

namespace HookedAutomata

variable {κ : Type} [CustomTrigger κ]

/-! ## Tables in another order -/

/-- The same entries in another order. -/
def Transitions.reorder [EquivBEq κ] (m : Transitions κ) {l : List (Entry κ)}
    (h : m.entries.Perm l) : Transitions κ :=
  ⟨l, (h.pairwise_iff fun {e f} happart => by
    -- two entries have one key or not, whichever comes first
    cases hfor : f.isFor e.source.name e.trigger with
    | false => rfl
    | true =>
      rw [Entry.isFor_congr f.isFor_self, Bool.and_eq_true, beq_iff_eq] at hfor
      rw [Entry.isFor, hfor.1, beq_self_eq_true, Bool.true_and, BEq.comm, hfor.2] at happart
      cases happart).1 m.distinct⟩

/-- The same automaton but for the order in which its table holds the entries. -/
structure Automaton.Reordered (a b : Automaton κ) : Prop where
  start : a.start = b.start
  error : a.error = b.error
  ends : a.endNames = b.endNames
  entries : a.table.transitions.entries.Perm b.table.transitions.entries

namespace Table

/-- A table with one instance of each name lists all states that its entries have. -/
theorem mem_states_iff {t : Table κ} (h : ∀ n, OneInstance t.transitions.states n) {s : State} :
    s ∈ t.states ↔ s ∈ t.transitions.states := by
  refine ⟨mem_states, fun hs => ?_⟩
  obtain ⟨x, hx, hname⟩ := SortedSet.has_iff.1 (has_states_of_mem hs)
  rw [h s.name s hs x (mem_states hx) rfl hname]
  exact hx

/-- The states do not depend on the order of the entries. -/
theorem states_eq_of_perm {t u : Table κ} (ht : ∀ n, OneInstance t.transitions.states n)
    (h : t.transitions.entries.Perm u.transitions.entries) : t.states = u.states := by
  have hmem : ∀ s, s ∈ t.transitions.states ↔ s ∈ u.transitions.states := by
    intro s
    rw [Transitions.mem_states, Transitions.mem_states]
    simp only [h.mem_iff]
  have hu : ∀ n, OneInstance u.transitions.states n :=
    fun n x hx y hy => ht n x ((hmem x).2 hx) y ((hmem y).2 hy)
  refine SortedSet.ext (SortedSet.eq_of_pairwise_of_mem_iff t.states.sorted u.states.sorted ?_)
  exact fun s => (mem_states_iff ht).trans ((hmem s).trans (mem_states_iff hu).symm)

/-! ## Ties -/

/-- Entries of one source whose triggers are saved alike have targets of the same names. -/
def Untied (t : Table κ) : Prop :=
  ∀ e ∈ t.transitions.entries, ∀ f ∈ t.transitions.entries,
    e.source.name = f.source.name → e.trigger.toRecord = f.trigger.toRecord →
      e.targets.names = f.targets.names

/-- A table is untied if no two of its triggers that are saved alike are kept apart. -/
theorem untied_of_beq [EquivBEq κ] {t : Table κ}
    (h : ∀ e ∈ t.transitions.entries, ∀ f ∈ t.transitions.entries,
      e.trigger.toRecord = f.trigger.toRecord → (e.trigger == f.trigger) = true) : t.Untied := by
  intro e he f hf hsource htrigger
  have hsame : t.transitions.find? e.source.name e.trigger =
      t.transitions.find? f.source.name f.trigger := by
    rw [hsource, t.transitions.find?_congr (h e he f hf htrigger)]
  rw [Transitions.find?_of_mem he, Transitions.find?_of_mem hf] at hsame
  rw [Option.some.inj hsame]

theorem pairwise_toRecords (t : Table κ) :
    t.toRecords.Pairwise fun a b => a.le b = true :=
  List.pairwise_mergeSort TransitionRecord.le_trans TransitionRecord.le_total _

theorem toRecords_perm (t : Table κ) :
    t.toRecords.Perm (t.transitions.entries.map Entry.toRecord) :=
  List.mergeSort_perm ..

/-- Transitions of one source and one trigger are saved in the order of the entries. -/
theorem filter_toRecords (t : Table κ) (a : TransitionRecord) :
    (t.toRecords.filter fun b => a.Ties b) =
      (t.transitions.entries.map Entry.toRecord).filter fun b => a.Ties b := by
  refine (List.Sublist.eq_of_length ?_ (t.toRecords_perm.symm.filter _).length_eq).symm
  -- those of one source and trigger are in order already, so the sort keeps them as a sublist
  have hsorted : ((t.transitions.entries.map Entry.toRecord).filter fun b => a.Ties b).Pairwise
      fun b c => b.le c = true := by
    refine List.pairwise_of_forall_mem_list fun b hb c hc => ?_
    have hab : a.Ties b := by simpa using (List.mem_filter.1 hb).2
    have hac : a.Ties c := by simpa using (List.mem_filter.1 hc).2
    exact (TransitionRecord.ties_iff.1 ⟨hab.1.symm.trans hac.1, hab.2.symm.trans hac.2⟩).1
  have hsub : ((t.transitions.entries.map Entry.toRecord).filter fun b => a.Ties b).Sublist
      t.toRecords :=
    List.sublist_mergeSort TransitionRecord.le_trans TransitionRecord.le_total hsorted
      List.filter_sublist
  simpa using hsub.filter fun b => decide (a.Ties b)

/-- An untied table is saved alike in every order of its entries. -/
theorem Untied.toRecords_eq {t u : Table κ} (ht : t.Untied)
    (h : t.transitions.entries.Perm u.transitions.entries) : t.toRecords = u.toRecords := by
  have hperm : t.toRecords.Perm u.toRecords :=
    t.toRecords_perm.trans ((h.map _).trans u.toRecords_perm.symm)
  refine List.Perm.eq_of_pairwise (fun a b ha hb hab hba => ?_) t.pairwise_toRecords
    u.pairwise_toRecords hperm
  obtain ⟨e, he, rfl⟩ := List.mem_map.1 (t.toRecords_perm.subset ha)
  obtain ⟨f, hf, rfl⟩ := List.mem_map.1 (t.toRecords_perm.subset (hperm.symm.subset hb))
  obtain ⟨hsource, htrigger⟩ := TransitionRecord.ties_iff.2 ⟨hab, hba⟩
  calc e.toRecord = ⟨e.source.name, e.trigger.toRecord, e.targets.names⟩ := rfl
    _ = ⟨f.source.name, f.trigger.toRecord, f.targets.names⟩ := by
      rw [ht e he f hf hsource htrigger, show e.source.name = f.source.name from hsource,
        show e.trigger.toRecord = f.trigger.toRecord from htrigger]

/-- Of the transitions of its source and trigger, the first entry is saved first. -/
theorem find?_toRecords {t : Table κ} {e : Entry κ} {l : List (Entry κ)}
    (h : t.transitions.entries = e :: l) :
    (t.toRecords.find? fun b => e.toRecord.Ties b) = some e.toRecord := by
  have hself : e.toRecord.Ties e.toRecord := ⟨rfl, rfl⟩
  rw [← List.head?_filter, filter_toRecords, h, List.map_cons, List.filter_cons]
  simp [hself]

end Table

/-! ## Automata in another order -/

namespace Automaton

/-- Nothing but the transitions can show in which order the table holds its entries. -/
theorem Reordered.toRecord_eq {a b : Automaton κ} (h : a.Reordered b) (ha : a.table.Arises)
    (w : Wiring) : b.toRecord w = { a.toRecord w with transitions := b.table.toRecords } := by
  have hone : ∀ n, OneInstance a.table.transitions.states n := fun n =>
    (ha.oneInstance n).mono fun s hs => Table.mem_instances.2 (.inr hs)
  have hstates : b.states = a.states := by
    unfold states
    rw [Table.states_eq_of_perm hone h.entries, h.start, h.error]
  unfold toRecord
  rw [hstates, h.start, h.error, h.ends]

/-- If every order is saved alike, each entry is saved as the first of its source and trigger. -/
theorem find?_toRecords_of_forall [EquivBEq κ] {a : Automaton κ} {w : Wiring}
    (h : ∀ b, a.Reordered b → b.toRecord w = a.toRecord w) {e : Entry κ}
    (he : e ∈ a.table.transitions.entries) :
    (a.table.toRecords.find? fun r => e.toRecord.Ties r) = some e.toRecord := by
  obtain ⟨before, after, hentries⟩ := List.append_of_mem he
  have hperm : a.table.transitions.entries.Perm (e :: (before ++ after)) := by
    rw [hentries]
    exact List.perm_middle
  -- the order in which this entry comes first is saved like the one there is
  let b : Automaton κ :=
    { a with table := { a.table with transitions := a.table.transitions.reorder hperm } }
  have hsaved : b.table.toRecords = a.table.toRecords :=
    congrArg AutomatonRecord.transitions (h b ⟨rfl, rfl, rfl, hperm⟩)
  rw [← hsaved]
  exact Table.find?_toRecords rfl

/-- **What is saved in any order.** A table that arises may hold its entries in any order, and its
automaton is saved. Triggers match as an equivalence does.

The order shows neither in the states nor in the end names. The same transitions are saved, and they
are sorted by source, tag and payload. Those that agree in all three are saved in the order of the
entries: so every order is saved alike exactly if entries of one source, whose triggers are saved
alike, lead to the same names. This is so where triggers that are saved alike match one another. -/
theorem toRecord_reordered [EquivBEq κ] {a : Automaton κ} (h : a.table.Arises) (w : Wiring) :
    (∀ b, a.Reordered b →
      b.toRecord w = { a.toRecord w with transitions := b.table.toRecords } ∧
      b.table.toRecords.Perm a.table.toRecords ∧
      (b.table.toRecords.Pairwise fun r s => r.le s = true) ∧
      ∀ r : TransitionRecord, (b.table.toRecords.filter fun s => r.Ties s) =
        (b.table.transitions.entries.map Entry.toRecord).filter fun s => r.Ties s) ∧
    ((∀ b, a.Reordered b → b.toRecord w = a.toRecord w) ↔ a.table.Untied) ∧
    ((∀ e ∈ a.table.transitions.entries, ∀ f ∈ a.table.transitions.entries,
        e.trigger.toRecord = f.trigger.toRecord → (e.trigger == f.trigger) = true) →
      ∀ b, a.Reordered b → b.toRecord w = a.toRecord w) := by
  have hsame : a.table.Untied → ∀ b, a.Reordered b → b.toRecord w = a.toRecord w := by
    intro huntied b hb
    rw [hb.toRecord_eq h w, ← huntied.toRecords_eq hb.entries]
    rfl
  refine ⟨fun b hb => ⟨hb.toRecord_eq h w, ?_, b.table.pairwise_toRecords, b.table.filter_toRecords⟩,
    ⟨fun hall e he f hf hsource htrigger => ?_, hsame⟩, fun hbeq => hsame (Table.untied_of_beq hbeq)⟩
  · exact b.table.toRecords_perm.trans ((hb.entries.symm.map _).trans a.table.toRecords_perm.symm)
  · have hfirst := find?_toRecords_of_forall hall he
    have hfirst' := find?_toRecords_of_forall hall hf
    have hties : (fun r => decide (e.toRecord.Ties r)) = fun r => decide (f.toRecord.Ties r) := by
      funext r
      show decide (e.source.name = r.source ∧ e.trigger.toRecord = r.trigger) = _
      rw [hsource, htrigger]
      rfl
    rw [hties, hfirst'] at hfirst
    exact (congrArg TransitionRecord.targets (Option.some.inj hfirst)).symm

/-- A state that leaves on a digit of either kind, which are saved alike: it stays on the one and
fails on the other. -/
def digits (l : List (Table.Edit Symbol)) : Automaton Symbol :=
  (assemble ⟨"s", 0⟩ ⟨"e", 1⟩ ∅ ∅).edited l

def onDigit : Table.Edit Symbol := .add ⟨"s", 0⟩ (.custom (.digit 1)) (.singleton ⟨"s", 0⟩)

def onDigit2 : Table.Edit Symbol := .add ⟨"s", 0⟩ (.custom (.digit2 1)) (.singleton ⟨"e", 1⟩)

theorem arises_digits (l : List (Table.Edit Symbol)) : (digits l).table.Arises := by
  have hedited : ∀ {t : Table Symbol}, t.Arises → (t.edited l).Arises := by
    induction l with
    | nil => exact fun h => h
    | cons c l ih => exact fun h => ih (h.edit c)
  exact hedited (.assemble .empty _ _ _)

theorem toRecords_digits :
    (digits [onDigit, onDigit2]).table.toRecords =
        [⟨"s", ⟨"digit", "1"⟩, ["s"]⟩, ⟨"s", ⟨"digit", "1"⟩, ["e"]⟩] ∧
      (digits [onDigit2, onDigit]).table.toRecords =
        [⟨"s", ⟨"digit", "1"⟩, ["e"]⟩, ⟨"s", ⟨"digit", "1"⟩, ["s"]⟩] :=
  ⟨List.mergeSort_of_pairwise (by decide), List.mergeSort_of_pairwise (by decide)⟩

theorem reordered_digits : (digits [onDigit, onDigit2]).Reordered (digits [onDigit2, onDigit]) :=
  ⟨rfl, rfl, rfl, .swap _ _ _⟩

/-- The table of both digits is saved in two ways, since its two entries are tied. -/
theorem toRecord_reordered_digits :
    let a := digits [onDigit, onDigit2]
    a.table.Arises ∧ ¬ a.table.Untied ∧
      ¬ ∀ b, a.Reordered b → b.toRecord .logging = a.toRecord .logging := by
  intro a
  have hall := (toRecord_reordered (arises_digits [onDigit, onDigit2]) .logging).2.1
  have htied : ¬ a.table.Untied := by
    intro h
    have hnames := h ⟨⟨"s", 0⟩, .custom (.digit 1), .singleton ⟨"s", 0⟩⟩ List.mem_cons_self
      ⟨⟨"s", 0⟩, .custom (.digit2 1), .singleton ⟨"e", 1⟩⟩
      (List.mem_cons_of_mem _ List.mem_cons_self) rfl rfl
    revert hnames
    decide
  exact ⟨arises_digits _, htied, fun h => htied (hall.1 h)⟩

/-- The order of entries may show in what is saved. -/
theorem not_forall_toRecord_eq_of_reordered :
    ¬ ∀ (a b : Automaton Symbol) (w : Wiring), a.table.Arises → b.table.Arises → a.Reordered b →
      a.toRecord w = b.toRecord w := by
  intro h
  have hsaved := congrArg AutomatonRecord.transitions
    (h _ _ .logging (arises_digits _) (arises_digits _) reordered_digits)
  obtain ⟨hfirst, hsecond⟩ := toRecords_digits
  have hne : (digits [onDigit, onDigit2]).table.toRecords =
      (digits [onDigit2, onDigit]).table.toRecords := hsaved
  rw [hfirst, hsecond] at hne
  revert hne
  decide

end Automaton

end HookedAutomata
