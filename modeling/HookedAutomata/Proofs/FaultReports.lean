import Mathlib.Data.List.Sort
import HookedAutomata.Proofs.Checking

/-!
# Every fault is reported in its place

What can be wrong with a record is wrong at a place: the name of a listed state, a target of a
transition, a callback in a slot (`AutomatonRecord.Place`). `AutomatonRecord.Fault` says which
places are at fault and what there is to report, each place by itself, whatever else is wrong with
the record.

The checks put their findings one behind another. `AutomatonRecord.Reports` says of a list of
violations that it has one for each fault and no other, in the order of the places. Lists that report
what is wrong at earlier and at later places report both when they are put together
(`Reports.append`), and so do the lists of all items of a list (`Reports.flatMap`). So the checks are
taken round by round.

The main statement is `AutomatonRecord.violations_report`.
-/

namespace HookedAutomata

variable {κ : Type}

/-- The callback that a state refers to in a slot. For entering it may be the name that stands for
none. -/
def StateRecord.callbackIn (r : StateRecord) : Slot → Option String
  | .entry => some r.entry
  | .exit => r.exit
  | .stay => r.stay

namespace AutomatonRecord

/-! ## Places -/

/-- A place in a record. -/
inductive Place where
  -- the name of a listed state
  | listed (i : Nat)
  -- the error state, as against the listed states
  | error
  | start
  | endName (i : Nat)
  | source (i : Nat)
  | tag (i : Nat)
  -- the target `j` of the transition `i`
  | target (i j : Nat)
  -- the callback of a state in a slot. The error state comes behind the listed states
  | callback (i : Nat) (slot : Slot)

namespace Place

/-- The round in which a place is checked. -/
def round : Place → Nat
  | listed _ => 0
  | error => 1
  | start => 2
  | endName _ => 3
  | source _ | tag _ | target .. => 4
  | callback .. => 5

/-- Where a place comes in its round. -/
def position : Place → List Nat
  | error | start => []
  | listed i | endName i => [i]
  | source i => [i, 0]
  | tag i => [i, 1]
  | target i j => [i, 2, j]
  | callback i .entry => [i, 0]
  | callback i .exit => [i, 1]
  | callback i .stay => [i, 2]

/-- Whether a place is checked earlier than another. -/
def Before (p q : Place) : Prop :=
  p.round < q.round ∨ (p.round = q.round ∧ p.position < q.position)

/-- Of two places only one comes before the other. -/
theorem Before.asymm {p q : Place} (h : p.Before q) : ¬ q.Before p := by
  rcases h with h | ⟨h, hlt⟩
  · rintro (h' | ⟨h', -⟩) <;> omega
  · rintro (h' | ⟨-, hgt⟩)
    · omega
    · exact List.lt_asymm hlt hgt

/-- In one round the items are taken in their order. -/
theorem before_of_item_lt {p q : Place} {i j : Nat} (hround : p.round = q.round)
    (hp : p.position.head? = some i) (hq : q.position.head? = some j) (hij : i < j) :
    p.Before q := by
  obtain ⟨l, hl⟩ := List.head?_eq_some_iff.1 hp
  obtain ⟨m, hm⟩ := List.head?_eq_some_iff.1 hq
  refine .inr ⟨hround, ?_⟩
  rw [hl, hm, List.cons_lt_cons_iff]
  exact .inl hij

end Place

/-! ## Faults -/

/-- What is wrong at a place, and what there is to report. -/
inductive Fault (r : AutomatonRecord) (g : Registries κ) : Place → Violation → Prop where
  -- an earlier state is listed under the name
  | listed {i j : Nat} {s t : StateRecord} (hs : r.states[i]? = some s)
      (ht : r.states[j]? = some t) (earlier : j < i) (same : t.name = s.name) :
      Fault r g (.listed i) (.duplicateState s.name)
  -- the first state that is listed under the name of the error state is another
  | error {i : Nat} {s : StateRecord} (hs : r.states[i]? = some s) (same : s.name = r.error.name)
      (first : ∀ j < i, ∀ t, r.states[j]? = some t → t.name ≠ r.error.name)
      (other : s ≠ r.error) : Fault r g .error (.conflictingErrorState r.error.name)
  | start (unknown : r.start ∉ r.knownNames) : Fault r g .start (.unknownStartState r.start)
  | endName {i : Nat} {n : String} (hn : r.ends[i]? = some n) (unknown : n ∉ r.knownNames) :
      Fault r g (.endName i) (.unknownEndState n)
  | source {i : Nat} {t : TransitionRecord} (ht : r.transitions[i]? = some t)
      (unknown : t.source ∉ r.knownNames) : Fault r g (.source i) (.unknownSourceState t.source)
  | tag {i : Nat} {t : TransitionRecord} (ht : r.transitions[i]? = some t)
      (unregistered : g.triggers.rebuilders.has t.trigger.tag = false) :
      Fault r g (.tag i) (.unknownTriggerTag t.trigger.tag)
  | target {i j : Nat} {t : TransitionRecord} {n : String} (ht : r.transitions[i]? = some t)
      (hn : t.targets[j]? = some n) (unknown : n ∉ r.knownNames) :
      Fault r g (.target i j) (.unknownTargetState t.source n)
  | callback {i : Nat} {s : StateRecord} {slot : Slot} {n : String}
      (hs : (r.states ++ [r.error])[i]? = some s) (hn : s.callbackIn slot = some n)
      (meant : n ≠ noCallback) (unregistered : g.callbacks.callbacks.has n = false) :
      Fault r g (.callback i slot) (.unknownCallback s.name n)

/-! ## Lists that report faults -/

/-- The list has one violation for each place where `F` says that something is wrong, and no other,
in the order of the places. -/
def Reports (F : Place → Violation → Prop) (l : List Violation) : Prop :=
  ∃ faults : List (Place × Violation), l = faults.map Prod.snd ∧
    (faults.Pairwise fun a b => a.1.Before b.1) ∧ ∀ p v, (p, v) ∈ faults ↔ F p v

namespace Reports

variable {F G : Place → Violation → Prop} {l m : List Violation}

theorem congr (h : Reports F l) (hFG : ∀ p v, F p v ↔ G p v) : Reports G l := by
  obtain ⟨faults, hl, horder, hmem⟩ := h
  exact ⟨faults, hl, horder, fun p v => (hmem p v).trans (hFG p v)⟩

theorem nil (h : ∀ p v, ¬ F p v) : Reports F [] :=
  ⟨[], rfl, .nil, fun p v => ⟨fun hmem => absurd hmem List.not_mem_nil, fun hF => absurd hF (h p v)⟩⟩

/-- One check reports one place. -/
theorem reportUnless (p : Place) (ok : Bool) (v : Violation) :
    Reports (fun q u => q = p ∧ u = v ∧ ok = false) (Violation.reportUnless ok v) := by
  cases ok with
  | true => exact nil fun q u h => by simp at h
  | false =>
    refine ⟨[(p, v)], rfl, List.pairwise_singleton .., fun q u => ?_⟩
    simp

/-- What is reported of earlier places comes before what is reported of later ones. -/
theorem append (hl : Reports F l) (hm : Reports G m)
    (hbefore : ∀ p v q u, F p v → G q u → p.Before q) :
    Reports (fun p v => F p v ∨ G p v) (l ++ m) := by
  obtain ⟨first, rfl, hfirst, hF⟩ := hl
  obtain ⟨second, rfl, hsecond, hG⟩ := hm
  refine ⟨first ++ second, List.map_append.symm, ?_, fun p v => ?_⟩
  · refine List.pairwise_append.2 ⟨hfirst, hsecond, fun a ha b hb => ?_⟩
    exact hbefore a.1 a.2 b.1 b.2 ((hF _ _).1 ha) ((hG _ _).1 hb)
  · rw [List.mem_append, hF, hG]

/-- What is reported of the items of a list comes in the order of the items. Induction on the list:
the places of the items behind the first are those of a list that begins one later. -/
theorem flatMap {α : Type} {xs : List α} {f : α → List Violation}
    {F : Nat → α → Place → Violation → Prop}
    (h : ∀ i x, xs[i]? = some x → Reports (F i x) (f x))
    (hbefore : ∀ i j x y p v q u, i < j → F i x p v → F j y q u → p.Before q) :
    Reports (fun p v => ∃ i x, xs[i]? = some x ∧ F i x p v) (xs.flatMap f) := by
  induction xs generalizing F with
  | nil => exact nil fun p v ⟨i, x, hx, _⟩ => by simp at hx
  | cons x xs ih =>
    have hrest := ih (F := fun i => F (i + 1)) (fun i y hy => h (i + 1) y (by simpa using hy))
      fun i j y z p v q u hij => hbefore (i + 1) (j + 1) y z p v q u (by omega)
    rw [List.flatMap_cons]
    refine ((h 0 x rfl).append hrest ?_).congr fun p v => ⟨?_, ?_⟩
    · rintro p v q u hp ⟨i, y, -, hq⟩
      exact hbefore 0 (i + 1) x y p v q u (by omega) hp hq
    · rintro (hp | ⟨i, y, hy, hp⟩)
      · exact ⟨0, x, rfl, hp⟩
      · exact ⟨i + 1, y, by simpa using hy, hp⟩
    · rintro ⟨i, y, hy, hp⟩
      cases i with
      | zero =>
        obtain rfl : x = y := by simpa using hy
        exact .inl hp
      | succ i => exact .inr ⟨i, y, by simpa using hy, hp⟩

/-- A list that reports more has the reports of the other among its own, in the same order. -/
theorem sublist (hl : Reports F l) (hm : Reports G m) (h : ∀ p v, F p v → G p v) :
    l.Sublist m := by
  obtain ⟨fewer, rfl, hfewer, hF⟩ := hl
  obtain ⟨more, rfl, hmore, hG⟩ := hm
  have hantisymm : Std.Antisymm fun a b : Place × Violation => a.1.Before b.1 :=
    ⟨fun a b hab hba => absurd hba hab.asymm⟩
  have hnodup : fewer.Nodup := by
    refine hfewer.imp fun {a b} hab => ?_
    rintro rfl
    exact hab.asymm hab
  have hsubset : fewer ⊆ more := fun a ha => (hG _ _).2 (h _ _ ((hF _ _).1 ha))
  exact (List.sublist_of_subperm_of_pairwise (List.subperm_of_subset hnodup hsubset) hfewer
    hmore).map Prod.snd

end Reports

/-! ## What the checks find -/

theorem knows_eq_false_iff {r : AutomatonRecord} {n : String} :
    r.knows n = false ↔ n ∉ r.knownNames := by
  rw [← knows_iff, Bool.not_eq_true]

/-- A name is reported if it was met before, and is met from then on. -/
theorem map_repeated_cons (before : List String) (n : String) (l : List String) :
    ∃ after : List String, (∀ m, m ∈ after ↔ m = n ∨ m ∈ before) ∧
      (repeated before (n :: l)).map .duplicateState =
        Violation.reportUnless (!before.contains n) (.duplicateState n) ++
          (repeated after l).map .duplicateState := by
  rw [repeated]
  cases hn : before.contains n with
  | true =>
    have hmem : n ∈ before := by simpa using hn
    refine ⟨before, fun m => ⟨.inr, ?_⟩, rfl⟩
    rintro (rfl | hm)
    · exact hmem
    · exact hm
  | false => exact ⟨n :: before, fun m => List.mem_cons, rfl⟩

/-- Those names are repeated that stand among the names before, or earlier in the list. Induction on
the list, behind `k` names that have been passed. -/
theorem reports_repeated (k : Nat) (before l : List String) :
    Reports (fun p v => ∃ i n, l[i]? = some n ∧ (n ∈ before ∨ ∃ j < i, l[j]? = some n) ∧
      p = .listed (k + i) ∧ v = .duplicateState n) ((repeated before l).map .duplicateState) := by
  induction l generalizing k before with
  | nil => exact Reports.nil fun p v ⟨i, n, hn, _⟩ => by simp at hn
  | cons m l ih =>
    obtain ⟨after, hafter, hcons⟩ := map_repeated_cons before m l
    rw [hcons]
    refine ((Reports.reportUnless (.listed k) _ _).append (ih (k + 1) after) ?_).congr
      fun p v => ⟨?_, ?_⟩
    · rintro p v q u ⟨rfl, -, -⟩ ⟨i, n, -, -, rfl, -⟩
      refine .inr ⟨rfl, ?_⟩
      simp [Place.position, List.cons_lt_cons_iff]
      omega
    · rintro (⟨rfl, rfl, hmet⟩ | ⟨i, n, hn, hmet, rfl, rfl⟩)
      · exact ⟨0, m, rfl, .inl (by simpa using hmet), rfl, rfl⟩
      · refine ⟨i + 1, n, hn, ?_, congrArg Place.listed (by omega), rfl⟩
        rw [Nat.exists_lt_succ_left]
        rw [hafter] at hmet
        rcases hmet with (rfl | hmet) | hmet
        · exact .inr (.inl rfl)
        · exact .inl hmet
        · exact .inr (.inr hmet)
    · rintro ⟨i, n, hn, hmet, rfl, rfl⟩
      cases i with
      | zero =>
        obtain rfl : m = n := by simpa using hn
        refine .inl ⟨rfl, rfl, ?_⟩
        simpa using hmet
      | succ i =>
        refine .inr ⟨i, n, hn, ?_, congrArg Place.listed (by omega), rfl⟩
        rw [Nat.exists_lt_succ_left] at hmet
        rw [hafter]
        rcases hmet with hmet | hmet | hmet
        · exact .inl (.inr hmet)
        · exact .inl (.inl (by simpa using hmet.symm))
        · exact .inr hmet

/-- The error state is in conflict with the first state that is listed under its name, if that is
another. -/
theorem errorAgrees_eq_false_iff {r : AutomatonRecord} : r.errorAgrees = false ↔
    ∃ (i : Nat) (s : StateRecord), r.states[i]? = some s ∧ s.name = r.error.name ∧
      (∀ j < i, ∀ t : StateRecord, r.states[j]? = some t → t.name ≠ r.error.name) ∧
      s ≠ r.error := by
  rw [← Bool.not_eq_true, errorAgrees_iff, not_forall]
  constructor
  · rintro ⟨s, hs⟩
    obtain ⟨hfind, hother⟩ := Classical.not_imp.1 hs
    obtain ⟨hname, i, hi, hget, hfirst⟩ := List.find?_eq_some_iff_getElem.1 hfind
    refine ⟨i, s, List.getElem?_eq_some_iff.2 ⟨hi, hget⟩, by simpa using hname, ?_, hother⟩
    intro j hj t ht
    obtain ⟨-, rfl⟩ := List.getElem?_eq_some_iff.1 ht
    simpa using hfirst j hj
  · rintro ⟨i, s, hs, hname, hfirst, hother⟩
    obtain ⟨hi, hget⟩ := List.getElem?_eq_some_iff.1 hs
    refine ⟨s, Classical.not_imp.2 ⟨List.find?_eq_some_iff_getElem.2 ⟨by simpa using hname, ?_⟩,
      hother⟩⟩
    refine ⟨i, hi, hget, fun j hj => ?_⟩
    simpa using hfirst j hj _ (List.getElem?_eq_getElem (by omega))

/-- The hooks of a state are checked slot by slot. The name that stands for no callback passes in
each of them, and is left out for entering. -/
theorem callbackViolations_eq (g : CallbackRegistry) (s : StateRecord) :
    callbackViolations g s =
      let check (slot : Slot) := (s.callbackIn slot).toList.flatMap fun n =>
        Violation.reportUnless (g.contains n) (.unknownCallback s.name n)
      check .entry ++ check .exit ++ check .stay := by
  unfold callbackViolations StateRecord.callbackNames
  rw [List.flatMap_append, List.flatMap_append]
  split
  · rename_i hnone
    simp [StateRecord.callbackIn, hnone, CallbackRegistry.contains, Violation.reportUnless]
  · rfl

theorem contains_eq_false_iff {g : CallbackRegistry} {n : String} :
    g.contains n = false ↔ n ≠ noCallback ∧ g.callbacks.has n = false := by
  unfold CallbackRegistry.contains
  simp

/-! ## The rounds of the checks -/

/-- What is wrong at the places of one round. -/
def FaultIn (r : AutomatonRecord) (g : Registries κ) (k : Nat) (p : Place) (v : Violation) : Prop :=
  r.Fault g p v ∧ p.round = k

/-- What is wrong with one item of a round. -/
def FaultOf (r : AutomatonRecord) (g : Registries κ) (k i : Nat) (p : Place) (v : Violation) :
    Prop :=
  r.Fault g p v ∧ p.round = k ∧ p.position.head? = some i

section Rounds

variable (r : AutomatonRecord) (g : Registries κ)

theorem reports_states : Reports (r.FaultIn g 0) r.stateViolations := by
  unfold stateViolations
  refine (reports_repeated 0 [] _).congr fun p v => ⟨?_, ?_⟩
  · rintro ⟨i, n, hn, hearlier, rfl, rfl⟩
    rw [List.getElem?_map, Option.map_eq_some_iff] at hn
    obtain ⟨s, hs, rfl⟩ := hn
    rcases hearlier with hn | ⟨j, hj, hn⟩
    · cases hn
    · rw [List.getElem?_map, Option.map_eq_some_iff] at hn
      obtain ⟨t, ht, hname⟩ := hn
      rw [Nat.zero_add]
      exact ⟨.listed hs ht hj hname, rfl⟩
  · rintro ⟨hfault, hround⟩
    cases hfault with
    | @listed i j s t hs ht hj hname =>
      exact ⟨i, s.name, by simp [hs], .inr ⟨j, hj, by simp [ht, hname]⟩, by simp⟩
    | _ => cases hround

theorem reports_error :
    Reports (r.FaultIn g 1)
      (Violation.reportUnless r.errorAgrees (.conflictingErrorState r.error.name)) := by
  refine (Reports.reportUnless .error _ _).congr fun p v => ⟨?_, ?_⟩
  · rintro ⟨rfl, rfl, hok⟩
    obtain ⟨i, s, hs, hname, hfirst, hother⟩ := errorAgrees_eq_false_iff.1 hok
    exact ⟨.error hs hname hfirst hother, rfl⟩
  · rintro ⟨hfault, hround⟩
    cases hfault with
    | error hs hname hfirst hother =>
      exact ⟨rfl, rfl, errorAgrees_eq_false_iff.2 ⟨_, _, hs, hname, hfirst, hother⟩⟩
    | _ => cases hround

theorem reports_start :
    Reports (r.FaultIn g 2)
      (Violation.reportUnless (r.knows r.start) (.unknownStartState r.start)) := by
  refine (Reports.reportUnless .start _ _).congr fun p v => ⟨?_, ?_⟩
  · rintro ⟨rfl, rfl, hok⟩
    exact ⟨.start (knows_eq_false_iff.1 hok), rfl⟩
  · rintro ⟨hfault, hround⟩
    cases hfault with
    | start hunknown => exact ⟨rfl, rfl, knows_eq_false_iff.2 hunknown⟩
    | _ => cases hround

variable {r g}

/-- A round that goes through the items of a list reports what is wrong with any of them. -/
theorem reports_items {α : Type} {k : Nat} {xs : List α} {f : α → List Violation}
    (h : ∀ i x, xs[i]? = some x → Reports (r.FaultOf g k i) (f x))
    (hitem : ∀ p v, r.Fault g p v → p.round = k →
      ∃ i x, xs[i]? = some x ∧ p.position.head? = some i) :
    Reports (r.FaultIn g k) (xs.flatMap f) := by
  refine (Reports.flatMap (F := fun i _ => r.FaultOf g k i) h ?_).congr fun p v => ⟨?_, ?_⟩
  · rintro i j x y p v q u hij ⟨-, hround, hi⟩ ⟨-, hround', hj⟩
    exact Place.before_of_item_lt (hround.trans hround'.symm) hi hj hij
  · rintro ⟨i, x, -, hfault, hround, -⟩
    exact ⟨hfault, hround⟩
  · rintro ⟨hfault, hround⟩
    obtain ⟨i, x, hx, hi⟩ := hitem p v hfault hround
    exact ⟨i, x, hx, hfault, hround, hi⟩

theorem reports_endName {i : Nat} {n : String} (hn : r.ends[i]? = some n) :
    Reports (r.FaultOf g 3 i) (Violation.reportUnless (r.knows n) (.unknownEndState n)) := by
  refine (Reports.reportUnless (.endName i) _ _).congr fun p v => ⟨?_, ?_⟩
  · rintro ⟨rfl, rfl, hok⟩
    exact ⟨.endName hn (knows_eq_false_iff.1 hok), rfl, rfl⟩
  · rintro ⟨hfault, hround, hi⟩
    cases hfault with
    | @endName j m hm hunknown =>
      obtain rfl : j = i := Option.some.inj hi
      obtain rfl : m = n := Option.some.inj (hm.symm.trans hn)
      exact ⟨rfl, rfl, knows_eq_false_iff.2 hunknown⟩
    | _ => cases hround

theorem reports_transition {i : Nat} {t : TransitionRecord} (ht : r.transitions[i]? = some t) :
    Reports (r.FaultOf g 4 i) (r.transitionViolations g.triggers t) := by
  have hsource := Reports.reportUnless (.source i) (r.knows t.source) (.unknownSourceState t.source)
  have htag := Reports.reportUnless (.tag i) (g.triggers.contains t.trigger.tag)
    (.unknownTriggerTag t.trigger.tag)
  have htargets : Reports (fun p v => ∃ j n, t.targets[j]? = some n ∧ p = .target i j ∧
      v = .unknownTargetState t.source n ∧ r.knows n = false)
        (t.targets.flatMap fun n =>
          Violation.reportUnless (r.knows n) (.unknownTargetState t.source n)) := by
    refine Reports.flatMap (fun j n _ => Reports.reportUnless (.target i j) _ _) ?_
    rintro j k n m p v q u hjk ⟨rfl, -, -⟩ ⟨rfl, -, -⟩
    exact .inr ⟨rfl, by simpa [Place.position, List.cons_lt_cons_iff] using hjk⟩
  -- a transition is checked at its source, then at its tag, then at each target
  refine ((hsource.append htag ?_).append htargets ?_).congr fun p v => ⟨?_, ?_⟩
  · rintro p v q u ⟨rfl, -, -⟩ ⟨rfl, -, -⟩
    exact .inr ⟨rfl, by simp [Place.position, List.cons_lt_cons_iff]⟩
  · rintro p v q u (⟨rfl, -, -⟩ | ⟨rfl, -, -⟩) ⟨j, n, -, rfl, -, -⟩
    · exact .inr ⟨rfl, by simp [Place.position, List.cons_lt_cons_iff]⟩
    · exact .inr ⟨rfl, by simp [Place.position, List.cons_lt_cons_iff]⟩
  · rintro ((⟨rfl, rfl, hok⟩ | ⟨rfl, rfl, hok⟩) | ⟨j, n, hn, rfl, rfl, hok⟩)
    · exact ⟨.source ht (knows_eq_false_iff.1 hok), rfl, rfl⟩
    · exact ⟨.tag ht hok, rfl, rfl⟩
    · exact ⟨.target ht hn (knows_eq_false_iff.1 hok), rfl, rfl⟩
  · rintro ⟨hfault, hround, hi⟩
    have hitem : ∀ {j : Nat} {u : TransitionRecord}, r.transitions[j]? = some u →
        some j = some i → j = i ∧ u = t := by
      rintro j u hu ⟨⟩
      exact ⟨rfl, Option.some.inj (hu.symm.trans ht)⟩
    cases hfault with
    | source hu hunknown =>
      obtain ⟨rfl, rfl⟩ := hitem hu hi
      exact .inl (.inl ⟨rfl, rfl, knows_eq_false_iff.2 hunknown⟩)
    | tag hu hunregistered =>
      obtain ⟨rfl, rfl⟩ := hitem hu hi
      exact .inl (.inr ⟨rfl, rfl, hunregistered⟩)
    | target hu hn hunknown =>
      obtain ⟨rfl, rfl⟩ := hitem hu hi
      exact .inr ⟨_, _, hn, rfl, rfl, knows_eq_false_iff.2 hunknown⟩
    | _ => cases hround

/-- One slot of a state holds at most one name. -/
theorem reports_slot (g : CallbackRegistry) (i : Nat) (s : StateRecord) (slot : Slot) :
    Reports (fun p v => p = .callback i slot ∧ ∃ n, s.callbackIn slot = some n ∧
        n ≠ noCallback ∧ g.callbacks.has n = false ∧ v = .unknownCallback s.name n)
      ((s.callbackIn slot).toList.flatMap fun n =>
        Violation.reportUnless (g.contains n) (.unknownCallback s.name n)) := by
  cases s.callbackIn slot with
  | none => exact Reports.nil fun p v ⟨_, n, hn, _⟩ => by cases hn
  | some n =>
    rw [Option.toList_some, List.flatMap_singleton]
    refine (Reports.reportUnless (.callback i slot) _ _).congr fun p v => ⟨?_, ?_⟩
    · rintro ⟨rfl, rfl, hok⟩
      obtain ⟨hmeant, hfree⟩ := contains_eq_false_iff.1 hok
      exact ⟨rfl, n, rfl, hmeant, hfree, rfl⟩
    · rintro ⟨rfl, m, hm, hmeant, hfree, rfl⟩
      obtain rfl : n = m := Option.some.inj hm
      exact ⟨rfl, rfl, contains_eq_false_iff.2 ⟨hmeant, hfree⟩⟩

theorem reports_callbacks {i : Nat} {s : StateRecord} (hs : (r.states ++ [r.error])[i]? = some s) :
    Reports (r.FaultOf g 5 i) (callbackViolations g.callbacks s) := by
  have hslot := reports_slot g.callbacks i s
  rw [callbackViolations_eq]
  refine (((hslot .entry).append (hslot .exit) ?_).append (hslot .stay) ?_).congr
    fun p v => ⟨?_, ?_⟩
  · rintro p v q u ⟨rfl, -⟩ ⟨rfl, -⟩
    exact .inr ⟨rfl, by simp [Place.position, List.cons_lt_cons_iff]⟩
  · rintro p v q u (⟨rfl, -⟩ | ⟨rfl, -⟩) ⟨rfl, -⟩
    · exact .inr ⟨rfl, by simp [Place.position, List.cons_lt_cons_iff]⟩
    · exact .inr ⟨rfl, by simp [Place.position, List.cons_lt_cons_iff]⟩
  · rintro ((⟨rfl, n, hn, hmeant, hfree, rfl⟩ | ⟨rfl, n, hn, hmeant, hfree, rfl⟩) |
      ⟨rfl, n, hn, hmeant, hfree, rfl⟩)
    · exact ⟨.callback hs hn hmeant hfree, rfl, rfl⟩
    · exact ⟨.callback hs hn hmeant hfree, rfl, rfl⟩
    · exact ⟨.callback hs hn hmeant hfree, rfl, rfl⟩
  · rintro ⟨hfault, hround, hi⟩
    cases hfault with
    | @callback j t slot n ht hn hmeant hfree =>
      obtain rfl : j = i := by cases slot <;> exact Option.some.inj hi
      obtain rfl : t = s := Option.some.inj (ht.symm.trans hs)
      cases slot with
      | entry => exact .inl (.inl ⟨rfl, n, hn, hmeant, hfree, rfl⟩)
      | exit => exact .inl (.inr ⟨rfl, n, hn, hmeant, hfree, rfl⟩)
      | stay => exact .inr ⟨rfl, n, hn, hmeant, hfree, rfl⟩
    | _ => cases hround

/-- The checks report the faults. Each round is put behind those before it. -/
theorem reports_violations (r : AutomatonRecord) (g : Registries κ) :
    Reports (r.Fault g) (r.violations g) := by
  have hends : Reports (r.FaultIn g 3)
      (r.ends.flatMap fun n => Violation.reportUnless (r.knows n) (.unknownEndState n)) := by
    refine reports_items (fun i n hn => reports_endName hn) fun p v hfault hround => ?_
    cases hfault with
    | endName hn => exact ⟨_, _, hn, rfl⟩
    | _ => cases hround
  have htransitions : Reports (r.FaultIn g 4)
      (r.transitions.flatMap (r.transitionViolations g.triggers)) := by
    refine reports_items (fun i t ht => reports_transition ht) fun p v hfault hround => ?_
    cases hfault with
    | source ht => exact ⟨_, _, ht, rfl⟩
    | tag ht => exact ⟨_, _, ht, rfl⟩
    | target ht => exact ⟨_, _, ht, rfl⟩
    | _ => cases hround
  have hcallbacks : Reports (r.FaultIn g 5)
      ((r.states ++ [r.error]).flatMap (callbackViolations g.callbacks)) := by
    refine reports_items (fun i s hs => reports_callbacks hs) fun p v hfault hround => ?_
    cases hfault with
    | @callback i s slot n hs => exact ⟨i, s, hs, by cases slot <;> rfl⟩
    | _ => cases hround
  -- all rounds before the next one come before it
  have hround : ∀ {k : Nat} {l m : List Violation},
      Reports (fun p v => r.Fault g p v ∧ p.round < k) l → Reports (r.FaultIn g k) m →
        Reports (fun p v => r.Fault g p v ∧ p.round < k + 1) (l ++ m) := by
    intro k l m hl hm
    refine (hl.append hm ?_).congr fun p v => ?_
    · rintro p v q u ⟨-, hp⟩ ⟨-, hq⟩
      exact .inl (by omega)
    · rw [FaultIn, ← and_or_left, Nat.lt_succ_iff_lt_or_eq]
  have hfirst : Reports (fun p v => r.Fault g p v ∧ p.round < 1) r.stateViolations :=
    (r.reports_states g).congr fun p v => and_congr_right fun _ => by omega
  have hall := hround (hround (hround (hround (hround hfirst (r.reports_error g))
    (r.reports_start g)) hends) htransitions) hcallbacks
  refine hall.congr fun p v => and_iff_left ?_
  cases p <;> simp [Place.round]

end Rounds

/-- The callbacks of a state are known if each is registered or stands for none. -/
theorem contains_callbackNames_iff {g : CallbackRegistry} {s : StateRecord} :
    (∀ n ∈ s.callbackNames, g.contains n = true) ↔
      ∀ slot n, s.callbackIn slot = some n → n = noCallback ∨ g.callbacks.has n = true := by
  simp only [StateRecord.mem_callbackNames, CallbackRegistry.contains, Bool.or_eq_true, beq_iff_eq]
  constructor
  · intro h slot n hn
    cases slot with
    | entry =>
      obtain rfl : s.entry = n := Option.some.inj hn
      by_cases hnone : s.entry = noCallback
      · exact .inl hnone
      · exact h _ (.inl ⟨hnone, rfl⟩)
    | exit => exact h n (.inr (.inl hn))
    | stay => exact h n (.inr (.inr hn))
  · rintro h n (⟨-, rfl⟩ | hn | hn)
    · exact h .entry _ rfl
    · exact h .exit _ hn
    · exact h .stay _ hn

/-- **Every fault is reported in its place.** A record is checked against any registries.

Nothing is reported exactly if the listed names are distinct, the error state is the same as the
first state that is listed under its name, if there is one, the start state, the end states and the
sources and targets of all transitions are known, which is to say that they are the names of listed
states or of the error state, the tags are registered, and each callback of a listed state or of the
error state is registered or stands for none.

In any case the violations are those of the faults, one for each place that is at fault, in the order
of the places. So the faults do not get in the way of each other: if a record has all the faults of
another, and more, then what is reported of the other is reported of it too, in the same order. -/
theorem violations_report (r : AutomatonRecord) (g : Registries κ) :
    (r.violations g = [] ↔ (r.states.map (·.name)).Nodup ∧
      (∀ s, (r.states.find? fun s => s.name == r.error.name) = some s → s = r.error) ∧
      r.start ∈ r.knownNames ∧ (∀ n ∈ r.ends, n ∈ r.knownNames) ∧
      (∀ t ∈ r.transitions, t.source ∈ r.knownNames ∧
        g.triggers.rebuilders.has t.trigger.tag = true ∧ ∀ n ∈ t.targets, n ∈ r.knownNames) ∧
      ∀ s ∈ r.states ++ [r.error], ∀ slot n, s.callbackIn slot = some n →
        n = noCallback ∨ g.callbacks.callbacks.has n = true) ∧
    (∃ faults : List (Place × Violation), r.violations g = faults.map Prod.snd ∧
      (faults.Pairwise fun a b => a.1.Before b.1) ∧ ∀ p v, (p, v) ∈ faults ↔ r.Fault g p v) ∧
    ∀ (q : AutomatonRecord) (u : Registries κ), (∀ p v, q.Fault u p v → r.Fault g p v) →
      (q.violations u).Sublist (r.violations g) := by
  refine ⟨?_, reports_violations r g, fun q u hfewer => ?_⟩
  · rw [violations_eq_nil_iff]
    simp only [← contains_callbackNames_iff]
    constructor
    · intro h
      exact ⟨h.distinct, h.error, h.start, h.ends,
        fun t ht => ⟨h.source t ht, h.tag t ht, h.target t ht⟩, h.callback⟩
    · rintro ⟨hdistinct, herror, hstart, hends, htransitions, hcallbacks⟩
      exact ⟨hdistinct, herror, hstart, hends, fun t ht => (htransitions t ht).1,
        fun t ht => (htransitions t ht).2.1, fun t ht => (htransitions t ht).2.2, hcallbacks⟩
  · exact (reports_violations q u).sublist (reports_violations r g) hfewer

/-- The callback of an error state that is listed is missing in two places. -/
example :
    let error : StateRecord := ⟨"error", "ring", none, none⟩
    let r : AutomatonRecord := ⟨[.named "idle", error, .named "idle"],
      [⟨"busy", ⟨"digit", "1"⟩, ["idle", "done"]⟩], "idle", error, ["busy"]⟩
    r.violations (Registries.initial : Registries κ) =
      [.duplicateState "idle", .unknownEndState "busy", .unknownSourceState "busy",
        .unknownTriggerTag "digit", .unknownTargetState "busy" "done",
        .unknownCallback "error" "ring", .unknownCallback "error" "ring"] := by
  cbv

end AutomatonRecord

end HookedAutomata
