import HookedAutomata.Draft
import HookedAutomata.Proofs.NameSets

/-!
# What the calls on a draft do

A draft looks up every name it is given, and does nothing else that can fail. So each call is told
by one statement that says what it yields when the names are known and how it is refused when one is
not (`Draft.lookup_cases` and the like). What an added transition refers to are states of the draft
(`Entry.Over`).
-/

namespace HookedAutomata

variable {κ : Type} [CustomTrigger κ]

/-- The entry has a source, a trigger and targets of the given names, all of them among the given
states. -/
structure Entry.Over (states : StateSet) (n : String) (on : Trigger κ) (ns : List String)
    (e : Entry κ) : Prop where
  source_mem : e.source ∈ states
  source_name : e.source.name = n
  trigger : e.trigger = on
  targets_mem : ∀ s ∈ e.targets, s ∈ states
  has_targets : ∀ m, e.targets.has m = true ↔ m ∈ ns

namespace Draft

theorem lookup_of_mem {d : Draft κ} {s : State} (h : s ∈ d.states) : d.lookup s.name = .ok s := by
  have hfind : d.state? s.name = some s := SortedSet.find?_eq_some_iff.2 ⟨h, rfl⟩
  unfold lookup
  rw [hfind]

theorem lookup_cases (d : Draft κ) (n : String) :
    (∃ s ∈ d.states, s.name = n ∧ d.lookup n = .ok s) ∨
      (d.hasState n = false ∧ d.lookup n = .error (.unknownState n)) := by
  cases hn : d.hasState n with
  | true =>
    obtain ⟨s, hs, rfl⟩ := SortedSet.has_iff.1 hn
    exact .inl ⟨s, hs, rfl, lookup_of_mem hs⟩
  | false =>
    have hfind : d.state? n = none := by simpa [state?, hasState, SortedSet.has] using hn
    refine .inr ⟨rfl, ?_⟩
    unfold lookup
    rw [hfind]

/-- Names are looked up in order, until one is unknown. -/
theorem mapM_lookup_cases (d : Draft κ) (ns : List String) :
    (∃ l, ns.mapM d.lookup = .ok l ∧ (∀ s ∈ l, s ∈ d.states) ∧ l.map (·.name) = ns) ∨
      ∃ before n after, ns = before ++ n :: after ∧ (∀ m ∈ before, d.hasState m = true) ∧
        d.hasState n = false ∧ ns.mapM d.lookup = .error (.unknownState n) := by
  induction ns with
  | nil => exact .inl ⟨[], rfl, fun s hs => absurd hs List.not_mem_nil, rfl⟩
  | cons n ns ih =>
    rw [List.mapM_cons]
    -- an unknown name ends the lookups, whatever comes after it
    rcases d.lookup_cases n with ⟨s, hs, rfl, hlookup⟩ | ⟨hn, hlookup⟩
    · rw [hlookup]
      rcases ih with ⟨l, hl, hmem, hnames⟩ | ⟨before, m, after, hns, hbefore, hm, hl⟩
      · rw [hl]
        refine .inl ⟨s :: l, rfl, fun t ht => ?_, by rw [List.map_cons, hnames]⟩
        rcases List.mem_cons.1 ht with rfl | ht
        · exact hs
        · exact hmem t ht
      · rw [hl]
        refine .inr ⟨s.name :: before, m, after, by rw [hns]; rfl, fun k hk => ?_, hm, rfl⟩
        rcases List.mem_cons.1 hk with rfl | hk
        · exact SortedSet.has_of_mem hs
        · exact hbefore k hk
    · rw [hlookup]
      exact .inr ⟨[], n, ns, rfl, fun k hk => absurd hk List.not_mem_nil, hn, rfl⟩

theorem addState_cases (d : Draft κ) (s : State) :
    (d.hasState s.name = false ∧ d.addState s = .ok { d with states := d.states.insert s }) ∨
      (d.hasState s.name = true ∧ d.addState s = .error (.duplicateState s.name)) := by
  unfold addState
  cases hs : d.hasState s.name with
  | false => exact .inl ⟨rfl, if_neg (by simp)⟩
  | true => exact .inr ⟨rfl, if_pos rfl⟩

theorem addEnd_cases (d : Draft κ) (n : String) :
    (d.hasState n = true ∧ d.addEnd n = .ok { d with endNames := d.endNames.insert n }) ∨
      (d.hasState n = false ∧ d.addEnd n = .error (.unknownState n)) := by
  unfold addEnd
  rcases d.lookup_cases n with ⟨s, hs, rfl, hlookup⟩ | ⟨hn, hlookup⟩
  · rw [hlookup]
    exact .inl ⟨SortedSet.has_of_mem hs, rfl⟩
  · rw [hlookup]
    exact .inr ⟨hn, rfl⟩

theorem setStart_cases (d : Draft κ) (n : String) :
    (∃ s ∈ d.states, s.name = n ∧ d.setStart n = .ok { d with start := some s }) ∨
      (d.hasState n = false ∧ d.setStart n = .error (.unknownState n)) := by
  unfold setStart
  rcases d.lookup_cases n with ⟨s, hs, rfl, hlookup⟩ | ⟨hn, hlookup⟩
  · rw [hlookup]
    exact .inl ⟨s, hs, rfl, rfl⟩
  · rw [hlookup]
    exact .inr ⟨hn, rfl⟩

theorem setError_cases (d : Draft κ) (n : String) :
    (∃ s ∈ d.states, s.name = n ∧ d.setError n = .ok { d with error := some s }) ∨
      (d.hasState n = false ∧ d.setError n = .error (.unknownState n)) := by
  unfold setError
  rcases d.lookup_cases n with ⟨s, hs, rfl, hlookup⟩ | ⟨hn, hlookup⟩
  · rw [hlookup]
    exact .inl ⟨s, hs, rfl, rfl⟩
  · rw [hlookup]
    exact .inr ⟨hn, rfl⟩

/-- A transition is added over the states of the draft, or an unknown name is reported: the source
before the targets, and of these the first. -/
theorem addTransition_cases (d : Draft κ) (n : String) (on : Trigger κ) (ns : List String) :
    (∃ e, e.Over d.states n on ns ∧
        d.addTransition n on ns = .ok { d with transitions := d.transitions.merge e }) ∨
      (d.hasState n = false ∧ d.addTransition n on ns = .error (.unknownState n)) ∨
      (d.hasState n = true ∧ ∃ before m after, ns = before ++ m :: after ∧
        (∀ k ∈ before, d.hasState k = true) ∧ d.hasState m = false ∧
        d.addTransition n on ns = .error (.unknownState m)) := by
  unfold addTransition
  rcases d.lookup_cases n with ⟨s, hs, rfl, hlookup⟩ | ⟨hn, hlookup⟩
  · rw [hlookup]
    rcases d.mapM_lookup_cases ns with ⟨l, hl, hmem, hnames⟩ | ⟨before, m, after, hns, hbefore, hm, hl⟩
    · rw [hl]
      refine .inl ⟨⟨s, on, .collect l⟩, ⟨hs, rfl, rfl, ?_, ?_⟩, rfl⟩
      · intro t ht
        exact hmem t (SortedSet.mem_collect ht)
      · intro m
        rw [SortedSet.has_collect, ← hnames]
        simp
    · rw [hl]
      exact .inr (.inr ⟨SortedSet.has_of_mem hs, before, m, after, hns, hbefore, hm, rfl⟩)
  · rw [hlookup]
    exact .inr (.inl ⟨hn, rfl⟩)

theorem addTransition_of_has {d : Draft κ} {n : String} {ns : List String}
    (hn : d.hasState n = true) (hns : ∀ m ∈ ns, d.hasState m = true) (on : Trigger κ) :
    ∃ e, e.Over d.states n on ns ∧
      d.addTransition n on ns = .ok { d with transitions := d.transitions.merge e } := by
  rcases d.addTransition_cases n on ns with h | ⟨h, -⟩ | ⟨-, before, m, after, rfl, -, h, -⟩
  · exact h
  · simp [h] at hn
  · have hm : d.hasState m = true := hns m (by simp)
    simp [h] at hm

end Draft

end HookedAutomata
