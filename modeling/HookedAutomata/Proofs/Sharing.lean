import HookedAutomata.Proofs.Drafts
import HookedAutomata.Proofs.Editing

/-!
# Drafted automata share their instances

Whatever calls are made on a draft, all that it refers to are states that were added to it
(`Draft.Sound`), and of these there is one for each name. So an automaton that is built has one
instance of each name, its start and its error state included (`Automaton.Shared`), and edits keep
this (`Automaton.Shared.edited`).
-/

namespace HookedAutomata

variable {κ : Type} [CustomTrigger κ]

/-! ## Drafts -/

namespace Draft

/-- A call on a draft, with its arguments. -/
inductive Call (κ : Type) where
  | addState (s : State)
  | addEnd (name : String)
  | setStart (name : String)
  | setError (name : String)
  | addTransition (source : String) (on : Trigger κ) (targets : List String)
  | clear

def call (d : Draft κ) : Call κ → Except BuildError (Draft κ)
  | .addState s => d.addState s
  | .addEnd name => d.addEnd name
  | .setStart name => d.setStart name
  | .setError name => d.setError name
  | .addTransition source on targets => d.addTransition source on targets
  | .clear => .ok ∅

/-- The draft after calls; one that is refused leaves it as it is. -/
def after (d : Draft κ) (l : List (Call κ)) : Draft κ :=
  l.foldl (fun d c => (d.call c).toOption.getD d) d

/-- All that the draft refers to are states that were added to it. -/
structure Sound (d : Draft κ) : Prop where
  start : ∀ s ∈ d.start, s ∈ d.states
  error : ∀ s ∈ d.error, s ∈ d.states
  transitions : ∀ s ∈ d.transitions.states, s ∈ d.states

theorem sound_empty : (∅ : Draft κ).Sound :=
  ⟨fun _ hs => absurd hs nofun, fun _ hs => absurd hs nofun,
    fun _ hs => absurd hs List.not_mem_nil⟩

theorem Sound.call {d d' : Draft κ} (h : d.Sound) {c : Call κ} (hcall : d.call c = .ok d') :
    d'.Sound := by
  cases c with
  | addState s =>
    rcases d.addState_cases s with ⟨-, hadd⟩ | ⟨-, hadd⟩
    · obtain rfl := Except.ok.inj (hadd.symm.trans hcall)
      have hkeep : ∀ x ∈ d.states, x ∈ d.states.insert s :=
        fun x hx => SortedSet.mem_insert.2 (.inl hx)
      exact ⟨fun x hx => hkeep x (h.start x hx), fun x hx => hkeep x (h.error x hx),
        fun x hx => hkeep x (h.transitions x hx)⟩
    · cases hadd.symm.trans hcall
  | addEnd n =>
    rcases d.addEnd_cases n with ⟨-, hadd⟩ | ⟨-, hadd⟩
    · obtain rfl := Except.ok.inj (hadd.symm.trans hcall)
      exact ⟨h.start, h.error, h.transitions⟩
    · cases hadd.symm.trans hcall
  | setStart n =>
    rcases d.setStart_cases n with ⟨s, hs, -, hset⟩ | ⟨-, hset⟩
    · obtain rfl := Except.ok.inj (hset.symm.trans hcall)
      exact ⟨fun x hx => Option.some.inj hx ▸ hs, h.error, h.transitions⟩
    · cases hset.symm.trans hcall
  | setError n =>
    rcases d.setError_cases n with ⟨s, hs, -, hset⟩ | ⟨-, hset⟩
    · obtain rfl := Except.ok.inj (hset.symm.trans hcall)
      exact ⟨h.start, fun x hx => Option.some.inj hx ▸ hs, h.transitions⟩
    · cases hset.symm.trans hcall
  | addTransition n on ns =>
    rcases d.addTransition_cases n on ns with ⟨e, he, hadd⟩ | ⟨-, hadd⟩ | ⟨-, -, m, -, -, -, -, hadd⟩
    · obtain rfl := Except.ok.inj (hadd.symm.trans hcall)
      refine ⟨h.start, h.error, fun x hx => ?_⟩
      rcases Transitions.mem_states_merge hx with hx | hx
      · exact h.transitions x hx
      · rcases Transitions.mem_entry_states.1 hx with rfl | hx
        · exact he.source_mem
        · exact he.targets_mem x hx
    · cases hadd.symm.trans hcall
    · cases hadd.symm.trans hcall
  | clear =>
    obtain rfl := Except.ok.inj hcall
    exact sound_empty

/-- What every call that is taken keeps holds after calls, as a refused one changes nothing. -/
theorem after_invariant {P : Draft κ → Prop}
    (hcall : ∀ {d d' : Draft κ} {c : Call κ}, P d → d.call c = .ok d' → P d') {d : Draft κ}
    (h : P d) (l : List (Call κ)) : P (d.after l) := by
  induction l generalizing d with
  | nil => exact h
  | cons c l ih =>
    show P (((d.call c).toOption.getD d).after l)
    cases hc : d.call c with
    | error e => exact ih h
    | ok d' => exact ih (hcall h hc)

theorem Sound.after {d : Draft κ} (h : d.Sound) (l : List (Call κ)) : (d.after l).Sound :=
  after_invariant (fun h hc => h.call hc) h l

end Draft

/-! ## Automata -/

namespace Automaton

/-- The automaton was built from a draft, after some calls. -/
def Drafted (a : Automaton κ) : Prop :=
  ∃ calls : List (Draft.Call κ), ((∅ : Draft κ).after calls).build = .ok a

/-- There is one instance of each name, and start and error state are pinned. -/
structure Shared (a : Automaton κ) : Prop where
  start : a.start ∈ a.table.pinned
  error : a.error ∈ a.table.pinned
  one : ∀ n, OneInstance a.table.instances n

/-- An automaton over the states of a set shares them. -/
theorem shared_of_subset {a : Automaton κ} {states : StateSet} {m : Transitions κ}
    (htable : a.table = ((Table.ofTransitions m).pin a.start).pin a.error)
    (hstart : a.start ∈ states) (herror : a.error ∈ states) (hm : ∀ x ∈ m.states, x ∈ states) :
    a.Shared ∧ ∀ x ∈ a.table.instances, x ∈ states := by
  have hinstances : ∀ x ∈ a.table.instances, x ∈ states := by
    intro x hx
    rw [htable] at hx
    rcases Table.mem_instances_pin hx with rfl | ⟨-, hx⟩
    · exact herror
    · rcases Table.mem_instances_pin hx with rfl | ⟨-, hx⟩
      · exact hstart
      · exact hm x hx
  refine ⟨⟨?_, ?_, fun n x hx y hy hxn hyn => ?_⟩, hinstances⟩
  · have hnames : a.start.name ≠ a.error.name ∨ a.start = a.error := by
      by_cases hname : a.start.name = a.error.name
      · exact .inr (SortedSet.eq_of_mem_of_name_eq hstart herror hname)
      · exact .inl hname
    rw [htable]
    exact Table.mem_pinned_pin_pin _ hnames
  · rw [htable]
    exact Table.mem_pinned_pin _ _
  · exact SortedSet.eq_of_mem_of_name_eq (hinstances x hx) (hinstances y hy) (hxn.trans hyn.symm)

/-- A drafted automaton shares its instances. -/
theorem Drafted.shared {a : Automaton κ} (h : a.Drafted) : a.Shared := by
  obtain ⟨calls, hbuild⟩ := h
  have hsound := Draft.sound_empty.after calls
  -- of the calls nothing matters but that the draft is sound
  revert hbuild hsound
  generalize (∅ : Draft κ).after calls = d
  intro hbuild hsound
  unfold Draft.build at hbuild
  split at hbuild
  · cases hbuild
  · cases hbuild
  · rename_i start error hstart herror
    obtain rfl := Except.ok.inj hbuild
    have hshared := shared_of_subset (a := assemble start error d.endNames (.ofTransitions d.transitions))
      rfl (hsound.start start hstart) (hsound.error error herror) hsound.transitions
    exact hshared.1

theorem Shared.edited {a : Automaton κ} (h : a.Shared) (l : List (Table.Edit κ)) :
    (a.edited l).Shared where
  start := by
    show a.start ∈ (a.table.edited l).pinned
    rw [Table.pinned_edited]
    exact h.start
  error := by
    show a.error ∈ (a.table.edited l).pinned
    rw [Table.pinned_edited]
    exact h.error
  one n := Table.oneInstance_edited (h.one n) l

/-- The table knows all instances that its entries have, and the start and the error state. -/
theorem Shared.mem_instances {a : Automaton κ} (h : a.Shared) {x : State}
    (hx : x ∈ a.table.transitions.states ∨ x = a.start ∨ x = a.error) : x ∈ a.table.instances := by
  rcases hx with hx | rfl | rfl
  · exact Table.mem_instances.2 (.inr hx)
  · exact Table.mem_instances.2 (.inl h.start)
  · exact Table.mem_instances.2 (.inl h.error)

theorem Shared.mem_states {a : Automaton κ} (h : a.Shared) {x : State}
    (hx : x ∈ a.table.transitions.states ∨ x = a.start ∨ x = a.error) : x ∈ a.states := by
  have hhas : a.states.has x.name = true := by
    rcases hx with hx | rfl | rfl
    · exact has_states.2 (.inl (Table.has_states_of_mem hx))
    · exact has_states.2 (.inr (.inl rfl))
    · exact has_states.2 (.inr (.inr rfl))
  -- the state of that name is `x`, there being one instance of each name
  obtain ⟨y, hy, hname⟩ := SortedSet.has_iff.1 hhas
  have hinstance : y ∈ a.table.instances := h.mem_instances (Automaton.mem_states hy)
  rw [h.one x.name x (h.mem_instances hx) y hinstance rfl hname]
  exact hy

end Automaton

end HookedAutomata
