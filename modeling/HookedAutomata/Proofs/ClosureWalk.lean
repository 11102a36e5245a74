import HookedAutomata.Proofs.SilentMoves
import HookedAutomata.Transitions.Lemmas

/-!
# The walk of closure, round by round

Closure is computed by a worklist, and here its walk is taken apart into rounds (`Walk.round`). A
round drops the first waiting state if a state of its name was met, and otherwise meets it and lets
its targets wait. Meanwhile what waits may grow, and a name may wait several times.

Two facts about one round carry the whole walk.

* A round leaves the closure that the walk is heading for as it is (`Walk.closureFrom_of_round`), so
  a walk that has ended has met the closure.
* A round costs something (`Walk.cost_of_round`), so from no position a walk goes on for ever.

What is met in the end is said by the entries of the table alone (`Table.SilentEntry`), as what can
be reached through any number of them. The main statement is `Table.closure_reaches`.
-/

namespace HookedAutomata.Table

variable {κ : Type} [CustomTrigger κ]

/-! ## Rounds -/

/-- A position of the walk: the states met, and those that wait, the first one next. -/
structure Walk where
  met : StateSet
  waiting : List State

namespace Walk

/-- The position from which closure begins. -/
def begin (seeds : StateSet) : Walk := ⟨∅, seeds.toList⟩

/-- The position after one round; there is none where nothing waits. -/
def round (t : Table κ) (p : Walk) : Option Walk :=
  match p.waiting with
  | [] => none
  | s :: waiting =>
    if p.met.has s.name then some ⟨p.met, waiting⟩
    else some ⟨p.met.insert s, waiting ++ t.newlyWaiting (p.met.insert s) s⟩

/-- Rounds lead from one position to another, any number of them. -/
def Leads (t : Table κ) : Walk → Walk → Prop :=
  Relation.ReflTransGen fun p q => p.round t = some q

/-- There are two kinds of rounds. One drops a state whose name was met, and the other meets a state
and lets its targets wait. -/
theorem round_cases {t : Table κ} {p q : Walk} (h : p.round t = some q) :
    ∃ s waiting, p.waiting = s :: waiting ∧
      ((p.met.has s.name = true ∧ q = ⟨p.met, waiting⟩) ∨
        (p.met.has s.name = false ∧
          q = ⟨p.met.insert s, waiting ++ t.newlyWaiting (p.met.insert s) s⟩)) := by
  obtain ⟨met, waiting⟩ := p
  cases waiting with
  | nil => cases h
  | cons s waiting =>
    refine ⟨s, waiting, rfl, ?_⟩
    unfold round at h
    dsimp only at h
    split at h
    · rename_i hmet
      exact .inl ⟨hmet, (Option.some.inj h).symm⟩
    · rename_i hmet
      exact .inr ⟨Bool.not_eq_true _ ▸ hmet, (Option.some.inj h).symm⟩

theorem round_eq_none_iff {t : Table κ} {p : Walk} : p.round t = none ↔ p.waiting = [] := by
  obtain ⟨met, waiting⟩ := p
  cases waiting with
  | nil => exact ⟨fun _ => rfl, fun _ => rfl⟩
  | cons s waiting =>
    unfold round
    dsimp only
    split <;> simp

/-! ## What a round keeps, and what it costs -/

/-- A round leaves the result of the walk as it is. -/
theorem closureFrom_of_round {t : Table κ} {p q : Walk} (h : p.round t = some q) :
    t.closureFrom q.met q.waiting = t.closureFrom p.met p.waiting := by
  obtain ⟨s, waiting, hwaiting, ⟨hmet, rfl⟩ | ⟨hmet, rfl⟩⟩ := round_cases h
  · rw [hwaiting, closureFrom, if_pos hmet]
  · rw [hwaiting, closureFrom, if_neg (by simp [hmet])]

/-- What the walk may still have to do: what waits, and what states not met may let wait. -/
def cost (t : Table κ) (p : Walk) : Nat := t.budget p.met + p.waiting.length

/-- A round takes one state off those that wait. What it lets wait comes off the budget. -/
theorem cost_of_round {t : Table κ} {p q : Walk} (h : p.round t = some q) :
    q.cost t < p.cost t := by
  obtain ⟨s, waiting, hwaiting, ⟨-, rfl⟩ | ⟨hmet, rfl⟩⟩ := round_cases h
  · show t.budget p.met + waiting.length < t.budget p.met + p.waiting.length
    rw [hwaiting, List.length_cons]
    omega
  · have hbudget : t.budget (p.met.insert s) + (t.silent s.name).toList.length ≤ t.budget p.met :=
      t.budget_insert_add_le hmet
    have hnew : (t.newlyWaiting (p.met.insert s) s).length ≤ (t.silent s.name).toList.length :=
      List.length_filter_le ..
    show t.budget (p.met.insert s) + (waiting ++ t.newlyWaiting (p.met.insert s) s).length <
      t.budget p.met + p.waiting.length
    rw [hwaiting, List.length_append, List.length_cons]
    omega

/-! ## Whole walks -/

theorem wellFounded_round (t : Table κ) : WellFounded fun q p : Walk => p.round t = some q := by
  have hcost : Subrelation (fun q p : Walk => p.round t = some q) (measure (cost t)).rel :=
    cost_of_round
  exact hcost.wf (measure (cost t)).wf

/-- From every position the walk comes to an end. -/
theorem exists_leads (t : Table κ) (p : Walk) : ∃ q, Leads t p q ∧ q.round t = none := by
  induction p using (wellFounded_round t).induction with
  | _ p ih =>
    cases hround : p.round t with
    | none => exact ⟨p, .refl, hround⟩
    | some q =>
      obtain ⟨r, hlead, hend⟩ := ih q hround
      exact ⟨r, .head hround hlead, hend⟩

/-- A walk that has ended has met what it was heading for. -/
theorem Leads.met_eq {t : Table κ} {p q : Walk} (h : Leads t p q) (hend : q.round t = none) :
    q.met = t.closureFrom p.met p.waiting := by
  induction h using Relation.ReflTransGen.head_induction_on with
  | refl => rw [round_eq_none_iff.1 hend, closureFrom]
  | head hround _ ih => rw [ih, closureFrom_of_round hround]

end Walk

/-! ## Entries -/

/-- An entry for the trigger without input leads from one name to another. -/
def SilentEntry (t : Table κ) (m n : String) : Prop :=
  ∃ e ∈ t.transitions.entries, e.source.name = m ∧ e.trigger = .epsilon ∧ e.targets.has n = true

/-- What is looked up for the trigger without input is what the entries say. -/
theorem has_silent_iff {t : Table κ} {m n : String} :
    (t.silent m).has n = true ↔ t.SilentEntry m n := by
  unfold silent direct Transitions.targets
  constructor
  · intro h
    cases hfind : t.transitions.find? m .epsilon with
    | none => simp [hfind] at h
    | some e =>
      rw [hfind] at h
      have hfor : e.isFor m .epsilon = true := Transitions.isFor_of_find? hfind
      obtain ⟨hname, htrigger⟩ := Bool.and_eq_true_iff.1 hfor
      refine ⟨e, Transitions.mem_of_find? hfind, beq_iff_eq.1 hname, ?_, h⟩
      rw [Trigger.beq_epsilon] at htrigger
      cases hon : e.trigger with
      | epsilon => rfl
      | text s => simp [hon, Trigger.isEpsilon] at htrigger
      | custom k => simp [hon, Trigger.isEpsilon] at htrigger
  · rintro ⟨e, he, rfl, hon, hn⟩
    have hself : e.isFor e.source.name e.trigger = true := by
      simp [Entry.isFor, hon, Trigger.beq_epsilon, Trigger.isEpsilon]
    have hfind : t.transitions.find? e.source.name .epsilon = some e := by
      rw [← hon]
      exact Transitions.find?_of_mem_of_isFor he hself
    rw [hfind]
    exact hn

theorem silently_iff {t : Table κ} {m n : String} :
    t.Silently m n ↔ Relation.ReflTransGen t.SilentEntry m n := by
  have hmoves : (fun m n => (t.silent m).has n = true) = t.SilentEntry := by
    funext m n
    exact propext has_silent_iff
  unfold Silently
  rw [hmoves]

/-- **Closure is reachability.** Whatever the entries of the table are, no walk goes on for ever,
from no position. The walk from some seeds comes to an end, and wherever it ends it has met their
closure.

The closure has a name exactly if entries for the trigger without input lead to it from the name of
a seed, any number of them. A step leads to a name exactly if such entries lead to it from a direct
target of the step. So it leads nowhere exactly if it has no direct target. -/
theorem closure_reaches (t : Table κ) :
    (WellFounded fun q p : Walk => p.round t = some q) ∧
    (∀ seeds, (∃ q, Walk.Leads t (.begin seeds) q ∧ q.round t = none) ∧
      ∀ q, Walk.Leads t (.begin seeds) q → q.round t = none → q.met = t.closure seeds) ∧
    (∀ seeds n, (t.closure seeds).has n = true ↔
      ∃ m, seeds.has m = true ∧ Relation.ReflTransGen t.SilentEntry m n) ∧
    (∀ m on n, (t.resolve m on).has n = true ↔
      ∃ k, (t.direct m on).has k = true ∧ Relation.ReflTransGen t.SilentEntry k n) ∧
    ∀ m on, (t.resolve m on).isEmpty = true ↔ (t.direct m on).isEmpty = true := by
  refine ⟨Walk.wellFounded_round t, fun seeds => ⟨?_, ?_⟩, fun seeds n => ?_, fun m on n => ?_,
    fun m on => ?_⟩
  · exact Walk.exists_leads t (.begin seeds)
  · intro q hlead hend
    exact hlead.met_eq hend
  · simp only [← silently_iff]
    exact has_closure
  · simp only [← silently_iff]
    exact has_resolve
  · rw [isEmpty_resolve]

end HookedAutomata.Table
