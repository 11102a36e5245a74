import HookedAutomata.SortedSet.Lemmas
import HookedAutomata.Table.Basic

/-!
# Following moves that consume nothing

`Table.closure` is the smallest set that contains the given states and, with each state, the
targets of its entry for `Trigger.epsilon`. It is computed by a worklist: the first waiting state
is dropped if it was met before, and otherwise joins the result while its targets start to wait.

A state may wait several times, since only states already met are left out. The walk ends all the
same: a state that is met uses up its own entry for `Trigger.epsilon`, whose targets are the only
ones that start to wait on its account (`Table.budget_insert_add_le`).

`Table.resolve` gives the states that a step leads to: the closure of the direct targets. Where
there are none, nothing is closed, and the step is dead.
-/

namespace HookedAutomata.Table

variable {κ : Type} [CustomTrigger κ]

/-- The targets of a state by moves that consume nothing. -/
def silent (t : Table κ) (name : String) : StateSet := t.direct name .epsilon

/-! ## The measure of the walk -/

/-- How many targets the entries of `l` for `Trigger.epsilon` have at states not in `met`. -/
def silentCount (met : StateSet) (l : List (Entry κ)) : Nat :=
  (l.filter fun e => e.trigger.isEpsilon && !met.has e.source.name).foldr
    (fun e n => e.targets.size + n) 0

/-- How many targets may still start to wait once the states of `met` have been met. -/
def budget (t : Table κ) (met : StateSet) : Nat := silentCount met t.transitions.entries

/-- Meeting a state uses up the targets of its own entry. -/
theorem silentCount_insert_add_le (met : StateSet) (s : State) (h : met.has s.name = false)
    (l : List (Entry κ)) :
    silentCount (met.insert s) l +
        ((l.find? fun e => e.isFor s.name .epsilon).map (·.targets.size)).getD 0 ≤
      silentCount met l := by
  induction l with
  | nil => simp [silentCount]
  | cons e l ih =>
    have hrest : silentCount (met.insert s) l ≤ silentCount met l := by omega
    have hcons : ∀ m : StateSet, silentCount m (e :: l) =
        (if e.trigger.isEpsilon && !m.has e.source.name then e.targets.size else 0) +
          silentCount m l := by
      intro m
      unfold silentCount
      rw [List.filter_cons]
      split <;> simp
    rw [hcons, hcons, List.find?_cons]
    by_cases hname : e.source.name = s.name
    · by_cases heps : e.trigger.isEpsilon = true
      · -- the entry of the state that is met: counted before, and not afterwards
        have hfor : e.isFor s.name .epsilon = true := by
          simp [Entry.isFor, hname, Trigger.beq_epsilon, heps]
        simp [hfor, hname, heps, h]
        omega
      · have hfor : e.isFor s.name .epsilon = false := by
          simp [Entry.isFor, Trigger.beq_epsilon, heps]
        simp [hfor, heps]
        omega
    · have hfor : e.isFor s.name .epsilon = false := by simp [Entry.isFor, hname]
      have hne : (s.name == e.source.name) = false := by simpa using Ne.symm hname
      simp only [hfor, SortedSet.has_insert, Named.name_state, hne, Bool.or_false]
      omega

/-- What starts to wait when a state is met for the first time comes off the budget. -/
theorem budget_insert_add_le (t : Table κ) {met : StateSet} {s : State}
    (h : met.has s.name = false) :
    t.budget (met.insert s) + (t.silent s.name).toList.length ≤ t.budget met := by
  have hsize : (t.silent s.name).toList.length =
      ((t.transitions.entries.find? fun e => e.isFor s.name .epsilon).map
        (·.targets.size)).getD 0 := by
    unfold silent direct Transitions.targets Transitions.find?
    split <;> rename_i hfind <;> rw [hfind] <;> rfl
  rw [hsize]
  exact silentCount_insert_add_le met s h t.transitions.entries

/-! ## The walk -/

/-- What a state that is met makes wait: its targets that have not been met. -/
def newlyWaiting (t : Table κ) (met : StateSet) (s : State) : List State :=
  (t.silent s.name).toList.filter fun target => !met.has target.name

/-- The walk from the states already met and those that wait, the first one next. -/
def closureFrom (t : Table κ) (met : StateSet) : List State → StateSet
  | [] => met
  | s :: waiting =>
    if met.has s.name then closureFrom t met waiting
    else closureFrom t (met.insert s) (waiting ++ t.newlyWaiting (met.insert s) s)
  termination_by waiting => t.budget met + waiting.length
  decreasing_by
    · simp
    · rename_i h
      have hbudget := t.budget_insert_add_le (by simpa using h : met.has s.name = false)
      have hnew : (t.newlyWaiting (met.insert s) s).length ≤ (t.silent s.name).toList.length :=
        List.length_filter_le ..
      simp only [List.length_append, List.length_cons]
      omega

/-- The smallest set that contains the given states and follows moves that consume nothing. -/
def closure (t : Table κ) (seeds : StateSet) : StateSet := t.closureFrom ∅ seeds.toList

/-- The states that a step leads to: the closure of the direct targets, or nothing where there are
none. -/
def resolve (t : Table κ) (name : String) (on : Trigger κ) : StateSet :=
  if (t.direct name on).isEmpty then t.direct name on else t.closure (t.direct name on)

end HookedAutomata.Table
