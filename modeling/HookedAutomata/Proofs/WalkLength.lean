import Mathlib.Algebra.Order.BigOperators.Group.List
import Mathlib.Algebra.Order.Ring.Nat
import HookedAutomata.Proofs.ClosureWalk

/-!
# How long the walk of closure is

A name may wait several times, since a target is left out only if it was met, and not if it waits.
So what waits may grow from round to round, and it may hold more states than the table has names.
The walk is short all the same.

A walk is followed through the positions in which it makes its rounds (`Walk.Passes`). Two accounts
are kept of them.

* What is met at the end is what was met at the beginning and what was expanded on the way
  (`Walk.Passes.met_perm`). So no name is expanded twice.
* Those that wait are a queue. What was taken off, and then what still waits, is what waited at the
  beginning, and then what started to wait on the way (`Walk.Passes.taken_append`). What starts to
  wait are targets of states that are expanded.

The main statement is `Table.walk_bounded`.
-/

namespace HookedAutomata.Table

variable {κ : Type} [CustomTrigger κ]

namespace Walk

/-! ## The account of one round -/

/-- The walk makes a round and goes on from there, until there is none to make. -/
theorem closureFrom_eq_elim (t : Table κ) (p : Walk) :
    t.closureFrom p.met p.waiting =
      (p.round t).elim p.met fun q => t.closureFrom q.met q.waiting := by
  cases hround : p.round t with
  | none => rw [round_eq_none_iff.1 hround, closureFrom, Option.elim_none]
  | some q => rw [Option.elim_some, closureFrom_of_round hround]

/-- What a round takes off those that wait: the first, if any waits. -/
def taken (p : Walk) : List State := p.waiting.take 1

/-- What a round expands: the state that it takes off, unless a state of its name was met. -/
def expanded (p : Walk) : List State := p.taken.filter fun s => !p.met.has s.name

/-- What a round lets wait: the targets of what it expands that have not been met. -/
def queued (t : Table κ) (p : Walk) : List State :=
  p.expanded.flatMap fun s => t.newlyWaiting (p.met.insert s) s

/-- What a round expands is met, and nothing else changes among what is met. -/
theorem met_perm_of_round {t : Table κ} {p q : Walk} (h : p.round t = some q) :
    q.met.toList.Perm (p.expanded ++ p.met.toList) := by
  obtain ⟨s, waiting, hwaiting, ⟨hmet, rfl⟩ | ⟨hmet, rfl⟩⟩ := round_cases h
  · have hexpanded : p.expanded = [] := by simp [expanded, taken, hwaiting, hmet]
    rw [hexpanded]
    exact .refl _
  · have hexpanded : p.expanded = [s] := by simp [expanded, taken, hwaiting, hmet]
    rw [hexpanded]
    exact SortedSet.toList_insert_perm hmet

/-- Those that wait are a queue: a round takes off at the front and adds at the back. -/
theorem taken_append_of_round {t : Table κ} {p q : Walk} (h : p.round t = some q) :
    p.taken ++ q.waiting = p.waiting ++ p.queued t := by
  obtain ⟨s, waiting, hwaiting, ⟨hmet, rfl⟩ | ⟨hmet, rfl⟩⟩ := round_cases h
  · simp [queued, expanded, taken, hwaiting, hmet]
  · simp [queued, expanded, taken, hwaiting, hmet]

/-- A round takes off one state. -/
theorem length_taken_of_round {t : Table κ} {p q : Walk} (h : p.round t = some q) :
    p.taken.length = 1 := by
  obtain ⟨s, waiting, hwaiting, -⟩ := round_cases h
  simp [taken, hwaiting]

theorem length_queued_le (t : Table κ) (p : Walk) :
    (p.queued t).length ≤ (p.expanded.map fun s => (t.direct s.name .epsilon).size).sum := by
  unfold queued
  rw [List.length_flatMap]
  exact List.sum_le_sum fun s _ => List.length_filter_le ..

/-! ## The account of a walk -/

/-- Rounds lead from one position to another. The list holds the positions in which they are made,
in their order. -/
inductive Passes (t : Table κ) : Walk → List Walk → Walk → Prop where
  | done (p : Walk) : Passes t p [] p
  | round {p q r : Walk} {l : List Walk} (h : p.round t = some q) (hrest : Passes t q l r) :
    Passes t p (p :: l) r

namespace Passes

variable {t : Table κ} {p q r : Walk} {l m : List Walk}

theorem append (h : Passes t p l q) (hrest : Passes t q m r) : Passes t p (l ++ m) r := by
  induction h with
  | done _ => exact hrest
  | round h _ ih => exact .round h (ih hrest)

theorem leads (h : Passes t p l q) : Leads t p q := by
  induction h with
  | done _ => exact .refl
  | round h _ ih => exact .head h ih

/-- What is met at the end was met at the beginning or was expanded on the way. -/
theorem met_perm (h : Passes t p l q) :
    q.met.toList.Perm (l.flatMap expanded ++ p.met.toList) := by
  induction h with
  | done _ => exact .refl _
  | @round p q r l h _ ih =>
    have hround : q.met.toList.Perm (p.expanded ++ p.met.toList) := met_perm_of_round h
    refine (ih.trans (hround.append_left _)).trans ?_
    rw [List.flatMap_cons, ← List.append_assoc]
    exact List.perm_append_comm.append_right _

/-- What was taken off and what still waits is what waited at the beginning and what started to
wait on the way. -/
theorem taken_append (h : Passes t p l q) :
    l.flatMap taken ++ q.waiting = p.waiting ++ l.flatMap (queued t) := by
  induction h with
  | done p => simp
  | @round p q r l h _ ih =>
    rw [List.flatMap_cons, List.flatMap_cons, List.append_assoc, ih, ← List.append_assoc,
      taken_append_of_round h, List.append_assoc]

theorem length_taken (h : Passes t p l q) : (l.flatMap taken).length = l.length := by
  induction h with
  | done _ => rfl
  | round h _ ih =>
    rw [List.flatMap_cons, List.length_append, ih, length_taken_of_round h, List.length_cons]
    omega

end Passes

theorem Leads.exists_passes {t : Table κ} {p q : Walk} (h : Leads t p q) :
    ∃ l, Passes t p l q := by
  induction h using Relation.ReflTransGen.head_induction_on with
  | refl => exact ⟨[], .done q⟩
  | head hround _ ih =>
    obtain ⟨l, hl⟩ := ih
    exact ⟨_, .round hround hl⟩

theorem length_flatMap_queued_le (t : Table κ) (l : List Walk) :
    (l.flatMap (queued t)).length ≤
      ((l.flatMap expanded).map fun s => (t.direct s.name .epsilon).size).sum := by
  induction l with
  | nil => exact Nat.le_refl _
  | cons p l ih =>
    have hround := length_queued_le t p
    rw [List.flatMap_cons, List.flatMap_cons, List.length_append, List.map_append, List.sum_append]
    omega

end Walk

/-! ## A name that waits twice -/

/-- A table with a cycle, on which one state is the target of two others. -/
def circle : Table κ :=
  .ofTransitions
    ⟨[⟨⟨"idle", 0⟩, .epsilon, ⟨[⟨"busy", 1⟩, ⟨"done", 2⟩], by decide⟩⟩,
      ⟨⟨"busy", 1⟩, .epsilon, .singleton ⟨"done", 2⟩⟩,
      ⟨⟨"done", 2⟩, .epsilon, .singleton ⟨"idle", 0⟩⟩], by simp [Entry.isFor]⟩

/-- The first round lets both targets wait. The second expands one of them, and lets the other wait
once more. -/
theorem circle_queued_again :
    ∃ l p, Walk.Passes (circle : Table κ) (.begin (.singleton ⟨"idle", 0⟩)) l p ∧
      ∃ x ∈ p.queued (circle : Table κ), ∃ y ∈ p.waiting.tail, y.name = x.name := by
  refine ⟨[_], ⟨.singleton ⟨"idle", 0⟩, [⟨"busy", 1⟩, ⟨"done", 2⟩]⟩, .round rfl (.done _),
    ⟨"done", 2⟩, ?_, ⟨"done", 2⟩, ?_, rfl⟩
  · exact List.mem_singleton.2 rfl
  · exact List.mem_singleton.2 rfl

theorem circle_cyclic : Relation.TransGen (circle : Table κ).SilentEntry "idle" "idle" := by
  have hout : (circle : Table κ).SilentEntry "idle" "done" := has_silent_iff.1 rfl
  have hback : (circle : Table κ).SilentEntry "done" "idle" := has_silent_iff.1 rfl
  exact .tail (.single hout) hback

/-! ## The bound -/

/-- A walk that has ended has expanded the closure, each state of it once. -/
theorem Walk.Passes.expanded_perm {t : Table κ} {seeds : StateSet} {l : List Walk} {q : Walk}
    (h : Passes t (.begin seeds) l q) (hend : q.round t = none) :
    (l.flatMap expanded).Perm (t.closure seeds).toList := by
  have hmet : q.met = t.closure seeds := h.leads.met_eq hend
  have hperm : q.met.toList.Perm (l.flatMap expanded ++ []) := h.met_perm
  rw [hmet, List.append_nil] at hperm
  exact hperm.symm

/-- A walk that has ended has taken off the seeds and what started to wait, and what started to wait
are targets of the closure. -/
theorem Walk.Passes.length_le_of_end {t : Table κ} {seeds : StateSet} {l : List Walk} {q : Walk}
    (h : Passes t (.begin seeds) l q) (hend : q.round t = none) :
    l.length ≤ seeds.size +
      ((t.closure seeds).toList.map fun s => (t.direct s.name .epsilon).size).sum := by
  have htaken : l.flatMap taken ++ q.waiting = seeds.toList ++ l.flatMap (queued t) :=
    h.taken_append
  rw [round_eq_none_iff.1 hend, List.append_nil] at htaken
  calc l.length
    _ = (l.flatMap taken).length := h.length_taken.symm
    _ = seeds.size + (l.flatMap (queued t)).length := by
      rw [htaken, List.length_append, SortedSet.size]
    _ ≤ seeds.size + ((l.flatMap expanded).map fun s => (t.direct s.name .epsilon).size).sum :=
      Nat.add_le_add_left (length_flatMap_queued_le t l) _
    _ = seeds.size +
        ((t.closure seeds).toList.map fun s => (t.direct s.name .epsilon).size).sum := by
      rw [((h.expanded_perm hend).map _).sum_eq]

/-- From every position that a walk passes it can be followed to an end. -/
theorem Walk.Passes.exists_append {t : Table κ} {p q : Walk} {l : List Walk}
    (h : Passes t p l q) : ∃ m r, Passes t p (l ++ m) r ∧ r.round t = none := by
  obtain ⟨r, hlead, hend⟩ := exists_leads t q
  obtain ⟨m, hm⟩ := hlead.exists_passes
  exact ⟨m, r, h.append hm, hend⟩

/-- **The walk of closure is bounded.** Whatever the entries of the table are, closure makes rounds
until nothing waits any more.

From any seeds, the walk may be followed for any number of rounds. It then has expanded no name
twice, and only states of the closure. Each round has taken off one state, and there were no more
rounds than there are seeds and targets for the trigger without input, those of all states of the
closure taken together.

So the walk comes to an end. It has met the closure then, and has expanded each state of it. This is
so on tables with cycles too, and although what waits may be made to wait again: there is a table on
which a cycle leads through a seed, and a name waits when it starts to wait once more. -/
theorem walk_bounded :
    (∀ (t : Table κ) (seeds : StateSet),
      (∀ p : Walk, t.closureFrom p.met p.waiting =
        (p.round t).elim p.met fun q => t.closureFrom q.met q.waiting) ∧
      (∀ l q, Walk.Passes t (.begin seeds) l q →
        ((l.flatMap Walk.expanded).map State.name).Nodup ∧
        (∀ s ∈ l.flatMap Walk.expanded, s ∈ t.closure seeds) ∧
        (l.flatMap Walk.taken).length = l.length ∧
        l.length ≤ seeds.size +
          ((t.closure seeds).toList.map fun s => (t.direct s.name .epsilon).size).sum) ∧
      ∃ l q, Walk.Passes t (.begin seeds) l q ∧ q.round t = none ∧ q.met = t.closure seeds ∧
        (l.flatMap Walk.expanded).Perm (t.closure seeds).toList) ∧
    ∃ (t : Table κ) (seeds : StateSet),
      (∃ n, seeds.has n = true ∧ Relation.TransGen t.SilentEntry n n) ∧
      ∃ l p, Walk.Passes t (.begin seeds) l p ∧
        ∃ x ∈ p.queued t, ∃ y ∈ p.waiting.tail, y.name = x.name := by
  refine ⟨fun t seeds => ⟨Walk.closureFrom_eq_elim t, fun l q h => ?_, ?_⟩,
    circle, .singleton ⟨"idle", 0⟩, ⟨"idle", rfl, circle_cyclic⟩, circle_queued_again⟩
  · -- followed to its end, the walk has expanded the closure; so far it has expanded a part of it
    obtain ⟨m, r, hwhole, hend⟩ := h.exists_append
    have hperm : (l.flatMap Walk.expanded ++ m.flatMap Walk.expanded).Perm
        (t.closure seeds).toList := by
      rw [← List.flatMap_append]
      exact hwhole.expanded_perm hend
    have hnames : ((l.flatMap Walk.expanded).map State.name ++
        (m.flatMap Walk.expanded).map State.name).Nodup := by
      rw [← List.map_append]
      exact (hperm.map _).nodup_iff.2 (t.closure seeds).nodup_names
    refine ⟨(List.nodup_append.1 hnames).1, fun s hs => ?_, h.length_taken, ?_⟩
    · exact hperm.mem_iff.1 (List.mem_append_left _ hs)
    · have hle : l.length ≤ (l ++ m).length := by simp
      exact hle.trans (hwhole.length_le_of_end hend)
  · obtain ⟨l, q, h, hend⟩ := (Walk.Passes.done (t := t) (.begin seeds)).exists_append
    exact ⟨_, q, h, hend, h.leads.met_eq hend, h.expanded_perm hend⟩

end HookedAutomata.Table
