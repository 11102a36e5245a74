import Mathlib.Logic.Relation
import HookedAutomata.Proofs.NameSets
import HookedAutomata.Table.Closure

/-!
# Closure is reachability

`Table.closure` walks a worklist. What it computes is what a reader would draw: the names that are
reached from the seeds by moves that consume nothing, any number of them (`Table.Silently`).

The walk keeps two facts. What it has met or still holds is reached from the seeds
(`has_closureFrom_sound`). And whatever a name already met leads to was met too, or waits
(`Table.Settled`): so when nothing waits any more, the result is closed under these moves.

* `Table.has_closure`: the closure has a name exactly when it is reached from a seed;
* `Table.has_resolve`: a step leads to what is reached from its direct targets, and so to nothing
  when it has none (`Table.isEmpty_resolve`);
* `Table.mem_closure` and `Table.mem_resolve`: which instances the closure can hold.
-/

namespace HookedAutomata.Table

variable {κ : Type} [CustomTrigger κ]

/-- Moves that consume nothing lead from one name to another, in any number of steps. -/
def Silently (t : Table κ) : String → String → Prop :=
  Relation.ReflTransGen fun m n => (t.silent m).has n = true

/-- What the names already met lead to was met too, or waits. -/
def Settled (t : Table κ) (met : StateSet) (waiting : List State) : Prop :=
  ∀ m n, met.has m = true → (t.silent m).has n = true →
    met.has n = true ∨ ∃ s ∈ waiting, s.name = n

/-! ## What one round of the walk does -/

theorem mem_newlyWaiting {t : Table κ} {met : StateSet} {s x : State} :
    x ∈ t.newlyWaiting met s ↔ x ∈ t.silent s.name ∧ met.has x.name = false := by
  unfold newlyWaiting
  rw [List.mem_filter, Bool.not_eq_true']
  exact Iff.rfl

/-- A round that drops a name met before keeps the walk settled: what waited under that name was
met. -/
theorem Settled.drop {t : Table κ} {met : StateSet} {s : State} {waiting : List State}
    (h : t.Settled met (s :: waiting)) (hmet : met.has s.name = true) : t.Settled met waiting := by
  intro m n hm hn
  rcases h m n hm hn with h | ⟨x, hx, rfl⟩
  · exact .inl h
  · rcases List.mem_cons.1 hx with rfl | hx
    · exact .inl hmet
    · exact .inr ⟨x, hx, rfl⟩

/-- A round that meets a name keeps the walk settled: its own targets were met or start to wait. -/
theorem Settled.meet {t : Table κ} {met : StateSet} {s : State} {waiting : List State}
    (h : t.Settled met (s :: waiting)) :
    t.Settled (met.insert s) (waiting ++ t.newlyWaiting (met.insert s) s) := by
  intro m n hm hn
  rw [SortedSet.has_insert, Bool.or_eq_true, beq_iff_eq] at hm
  cases hmet : (met.insert s).has n with
  | true => exact .inl rfl
  | false =>
    refine .inr ?_
    rcases hm with hm | rfl
    · rcases h m n hm hn with h | ⟨x, hx, rfl⟩
      · simp [h] at hmet
      · rcases List.mem_cons.1 hx with rfl | hx
        · simp at hmet
        · exact ⟨x, List.mem_append_left _ hx, rfl⟩
    · obtain ⟨x, hx, rfl⟩ := SortedSet.has_iff.1 hn
      exact ⟨x, List.mem_append_right _ (mem_newlyWaiting.2 ⟨hx, hmet⟩), rfl⟩

/-! ## The whole walk -/

/-- Nothing is met that the names met or waiting do not lead to. -/
theorem has_closureFrom_sound (t : Table κ) (met : StateSet) (waiting : List State) {n : String}
    (h : (t.closureFrom met waiting).has n = true) :
    met.has n = true ∨ ∃ s ∈ waiting, t.Silently s.name n := by
  fun_induction closureFrom t met waiting with
  | case1 met => exact .inl h
  | case2 met s waiting hmet ih =>
    rcases ih h with h | ⟨x, hx, hxn⟩
    · exact .inl h
    · exact .inr ⟨x, List.mem_cons_of_mem s hx, hxn⟩
  | case3 met s waiting hmet ih =>
    rcases ih h with h | ⟨x, hx, hxn⟩
    · rw [SortedSet.has_insert, Bool.or_eq_true, beq_iff_eq] at h
      rcases h with h | rfl
      · exact .inl h
      · exact .inr ⟨s, List.mem_cons_self, .refl⟩
    · rcases List.mem_append.1 hx with hx | hx
      · exact .inr ⟨x, List.mem_cons_of_mem s hx, hxn⟩
      · -- a target of `s` waits on account of `s`, so the way to `n` begins with that move
        have hmove : (t.silent s.name).has x.name = true :=
          SortedSet.has_of_mem (mem_newlyWaiting.1 hx).1
        exact .inr ⟨s, List.mem_cons_self, .head hmove hxn⟩

/-- What was met stays met, what waits is met in the end, and in the end nothing leads out. -/
theorem has_closureFrom_complete (t : Table κ) (met : StateSet) (waiting : List State)
    (h : t.Settled met waiting) :
    (∀ n, met.has n = true → (t.closureFrom met waiting).has n = true) ∧
      (∀ s ∈ waiting, (t.closureFrom met waiting).has s.name = true) ∧
      ∀ m n, (t.closureFrom met waiting).has m = true → (t.silent m).has n = true →
        (t.closureFrom met waiting).has n = true := by
  fun_induction closureFrom t met waiting with
  | case1 met =>
    refine ⟨fun n hn => hn, fun s hs => absurd hs List.not_mem_nil, fun m n hm hn => ?_⟩
    rcases h m n hm hn with h | ⟨x, hx, -⟩
    · exact h
    · exact absurd hx List.not_mem_nil
  | case2 met s waiting hmet ih =>
    obtain ⟨hkeep, hwait, hclosed⟩ := ih (h.drop hmet)
    refine ⟨hkeep, fun x hx => ?_, hclosed⟩
    rcases List.mem_cons.1 hx with rfl | hx
    · exact hkeep _ hmet
    · exact hwait x hx
  | case3 met s waiting hmet ih =>
    obtain ⟨hkeep, hwait, hclosed⟩ := ih h.meet
    refine ⟨fun n hn => hkeep n (by simp [hn]), fun x hx => ?_, hclosed⟩
    rcases List.mem_cons.1 hx with rfl | hx
    · exact hkeep _ (by simp)
    · exact hwait x (List.mem_append_left _ hx)

/-- The closure has a name exactly when moves that consume nothing lead to it from a seed. -/
theorem has_closure {t : Table κ} {seeds : StateSet} {n : String} :
    (t.closure seeds).has n = true ↔ ∃ m, seeds.has m = true ∧ t.Silently m n := by
  have hsettled : t.Settled ∅ seeds.toList := fun m n hm _ => by simp at hm
  obtain ⟨-, hwait, hclosed⟩ := t.has_closureFrom_complete ∅ seeds.toList hsettled
  constructor
  · intro h
    rcases t.has_closureFrom_sound ∅ seeds.toList h with h | ⟨s, hs, hsn⟩
    · simp at h
    · exact ⟨s.name, SortedSet.has_of_mem hs, hsn⟩
  · rintro ⟨m, hm, hmn⟩
    obtain ⟨s, hs, rfl⟩ := SortedSet.has_iff.1 hm
    induction hmn with
    | refl => exact hwait s hs
    | tail _ hmove ih => exact hclosed _ _ ih hmove

theorem has_closure_of_seed {t : Table κ} {seeds : StateSet} {n : String}
    (h : seeds.has n = true) : (t.closure seeds).has n = true :=
  has_closure.2 ⟨n, h, .refl⟩

/-! ## The targets of a step -/

/-- A step leads to a name exactly when moves that consume nothing lead to it from a direct
target. -/
theorem has_resolve {t : Table κ} {m : String} {on : Trigger κ} {n : String} :
    (t.resolve m on).has n = true ↔ ∃ k, (t.direct m on).has k = true ∧ t.Silently k n := by
  unfold resolve
  split
  · rename_i hempty
    have hnone := SortedSet.isEmpty_iff.1 hempty
    simp [hnone]
  · exact has_closure

/-- A step is dead exactly when it has no direct target. -/
theorem isEmpty_resolve (t : Table κ) (m : String) (on : Trigger κ) :
    (t.resolve m on).isEmpty = (t.direct m on).isEmpty := by
  unfold resolve
  split
  · rfl
  · rename_i hdirect
    rw [Bool.not_eq_true] at hdirect
    obtain ⟨n, hn⟩ := SortedSet.isEmpty_eq_false_iff.1 hdirect
    rw [hdirect]
    exact SortedSet.isEmpty_eq_false_iff.2 ⟨n, has_closure_of_seed hn⟩

/-! ## The instances in a closure -/

theorem mem_closureFrom (t : Table κ) (met : StateSet) (waiting : List State) {x : State}
    (h : x ∈ t.closureFrom met waiting) :
    x ∈ met ∨ x ∈ waiting ∨ ∃ n, x ∈ t.silent n := by
  fun_induction closureFrom t met waiting with
  | case1 met => exact .inl h
  | case2 met s waiting hmet ih =>
    rcases ih h with h | h | h
    · exact .inl h
    · exact .inr (.inl (List.mem_cons_of_mem s h))
    · exact .inr (.inr h)
  | case3 met s waiting hmet ih =>
    rcases ih h with h | h | h
    · rcases SortedSet.mem_insert.1 h with h | ⟨rfl, -⟩
      · exact .inl h
      · exact .inr (.inl List.mem_cons_self)
    · rcases List.mem_append.1 h with h | h
      · exact .inr (.inl (List.mem_cons_of_mem s h))
      · exact .inr (.inr ⟨s.name, (mem_newlyWaiting.1 h).1⟩)
    · exact .inr (.inr h)

/-- An instance in the closure is a seed or stands among the targets of an entry. -/
theorem mem_closure {t : Table κ} {seeds : StateSet} {x : State} (h : x ∈ t.closure seeds) :
    x ∈ seeds ∨ ∃ n on, x ∈ t.direct n on := by
  rcases t.mem_closureFrom ∅ seeds.toList h with h | h | ⟨n, h⟩
  · exact absurd h (SortedSet.not_mem_empty x)
  · exact .inl h
  · exact .inr ⟨n, .epsilon, h⟩

theorem mem_resolve {t : Table κ} {m : String} {on : Trigger κ} {x : State}
    (h : x ∈ t.resolve m on) : ∃ n on, x ∈ t.direct n on := by
  unfold resolve at h
  split at h
  · exact ⟨m, on, h⟩
  · rcases mem_closure h with h | h
    · exact ⟨m, on, h⟩
    · exact h

end HookedAutomata.Table
