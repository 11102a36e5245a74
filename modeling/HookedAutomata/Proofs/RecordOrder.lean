import HookedAutomata.Record.Basic

/-!
# The order of transitions in a record

Transitions are sorted by a test that compares sources, tags and payloads in turn
(`TransitionRecord.le`). It is total and transitive, so a list that is sorted by it is in order.
Transitions that differ in one of the three are strictly in order (`TransitionRecord.before_of_le`),
and those that do not may stand in either order (`TransitionRecord.ties_iff`).
-/

namespace HookedAutomata.TransitionRecord

/-- One transition stands before another: by source, then by tag, then by payload. -/
def Before (a b : TransitionRecord) : Prop :=
  a.source < b.source ∨ a.source = b.source ∧ (a.trigger.tag < b.trigger.tag ∨
    a.trigger.tag = b.trigger.tag ∧ a.trigger.payload < b.trigger.payload)

def order (a b : TransitionRecord) : Ordering :=
  (compare a.source b.source).then (a.trigger.order b.trigger)

instance : Std.TransCmp order :=
  inferInstanceAs (Std.TransCmp (compareLex (compareOn source)
    (compareLex (compareOn (·.trigger.tag)) (compareOn (·.trigger.payload)))))

theorem le_trans (a b c : TransitionRecord) (hab : a.le b = true) (hbc : b.le c = true) :
    a.le c = true := by
  have htrans : Std.TransCmp order := inferInstance
  exact htrans.isLE_trans hab hbc

theorem le_total (a b : TransitionRecord) : (a.le b || b.le a) = true := by
  have horiented : Std.OrientedCmp order := inferInstance
  have hswap : b.order a = (a.order b).swap := horiented.eq_swap
  show ((a.order b).isLE || (b.order a).isLE) = true
  rw [hswap]
  cases a.order b <;> rfl

/-- Whether two transitions have one source and one trigger. -/
def Ties (a b : TransitionRecord) : Prop := a.source = b.source ∧ a.trigger = b.trigger

instance (a b : TransitionRecord) : Decidable (a.Ties b) :=
  inferInstanceAs (Decidable (a.source = b.source ∧ a.trigger = b.trigger))

theorem order_eq_eq {a b : TransitionRecord} : a.order b = .eq ↔ a.Ties b := by
  unfold order TriggerRecord.order Ties
  rw [Ordering.then_eq_eq, Ordering.then_eq_eq, Std.compare_eq_iff_eq, Std.compare_eq_iff_eq,
    Std.compare_eq_iff_eq]
  refine and_congr_right' ⟨fun ⟨htag, hpayload⟩ => ?_, fun h => ⟨by rw [h], by rw [h]⟩⟩
  calc a.trigger = ⟨a.trigger.tag, a.trigger.payload⟩ := rfl
    _ = b.trigger := by rw [htag, hpayload]

theorem before_of_le {a b : TransitionRecord} (h : a.le b = true) (hne : ¬ a.Ties b) :
    a.Before b := by
  have hlt : ∀ s t : String, compare s t = .lt ↔ s < t := fun _ _ => compareOfLessAndEq_eq_lt
  have hcases : a.order b = .lt ∨ a.order b = .eq := Ordering.isLE_iff_eq_lt_or_eq_eq.1 h
  rcases hcases with hbefore | hsame
  · unfold order TriggerRecord.order at hbefore
    simp only [Ordering.then_eq_lt, hlt, Std.compare_eq_iff_eq] at hbefore
    exact hbefore
  · exact absurd (order_eq_eq.1 hsame) hne

/-- Transitions that stand in either order are those of one source and one trigger. -/
theorem ties_iff {a b : TransitionRecord} : a.Ties b ↔ a.le b = true ∧ b.le a = true := by
  have horiented : Std.OrientedCmp order := inferInstance
  have hswap : b.order a = (a.order b).swap := horiented.eq_swap
  show _ ↔ (a.order b).isLE = true ∧ (b.order a).isLE = true
  rw [← order_eq_eq, hswap]
  cases a.order b <;> simp

end HookedAutomata.TransitionRecord
