import HookedAutomata.Text.Quoted

/-!
# Triggers

A trigger is what one step of an automaton consumes: a text, or a value of the caller's own kind
`κ`. The trigger `Trigger.epsilon` consumes nothing; it labels the moves that closure follows.

The caller's kind brings its own equality, which may be coarser than the spelling of a value, and
for saving a tag and a payload (`CustomTrigger`). Triggers of the three sorts never match one
another, and a custom trigger matches as its kind decides (`Trigger.beq_iff`).
-/

namespace HookedAutomata

/-- A caller's own kind of trigger: an equality that hashing respects, and the tag and payload
under which a value is saved. -/
class CustomTrigger (κ : Type) extends BEq κ, Hashable κ where
  tag : κ → String
  payload : κ → String
  inspect : κ → String

/-- What one step consumes, over the caller's kind `κ` of custom triggers. -/
inductive Trigger (κ : Type) where
  | epsilon
  | text (s : String)
  | custom (k : κ)

namespace Trigger

variable {κ : Type} [CustomTrigger κ]

/-- The tag under which the trigger without input is saved. -/
def epsilonTag : String := "epsilon"

/-- The tag under which texts are saved. -/
def textTag : String := "text"

/-- Whether two triggers match: texts by value, custom triggers as their kind decides. -/
def beq : Trigger κ → Trigger κ → Bool
  | epsilon, epsilon => true
  | text a, text b => a == b
  | custom a, custom b => a == b
  | _, _ => false

instance : BEq (Trigger κ) := ⟨beq⟩

/-- The hash of a trigger; equal triggers have equal hashes where the caller's kind keeps that. -/
instance : Hashable (Trigger κ) where
  hash
    | epsilon => 0
    | text s => mixHash 1 (hash s)
    | custom k => mixHash 2 (hash k)

/-- Two triggers match only within one sort. -/
theorem beq_iff {a b : Trigger κ} :
    (a == b) = true ↔ (a = epsilon ∧ b = epsilon) ∨ (∃ s, a = text s ∧ b = text s) ∨
      ∃ k l, a = custom k ∧ b = custom l ∧ (k == l) = true := by
  change beq a b = true ↔ _
  cases a <;> cases b <;> simp [beq]
  exact eq_comm

/-- Matching triggers form classes where the caller's kind has classes. -/
instance [EquivBEq κ] : EquivBEq (Trigger κ) where
  rfl {a} := by
    change beq a a = true
    cases a <;> simp [beq]
  symm {a b} h := by
    change beq b a = true
    rcases beq_iff.1 h with ⟨rfl, rfl⟩ | ⟨s, rfl, rfl⟩ | ⟨k, l, rfl, rfl, hkl⟩
    · rfl
    · simp [beq]
    · exact BEq.symm hkl
  trans {a b c} hab hbc := by
    change beq a c = true
    rcases beq_iff.1 hab with ⟨rfl, rfl⟩ | ⟨s, rfl, rfl⟩ | ⟨k, l, rfl, rfl, hkl⟩
    · exact hbc
    · exact hbc
    · cases c with
      | custom m => exact BEq.trans hkl hbc
      | _ => cases hbc

/-- Matching triggers have one hash where this is so for the caller's kind. -/
instance [LawfulHashable κ] : LawfulHashable (Trigger κ) where
  hash_eq a b h := by
    rcases beq_iff.1 h with ⟨rfl, rfl⟩ | ⟨s, rfl, rfl⟩ | ⟨k, l, rfl, rfl, hkl⟩
    · rfl
    · rfl
    · change mixHash 2 (hash k) = mixHash 2 (hash l)
      rw [LawfulHashable.hash_eq k l hkl]

def isEpsilon : Trigger κ → Bool
  | epsilon => true
  | _ => false

/-- Only the trigger without input matches the trigger without input. -/
theorem beq_epsilon (t : Trigger κ) : (t == epsilon) = t.isEpsilon := by cases t <;> rfl

def tag : Trigger κ → String
  | epsilon => epsilonTag
  | text _ => textTag
  | custom k => CustomTrigger.tag k

def payload : Trigger κ → String
  | epsilon => ""
  | text s => s
  | custom k => CustomTrigger.payload k

/-- The form used in messages: `ε`, the quoted text, or tag and payload. -/
def display : Trigger κ → String
  | epsilon => "ε"
  | text s => Text.quoted s
  | custom k => CustomTrigger.tag k ++ "(" ++ CustomTrigger.payload k ++ ")"

def inspect : Trigger κ → String
  | epsilon => "Epsilon"
  | text s => "Text(" ++ Text.quoted s ++ ")"
  | custom k => "Custom(" ++ CustomTrigger.inspect k ++ ")"

/-- The listed triggers without repetition; of several equal triggers the first spelling stays. -/
def distinct (l : List (Trigger κ)) : List (Trigger κ) := l.eraseDups

end Trigger

end HookedAutomata
