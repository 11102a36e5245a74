import HookedAutomata.Text.Visible.Ranges

/-!
# Which characters are shown as themselves

A quoted text writes a character as itself only where a reader can see it. Characters that are
blank, code points that have no character and characters that combine with the one before them are
written by their code point instead.

Main statement: every printable character of the basic alphabet is shown as itself
(`isVisible_of_printable`).
-/

namespace HookedAutomata.Text

/-- Whether a code point lies in one of the ranges. -/
def inRanges (ranges : List (Nat × Nat)) (code : Nat) : Bool :=
  ranges.any fun r => r.1 ≤ code && code ≤ r.2

/-- Whether a character is shown as itself. The printable part of the basic alphabet is, without a
look at the tables. -/
def isVisible (c : Char) : Bool :=
  if 0x20 ≤ c.toNat && c.toNat < 0x7F then true
  else !(inRanges blankRanges c.toNat || inRanges combiningRanges c.toNat)

/-- The printable part of the basic alphabet is shown as itself. -/
theorem isVisible_of_printable {c : Char} (hlow : 0x20 ≤ c.toNat) (hhigh : c.toNat < 0x7F) :
    isVisible c = true := by
  simp [isVisible, hlow, hhigh]

end HookedAutomata.Text
