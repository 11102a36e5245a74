/-!
# How large a number may be

Numbers are held with 53 significant bits, and the largest of them are just below the power of two
`2 ^ 1024`. What is read as digits and a power of ten is held as the product of the two, each of
them rounded first (`Magnitude.round`). So a number close to the bound may be too large although its
exact value is not, and the other way round.

Main statements: rounding keeps numbers of up to 53 bits (`round_of_lt`), moves others by half a
unit at most (`round_near`), and takes the even neighbour where two are equally near
(`round_tie_even`).
-/

namespace HookedAutomata.Magnitude

/-- The least power of two by which a number is cut so that 53 bits remain. -/
def unit (n : Nat) : Nat := Nat.pow 2 (n.log2 - 52)

/-- The number of units, rounded to the nearest and to the even one of two that are equally near. -/
def roundedUnits (n : Nat) : Nat :=
  let whole := n / unit n
  let rest := 2 * (n % unit n)
  if rest < unit n then whole
  else if unit n < rest then whole + 1
  else whole + whole % 2

def round (n : Nat) : Nat := roundedUnits n * unit n

/-- The least value that is too large: the middle between the largest number that can be held and
the power of two above it. -/
def bound : Nat := Nat.pow 2 1024 - Nat.pow 2 970

/-- Whether `m * 10 ^ e` is too large, read as the product of `m` and the power of ten. Powers of
ten are known up to the largest that can be held, and a negative power makes no number too large. -/
def isTooLarge (m : Nat) (e : Int) : Bool :=
  m != 0 && 0 ≤ e && (308 < e || bound ≤ round m * round (Nat.pow 10 e.toNat))

/-! ## Rounding -/

theorem unit_pos (n : Nat) : 0 < unit n := Nat.two_pow_pos _

theorem round_of_lt {n : Nat} (h : n < Nat.pow 2 53) : round n = n := by
  have hunit : unit n = 1 := by
    have hlog : n.log2 < 53 := by
      by_cases hn : n = 0
      · simp [hn]
      · exact (Nat.log2_lt hn).2 h
    rw [unit, show n.log2 - 52 = 0 by omega]
  simp [round, roundedUnits, hunit, Nat.mod_one]

theorem round_near (n : Nat) :
    2 * round n ≤ 2 * n + unit n ∧ 2 * n ≤ 2 * round n + unit n := by
  have hdiv := Nat.div_add_mod n (unit n)
  have hcomm : unit n * (n / unit n) = n / unit n * unit n := Nat.mul_comm ..
  have hsucc : (n / unit n + 1) * unit n = n / unit n * unit n + unit n := Nat.succ_mul ..
  have hlt := Nat.mod_lt n (unit_pos n)
  unfold round roundedUnits
  dsimp only
  split
  · omega
  · split
    · omega
    · have hparity : n / unit n % 2 = 0 ∨ n / unit n % 2 = 1 := by omega
      rcases hparity with h | h <;> rw [h]
      · rw [Nat.add_zero]
        omega
      · omega

/-- Half-way between two units the even one is taken. -/
theorem round_tie_even {n : Nat} (h : 2 * (n % unit n) = unit n) : roundedUnits n % 2 = 0 := by
  unfold roundedUnits
  dsimp only
  rw [h, if_neg (Nat.lt_irrefl _), if_neg (Nat.lt_irrefl _)]
  omega

end HookedAutomata.Magnitude
