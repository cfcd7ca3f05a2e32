/-!
Unsigned decimal numerals over the digits 0 to 9.
-/

namespace Tlsf.Text

def numeral (n : Nat) : List Char := Nat.toDigits 10 n

/-- The number that a run of digits stands for. Leading zeros are allowed,
anything but a digit is not, and an empty run stands for none. -/
def natural? (cs : List Char) : Option Nat :=
  if !cs.isEmpty && cs.all Char.isDigit then some (Nat.ofDigitChars 10 cs 0) else none

theorem natural?_numeral (n : Nat) : natural? (numeral n) = some n := by
  have digits : (numeral n).all Char.isDigit = true :=
    List.all_eq_true.mpr fun _ mem => Nat.isDigit_of_mem_toDigits (by omega) (by omega) mem
  have nonempty : (numeral n).isEmpty = false :=
    List.isEmpty_eq_false_iff.mpr Nat.toDigits_ne_nil
  rw [natural?, digits, nonempty]
  simp [numeral, Nat.ofDigitChars_toDigits]

end Tlsf.Text
