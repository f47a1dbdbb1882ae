import Mathlib.Tactic.Common

/-! ASCII by code number, so that bytes and code points are classified by the same tests. -/

namespace Ascii

def isUpper (n : Nat) : Bool := 65 ≤ n && n ≤ 90
def isLower (n : Nat) : Bool := 97 ≤ n && n ≤ 122
def isAlpha (n : Nat) : Bool := isUpper n || isLower n
def isDigit (n : Nat) : Bool := 48 ≤ n && n ≤ 57
def isAlnum (n : Nat) : Bool := isAlpha n || isDigit n

/-- `isspace` of the C locale. -/
def isSpace (n : Nat) : Bool := n = 32 || (9 ≤ n && n ≤ 13)

def toLower (n : Nat) : Nat := if isUpper n then n + 32 else n
def toUpper (n : Nat) : Nat := if isLower n then n - 32 else n

/-- The value of a hexadecimal digit. -/
def hexValue (n : Nat) : Option Nat :=
  if isDigit n then some (n - 48)
  else if 97 ≤ n && n ≤ 102 then some (n - 87)
  else if 65 ≤ n && n ≤ 70 then some (n - 55)
  else none

/-! ### Characters -/

theorem isUpper_toNat (c : Char) : isUpper c.toNat = c.isUpper := by
  show (decide (65 ≤ c.toNat) && decide (c.toNat ≤ 90)) =
    decide (c.val ≥ 'A'.val ∧ c.val ≤ 'Z'.val)
  simp [UInt32.le_iff_toNat_le]

theorem isLower_toNat (c : Char) : isLower c.toNat = c.isLower := by
  show (decide (97 ≤ c.toNat) && decide (c.toNat ≤ 122)) =
    (decide (c.val ≥ 'a'.val) && decide (c.val ≤ 'z'.val))
  simp [UInt32.le_iff_toNat_le]

theorem isDigit_toNat (c : Char) : isDigit c.toNat = c.isDigit := by
  simp [isDigit, Char.isDigit, UInt32.le_iff_toNat_le]

theorem isAlpha_toNat (c : Char) : isAlpha c.toNat = c.isAlpha := by
  rw [isAlpha, isUpper_toNat, isLower_toNat]
  rfl

theorem isAlnum_toNat (c : Char) : isAlnum c.toNat = c.isAlphanum := by
  rw [isAlnum, isAlpha_toNat, isDigit_toNat, Char.isAlphanum]

end Ascii
