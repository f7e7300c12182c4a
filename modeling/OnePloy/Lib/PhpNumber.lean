import Mathlib.Data.Rat.Floor
import OnePloy.Lib.PhpText

/-!
# Numeric texts

The number at the front of a text (`numeral?`), the value it has for a comparison
(`Numeral.value`: exact for an integer of 64 bits, a double for any other) and the
integer that a cast makes of it (`intCast`). A text whose value lies between two
integers is cast into the same bounds (`intCast_mem`).
-/

namespace Php

/-- `sign * digits * 10 ^ scale`. -/
structure Numeral where
  sign : Int
  digits : Nat
  scale : Int
  /-- It is written with a point or an exponent. -/
  isFloat : Bool
deriving DecidableEq

/-- The exponent at the front of a text, if there is one, and what follows. -/
def takeExponent : List Char → Option Int × List Char
  | [] => (none, [])
  | c :: cs =>
      let signed := takeSign cs
      let digits := signed.2.takeWhile Char.isDigit
      if (c = 'e' ∨ c = 'E') ∧ !digits.isEmpty then
        (some (signed.1 * digitsValue digits), signed.2.dropWhile Char.isDigit)
      else (none, c :: cs)

/-- The number that a text begins with, and what follows it. -/
def numeral? (s : String) : Option (Numeral × List Char) :=
  let signed := takeSign (s.toList.dropWhile isNumericSpace)
  let whole := signed.2.takeWhile Char.isDigit
  let rest := signed.2.dropWhile Char.isDigit
  let point := rest.head? == some '.'
  let fraction := if point then rest.tail.takeWhile Char.isDigit else []
  let exponent := takeExponent (if point then rest.tail.dropWhile Char.isDigit else rest)
  if whole.isEmpty && fraction.isEmpty then none
  else
    some (⟨signed.1, digitsValue (whole ++ fraction), exponent.1.getD 0 - fraction.length,
      point || exponent.1.isSome⟩, exponent.2)

/-- `is_numeric`. -/
def isNumeric (s : String) : Bool := (numeral? s).any fun n => n.2.all isNumericSpace

/-! ## Values -/

def intMax : Int := 2 ^ 63 - 1

def intMin : Int := -2 ^ 63

/-- The double next to a positive number, the even one of two; beyond the largest
double, where PHP has infinity, the number stays as it is. -/
def nearestDouble (v : ℚ) : ℚ :=
  let log : Int := (Nat.log2 v.num.natAbs : Int) - Nat.log2 v.den
  let log := if (2 : ℚ) ^ log ≤ v then log else log - 1
  let unit : ℚ := 2 ^ max (log - 52) (-1074)
  let below := (v / unit).floor
  let rest := v / unit - below
  (if rest < 1 / 2 ∨ (rest = 1 / 2 ∧ below % 2 = 0) then below else below + 1) * unit

namespace Numeral

def exact (n : Numeral) : ℚ := n.sign * n.digits * 10 ^ n.scale

/-- What a comparison with a number reads. -/
def value (n : Numeral) : ℚ :=
  if !n.isFloat && intMin ≤ n.sign * n.digits && n.sign * n.digits ≤ intMax then
    n.sign * n.digits
  else if n.digits = 0 then 0
  else n.sign * nearestDouble (n.exact * n.sign)

/-- What is left of a value when its fraction is cut off, within 64 bits. -/
def toInt (n : Numeral) : Int :=
  let whole := if n.value < 0 then -(-n.value).floor else n.value.floor
  max intMin (min intMax whole)

theorem toInt_mem {n : Numeral} {m : Int} (hm : m ≤ intMax) (hlow : 0 ≤ n.value)
    (hhigh : n.value ≤ m) : 0 ≤ n.toInt ∧ n.toInt ≤ m := by
  have hzero : 0 ≤ n.value.floor := Rat.le_floor_iff.mpr (by exact_mod_cast hlow)
  have hle : n.value.floor ≤ m := by
    have hfloor : (n.value.floor : ℚ) ≤ m := le_trans (Rat.floor_le n.value) hhigh
    exact_mod_cast hfloor
  have hmin : intMin ≤ 0 := by decide
  simp only [toInt, if_neg (not_lt.mpr hlow)]
  omega

end Numeral

/-- What a comparison reads in a numeric text. -/
def numericValue (s : String) : ℚ := ((numeral? s).map fun n => n.1.value).getD 0

/-- `(int) $s`. -/
def intCast (s : String) : Int := ((numeral? s).map fun n => n.1.toInt).getD 0

theorem intCast_mem {s : String} {m : Int} (hm : m ≤ intMax) (hlow : 0 ≤ numericValue s)
    (hhigh : numericValue s ≤ m) : 0 ≤ intCast s ∧ intCast s ≤ m := by
  unfold numericValue at hlow hhigh
  unfold intCast
  cases hn : numeral? s with
  | none =>
      rw [hn] at hhigh
      have hnonneg : (0 : ℚ) ≤ m := hhigh
      exact ⟨le_refl 0, by exact_mod_cast hnonneg⟩
  | some n =>
      rw [hn] at hlow hhigh
      exact Numeral.toInt_mem hm hlow hhigh

end Php
