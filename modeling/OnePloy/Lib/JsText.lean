import Mathlib.Data.List.Infix

/-!
# Strings as JavaScript has them

A string is a list of code units. What is here of its methods and of its regular
expressions is what code that takes command lines apart uses: white space, trimming,
and looking for one text in another.
-/

namespace Js

/-- A string, by its code units. -/
abbrev Utf16 := List UInt16

/-- A literal whose characters have one code unit each. -/
def text (s : String) : Utf16 := s.toList.map fun c => UInt16.ofNat c.toNat

def unit (c : Char) : UInt16 := UInt16.ofNat c.toNat

/-- `\s`, and what `trim` strips. -/
def isSpace (u : UInt16) : Bool :=
  (9 ≤ u && u ≤ 13) || u == 32 || u == 0xA0 || u == 0x1680 || (0x2000 ≤ u && u ≤ 0x200A) ||
    u == 0x2028 || u == 0x2029 || u == 0x202F || u == 0x205F || u == 0x3000 || u == 0xFEFF

/-- What `.` does not match. -/
def isLineTerminator (u : UInt16) : Bool := u == 10 || u == 13 || u == 0x2028 || u == 0x2029

def isDigit (u : UInt16) : Bool := 48 ≤ u && u ≤ 57

/-- `[a-zA-Z0-9_]`. -/
def isWordUnit (u : UInt16) : Bool :=
  isDigit u || (65 ≤ u && u ≤ 90) || (97 ≤ u && u ≤ 122) || u == 95

def trim (s : Utf16) : Utf16 := ((s.dropWhile isSpace).reverse.dropWhile isSpace).reverse

/-- `includes`. -/
def includes (s needle : Utf16) : Bool := decide (needle <:+: s)

/-- `/^\d+$/`. -/
def isNumeral (s : Utf16) : Bool := !s.isEmpty && s.all isDigit

/-- `Number` of a text of digits. -/
def number (s : Utf16) : Nat := s.foldl (fun n u => n * 10 + (u.toNat - 48)) 0

/-- What stands before the first occurrence of `needle`, and from there on. -/
def splitAt? (needle : Utf16) : Utf16 → Option (Utf16 × Utf16)
  | [] => if needle.isEmpty then some ([], []) else none
  | u :: us =>
      if needle.isPrefixOf (u :: us) then some ([], u :: us)
      else (splitAt? needle us).map fun p => (u :: p.1, p.2)

/-- `indexOf`, as what stands before and behind a unit. -/
def splitUnit? (c : UInt16) (s : Utf16) : Option (Utf16 × Utf16) :=
  if c ∈ s then some (s.takeWhile (· ≠ c), (s.dropWhile (· ≠ c)).tail) else none

/-- `replace` with `$1`, of every pair of quotes with what has no such quote. What
follows a quote that is not closed is kept in `opened`, last unit first. -/
def unquote (quote : UInt16) : Option Utf16 → Utf16 → Utf16
  | none, [] => []
  | some opened, [] => quote :: opened.reverse
  | none, u :: us => if u = quote then unquote quote (some []) us else u :: unquote quote none us
  | some opened, u :: us =>
      if u = quote then opened.reverse ++ unquote quote none us
      else unquote quote (some (u :: opened)) us

end Js
