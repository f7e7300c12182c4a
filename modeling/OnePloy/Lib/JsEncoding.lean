import OnePloy.Lib.JsText
import Mathlib.Data.List.TakeWhile

/-!
# Texts as JavaScript strings

A character is one code unit or two. A text of ASCII keeps its characters as units, and
no unit of another character looks like one of them, so what such a text is found in as
units it is found in as characters (`infix_of_infix_encode`).
-/

namespace Js

/-- A character as one unit, or as a pair of surrogates. -/
def encodeChar (c : Char) : Utf16 :=
  if c.toNat < 0x10000 then [unit c]
  else [UInt16.ofNat (0xD800 + (c.toNat - 0x10000) / 0x400),
    UInt16.ofNat (0xDC00 + (c.toNat - 0x10000) % 0x400)]

def encode (cs : List Char) : Utf16 := cs.flatMap encodeChar

def isAscii (c : Char) : Bool := decide (c.toNat < 128)

@[simp] theorem encode_append (cs ds : List Char) : encode (cs ++ ds) = encode cs ++ encode ds :=
  List.flatMap_append

theorem encodeChar_ascii {c : Char} (h : isAscii c = true) : encodeChar c = [unit c] := by
  have hc : c.toNat < 128 := by simpa [isAscii] using h
  rw [encodeChar, if_pos (by omega)]

theorem encode_ascii {cs : List Char} (h : ∀ c ∈ cs, isAscii c = true) :
    encode cs = cs.map unit := by
  induction cs with
  | nil => rfl
  | cons c cs ih =>
      rw [encode, List.flatMap_cons, encodeChar_ascii (h c List.mem_cons_self), ← encode,
        ih fun d hd => h d (List.mem_cons_of_mem c hd)]
      rfl

theorem text_eq (s : String) : text s = s.toList.map unit := rfl

theorem toNat_unit {c : Char} (h : c.toNat < 0x10000) : (unit c).toNat = c.toNat := by
  rw [unit, UInt16.toNat_ofNat']
  exact Nat.mod_eq_of_lt h

theorem unit_inj {c d : Char} (hc : c.toNat < 0x10000) (hd : d.toNat < 0x10000)
    (h : unit c = unit d) : c = d := by
  have heq : c.toNat = d.toNat := by rw [← toNat_unit hc, ← toNat_unit hd, h]
  exact Char.ext (UInt32.toNat.inj heq)

/-- Surrogates are no ASCII. -/
theorem encodeChar_cases (c : Char) :
    (c.toNat < 0x10000 ∧ encodeChar c = [unit c]) ∨
      ∃ hi lo, encodeChar c = [hi, lo] ∧ 128 ≤ hi.toNat ∧ 128 ≤ lo.toNat := by
  unfold encodeChar
  split
  · next h => exact .inl ⟨h, rfl⟩
  · next h =>
      have hmax : c.toNat < 0x110000 := by
        rcases c.valid with hlow | ⟨-, hhigh⟩
        · exact Nat.lt_trans hlow (by omega)
        · exact hhigh
      refine .inr ⟨_, _, rfl, ?_, ?_⟩
      · rw [UInt16.toNat_ofNat', Nat.mod_eq_of_lt (by omega)]
        omega
      · rw [UInt16.toNat_ofNat', Nat.mod_eq_of_lt (by omega)]
        omega

section Needle

variable {needle : List Char}

theorem toNat_unit_of_ascii {c : Char} (h : isAscii c = true) :
    (unit c).toNat < 128 ∧ c.toNat < 0x10000 := by
  have hc : c.toNat < 128 := by simpa [isAscii] using h
  exact ⟨by rw [toNat_unit (by omega)]; exact hc, by omega⟩

theorem prefix_of_prefix_encode (h : ∀ c ∈ needle, isAscii c = true) {cs : List Char}
    (hstart : needle.map unit <+: encode cs) : needle <+: cs := by
  induction needle generalizing cs with
  | nil => exact List.nil_prefix
  | cons c needle ih =>
      obtain ⟨hunit, hc⟩ := toNat_unit_of_ascii (h c List.mem_cons_self)
      cases cs with
      | nil => exact absurd (List.prefix_nil.1 hstart) (by simp)
      | cons d cs =>
          rw [encode, List.flatMap_cons, ← encode, List.map_cons] at hstart
          rcases encodeChar_cases d with ⟨hd, heq⟩ | ⟨hi, lo, heq, hhi, -⟩
          · rw [heq, List.singleton_append, List.cons_prefix_cons] at hstart
            rw [unit_inj hc hd hstart.1, List.cons_prefix_cons]
            exact ⟨rfl, ih (fun e he => h e (List.mem_cons_of_mem c he)) hstart.2⟩
          · rw [heq, List.cons_append, List.cons_prefix_cons] at hstart
            rw [hstart.1] at hunit
            omega

/-- By induction on the text: an occurrence begins at a unit of ASCII, and so not within
a pair of surrogates. -/
theorem infix_of_infix_encode (h : ∀ c ∈ needle, isAscii c = true) {cs : List Char}
    (hpart : needle.map unit <:+: encode cs) : needle <:+: cs := by
  induction cs with
  | nil =>
      have hnil : needle.map unit = [] := List.infix_nil.1 hpart
      rw [List.map_eq_nil_iff.1 hnil]
  | cons d cs ih =>
      rw [encode, List.flatMap_cons, ← encode] at hpart
      rcases encodeChar_cases d with ⟨-, heq⟩ | ⟨hi, lo, heq, -, hlo⟩
      · rw [heq, List.singleton_append, List.infix_cons_iff] at hpart
        rcases hpart with hstart | hpart
        · refine (prefix_of_prefix_encode h ?_).isInfix
          rw [encode, List.flatMap_cons, heq]
          exact hstart
        · exact List.infix_cons_iff.2 (.inr (ih hpart))
      · rw [heq, List.cons_append, List.singleton_append, List.infix_cons_iff,
          List.infix_cons_iff] at hpart
        rcases hpart with hstart | hstart | hpart
        · refine (prefix_of_prefix_encode h ?_).isInfix
          rw [encode, List.flatMap_cons, heq]
          exact hstart
        · cases needle with
          | nil => exact List.nil_infix
          | cons c needle =>
              rw [List.map_cons, List.cons_prefix_cons] at hstart
              have hunit := (toNat_unit_of_ascii (h c List.mem_cons_self)).1
              rw [hstart.1] at hunit
              omega
        · exact List.infix_cons_iff.2 (.inr (ih hpart))

end Needle

/-! ## ASCII -/

/-- What the first 128 characters all have, ASCII has. -/
theorem forall_ascii {p : Char → Bool} (h : (List.range 128).all (fun n => p (Char.ofNat n)) = true)
    {c : Char} (hc : isAscii c = true) : p c = true := by
  have hlt : c.toNat < 128 := by simpa [isAscii] using hc
  have hc := List.all_eq_true.1 h c.toNat (List.mem_range.2 hlt)
  rwa [Char.ofNat_toNat] at hc

theorem isAscii_of_isDigit {c : Char} (h : c.isDigit = true) : isAscii c = true := by
  have hle : c.toNat ≤ 57 := (Char.isDigit_iff_toNat.1 h).2
  exact decide_eq_true (by omega)

section Digits

variable {ds : List Char}

theorem toNat_unit_digit {c : Char} (h : c.isDigit = true) : (unit c).toNat = c.toNat :=
  toNat_unit (toNat_unit_of_ascii (isAscii_of_isDigit h)).2

theorem number_map_unit (h : ∀ c ∈ ds, c.isDigit = true) :
    number (ds.map unit) = Nat.ofDigitChars 10 ds 0 := by
  rw [number, List.foldl_map, Nat.ofDigitChars_eq_foldl]
  refine List.foldl_ext _ _ 0 fun n c hc => ?_
  rw [toNat_unit_digit (h c hc), Nat.mul_comm]
  rfl

theorem number_toDigits (n : Nat) : number ((Nat.toDigits 10 n).map unit) = n := by
  rw [number_map_unit fun c hc => Nat.isDigit_of_mem_toDigits (by omega) (by omega) hc]
  simp

theorem isNumeral_map_unit (hne : ds ≠ []) (h : ∀ c ∈ ds, c.isDigit = true) :
    isNumeral (ds.map unit) = true := by
  rw [isNumeral, Bool.and_eq_true, List.all_map, List.all_eq_true]
  refine ⟨by simpa using hne, fun c hc => ?_⟩
  obtain ⟨hlow, hhigh⟩ := Char.isDigit_iff_toNat.1 (h c hc)
  rw [← toNat_unit_digit (h c hc)] at hlow hhigh
  rw [Function.comp_apply, isDigit, Bool.and_eq_true, decide_eq_true_iff, decide_eq_true_iff]
  exact ⟨UInt16.le_iff_toNat_le.2 hlow, UInt16.le_iff_toNat_le.2 hhigh⟩

end Digits

/-! ## Looking for a text -/

section Search

variable {needle : Utf16}

/-- What the needle begins nowhere in is passed over. -/
theorem splitAt?_append (a : Utf16) {rest : Utf16}
    (h : ∀ x y, a = x ++ y → y ≠ [] → ¬ needle <+: y ++ rest) :
    splitAt? needle (a ++ rest) = (splitAt? needle rest).map fun p => (a ++ p.1, p.2) := by
  induction a with
  | nil =>
      show _ = (splitAt? needle rest).map id
      rw [Option.map_id]
      rfl
  | cons u us ih =>
      have hhere : ¬ needle <+: u :: (us ++ rest) := h [] (u :: us) rfl (List.cons_ne_nil u us)
      rw [List.cons_append, splitAt?, if_neg fun hp => hhere (List.isPrefixOf_iff_prefix.1 hp),
        ih fun x y hxy hy => h (u :: x) y (by rw [hxy]; rfl) hy, Option.map_map]
      rfl

theorem splitAt?_here (hne : needle ≠ []) (rest : Utf16) :
    splitAt? needle (needle ++ rest) = some ([], needle ++ rest) := by
  cases needle with
  | nil => exact absurd rfl hne
  | cons u us =>
      show splitAt? (u :: us) (u :: (us ++ rest)) = _
      rw [splitAt?, if_pos (List.isPrefixOf_iff_prefix.2
        (List.cons_prefix_cons.2 ⟨rfl, List.prefix_append us rest⟩))]
      rfl

/-- A needle that the last unit before it is not part of, and that does not stand before
it, is found where it is. -/
theorem splitAt?_of_not_infix (hne : needle ≠ []) {a : Utf16} {u : UInt16} (hu : u ∉ needle)
    (ha : ¬ needle <:+: a) (rest : Utf16) :
    splitAt? needle (a ++ u :: (needle ++ rest)) = some (a ++ [u], needle ++ rest) := by
  rw [List.append_cons, splitAt?_append, splitAt?_here hne, Option.map_some, List.append_nil]
  intro x y hxy hy hstart
  -- what is left of the text ends with `u`, which the needle does not reach
  obtain ⟨z, rfl⟩ : ∃ z, y = z ++ [u] := by
    refine ⟨y.dropLast, ?_⟩
    have hlast : y.getLast hy = u := by
      have hall : (a ++ [u]).getLast (by simp) = (x ++ y).getLast (by simp [hy]) := by
        congr 1
      rw [List.getLast_append_of_ne_nil _ hy] at hall
      simpa using hall.symm
    rw [← hlast, List.dropLast_append_getLast hy]
  rw [List.append_assoc, List.singleton_append] at hstart
  have hz : needle <+: z := by
    rcases List.prefix_or_prefix_of_prefix hstart (List.prefix_append z _) with hz | ⟨more, rfl⟩
    · exact hz
    · rw [List.prefix_append_right_inj] at hstart
      rcases List.prefix_cons_iff.1 hstart with rfl | ⟨t, rfl, -⟩
      · rw [List.append_nil]
      · exact absurd (List.mem_append_right z List.mem_cons_self) hu
  refine ha (hz.isInfix.trans ?_)
  rw [← List.append_assoc] at hxy
  rw [List.append_cancel_right hxy]
  exact (List.suffix_append x z).isInfix

end Search

/-! ## Trimming -/

theorem trim_eq_self {s : Utf16} (hhead : ∀ u, s.head? = some u → isSpace u = false)
    (hlast : ∀ u, s.getLast? = some u → isSpace u = false) : trim s = s := by
  have hdrop : ∀ {t : Utf16}, (∀ u, t.head? = some u → isSpace u = false) →
      t.dropWhile isSpace = t := by
    intro t ht
    cases t with
    | nil => rfl
    | cons u us => exact List.dropWhile_cons_of_neg (by rw [ht u rfl]; exact Bool.false_ne_true)
  rw [trim, hdrop hhead, hdrop (by rw [List.head?_reverse]; exact hlast), List.reverse_reverse]

end Js
