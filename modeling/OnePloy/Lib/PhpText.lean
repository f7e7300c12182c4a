import OnePloy.Lib.PhpValue
import Mathlib.Data.List.Infix
import Mathlib.Data.List.Basic
import Mathlib.Algebra.Group.Int.Defs
import Mathlib.Algebra.Group.Nat.Defs

/-!
# Texts as PHP takes them apart

What code that reads configuration uses of PHP's string functions: affixes,
trimming, splitting at a character, and the numbers that numeric texts stand for.
-/

namespace Php

def strStartsWith (haystack needle : String) : Bool := needle.toList.isPrefixOf haystack.toList

def strEndsWith (haystack needle : String) : Bool := needle.toList.isSuffixOf haystack.toList

theorem strStartsWith_iff {s needle : String} :
    strStartsWith s needle = true ↔ needle.toList <+: s.toList :=
  List.isPrefixOf_iff_prefix

/-- `rtrim` with one character. -/
def rtrimChar (c : Char) (s : String) : String :=
  String.ofList (s.toList.reverse.dropWhile (· == c)).reverse

def trim (s : String) : String :=
  String.ofList ((s.toList.dropWhile isTrimmed).reverse.dropWhile isTrimmed).reverse

/-- The pieces of a text between the occurrences of `c`. -/
def pieces (c : Char) : List Char → List (List Char)
  | [] => [[]]
  | x :: xs =>
      if x = c then [] :: pieces c xs
      else match pieces c xs with
        | [] => [[x]]
        | p :: ps => (x :: p) :: ps

def explode (c : Char) (s : String) : List String := (pieces c s.toList).map String.ofList

/-- `array_pad(explode($c, $s, 2), 2, null)`. -/
def explodeOnce (c : Char) (s : String) : String × Option String :=
  let before := s.toList.takeWhile (· ≠ c)
  let rest := s.toList.dropWhile (· ≠ c)
  (String.ofList before, if rest.isEmpty then none else some (String.ofList rest.tail))

/-- `\s` of a pattern. -/
def isPatternSpace (c : Char) : Bool :=
  c == ' ' || c == '\t' || c == '\n' || c == '\x0B' || c == '\x0C' || c == '\r'

/-- `str_replace` on characters; the number says how many of them belong to the last
occurrence. -/
def replaceChars (search replace : List Char) : Nat → List Char → List Char
  | _, [] => []
  | n + 1, _ :: cs => replaceChars search replace n cs
  | 0, c :: cs =>
      if search.isPrefixOf (c :: cs) then
        replace ++ replaceChars search replace (search.length - 1) cs
      else c :: replaceChars search replace 0 cs

/-- `str_replace`, where what is searched is not empty. -/
def strReplace (search replace subject : String) : String :=
  String.ofList (replaceChars search.toList replace.toList 0 subject.toList)

/-! ## Numbers -/

def ctypeDigit (s : String) : Bool := !s.toList.isEmpty && s.toList.all Char.isDigit

def digitsValue (digits : List Char) : Nat :=
  digits.foldl (fun n c => n * 10 + (c.toNat - '0'.toNat)) 0

/-- What may stand around a number. -/
def isNumericSpace (c : Char) : Bool :=
  c == ' ' || c == '\t' || c == '\n' || c == '\r' || c == '\x0B' || c == '\x0C'

/-- A sign, if there is one, and what follows it. -/
def takeSign : List Char → Int × List Char
  | '-' :: cs => (-1, cs)
  | '+' :: cs => (1, cs)
  | cs => (1, cs)

/-- The exponent of a number that ends here. -/
def exponent? : List Char → Option Int
  | [] => some 0
  | c :: cs =>
      let signed := takeSign cs
      if (c = 'e' ∨ c = 'E') ∧ !signed.2.isEmpty ∧ signed.2.all Char.isDigit then
        some (signed.1 * digitsValue signed.2)
      else none

/-- `(int) $s`, if `is_numeric($s)`. -/
def numericInt? (s : String) : Option Int :=
  let signed := takeSign (s.toList.dropWhile isNumericSpace)
  let body := (signed.2.reverse.dropWhile isNumericSpace).reverse
  let whole := body.takeWhile Char.isDigit
  let rest := body.dropWhile Char.isDigit
  let fraction := if rest.head? = some '.' then rest.tail.takeWhile Char.isDigit else []
  let rest := if rest.head? = some '.' then rest.tail.dropWhile Char.isDigit else rest
  if whole.isEmpty && fraction.isEmpty then none
  else
    (exponent? rest).map fun e =>
      let digits := digitsValue (whole ++ fraction)
      let scale : Int := e - fraction.length
      let size := if 0 ≤ scale then digits * 10 ^ scale.toNat else digits / 10 ^ (-scale).toNat
      signed.1 * size

theorem toDigits_injective {m n : Nat} (h : Nat.toDigits 10 m = Nat.toDigits 10 n) : m = n := by
  have hm : Nat.ofDigitChars 10 (Nat.toDigits 10 m) 0 = m := by simp
  rw [← hm, h]
  simp

theorem isDigit_of_mem_toDigits {n : Nat} {c : Char} (h : c ∈ Nat.toDigits 10 n) :
    c.isDigit = true :=
  Nat.isDigit_of_mem_toDigits (by decide) (by decide) h

/-! ## Replacing -/

theorem replaceChars_skip (search replace a cs : List Char) :
    replaceChars search replace a.length (a ++ cs) = replaceChars search replace 0 cs := by
  induction a with
  | nil => rfl
  | cons c a ih => exact ih

theorem replaceChars_hit {search : List Char} (hne : search ≠ []) (replace cs : List Char) :
    replaceChars search replace 0 (search ++ cs) =
      replace ++ replaceChars search replace 0 cs := by
  obtain ⟨c, rest, rfl⟩ := List.exists_cons_of_ne_nil hne
  have hfront : (c :: rest).isPrefixOf (c :: (rest ++ cs)) = true :=
    List.isPrefixOf_iff_prefix.mpr (List.prefix_append ..)
  rw [List.cons_append, replaceChars, if_pos hfront, List.length_cons, Nat.add_sub_cancel,
    replaceChars_skip]

theorem replaceChars_miss {search : List Char} (replace : List Char) {c : Char} {cs : List Char}
    (h : ¬ search <+: c :: cs) :
    replaceChars search replace 0 (c :: cs) = c :: replaceChars search replace 0 cs := by
  rw [replaceChars, if_neg fun hfront => h (List.isPrefixOf_iff_prefix.mp hfront)]

theorem replaceChars_of_not_infix {search : List Char} (replace : List Char) {cs : List Char}
    (h : ¬ search <:+: cs) : replaceChars search replace 0 cs = cs := by
  induction cs with
  | nil => rfl
  | cons c cs ih =>
      rw [replaceChars_miss _ fun hfront => h hfront.isInfix,
        ih fun hpart => h (hpart.trans (List.suffix_cons c cs).isInfix)]

/-- What is put behind the occurrences of a text leaves the beginning. -/
theorem take_replaceChars (search more cs : List Char) {n : Nat} (hn : n ≤ search.length) :
    (replaceChars search (search ++ more) 0 cs).take n = cs.take n := by
  induction cs generalizing n with
  | nil => rfl
  | cons c cs ih =>
      by_cases h : search <+: c :: cs
      · obtain ⟨rest, hrest⟩ := h
        by_cases hne : search = []
        · subst hne
          rw [Nat.le_zero.mp hn, List.take_zero, List.take_zero]
        · rw [← hrest, replaceChars_hit hne, List.append_assoc,
            List.take_append_of_le_length hn, List.take_append_of_le_length hn]
      · rw [replaceChars_miss _ h]
        cases n with
        | zero => rfl
        | succ n => rw [List.take_succ_cons, List.take_succ_cons, ih (Nat.le_of_succ_le hn)]

/-! ## Lower case -/

theorem toLower_of_not {c : Char} (h : ¬ (c.val ≥ 'A'.val ∧ c.val ≤ 'Z'.val)) :
    c.toLower = c := by
  unfold Char.toLower
  rw [dif_neg h]

theorem toLower_toLower (c : Char) : c.toLower.toLower = c.toLower := by
  by_cases h : c.val ≥ 'A'.val ∧ c.val ≤ 'Z'.val
  · refine toLower_of_not ?_
    unfold Char.toLower
    rw [dif_pos h]
    obtain ⟨hA, hZ⟩ := h
    simp only [ge_iff_le, UInt32.le_iff_toNat_le] at hA hZ ⊢
    rintro ⟨-, hle⟩
    have hA' : 'A'.val.toNat = 65 := rfl
    have hZ' : 'Z'.val.toNat = 90 := rfl
    have hshift : ('a'.val - 'A'.val).toNat = 32 := rfl
    rw [UInt32.toNat_add] at hle
    omega
  · rw [toLower_of_not h, toLower_of_not h]

/-! ## Trimming -/

theorem trim_eq_self {s : String} (hhead : ∀ c, s.toList.head? = some c → isTrimmed c = false)
    (hlast : ∀ c, s.toList.getLast? = some c → isTrimmed c = false) : trim s = s := by
  have hkeep : ∀ {cs : List Char}, (∀ c, cs.head? = some c → isTrimmed c = false) →
      cs.dropWhile isTrimmed = cs := by
    intro cs hcs
    cases cs with
    | nil => rfl
    | cons c cs => rw [List.dropWhile_cons_of_neg (by simp [hcs c rfl])]
  rw [trim, hkeep hhead, hkeep fun c hc => hlast c (by simpa using hc), List.reverse_reverse,
    String.ofList_toList]

theorem isTrimmed_head_trim {s : String} {c : Char} (h : (trim s).toList.head? = some c) :
    isTrimmed c = false := by
  rw [trim, String.toList_ofList] at h
  obtain ⟨rest, hrest⟩ := List.reverse_prefix.mpr
    (List.dropWhile_suffix (l := (s.toList.dropWhile isTrimmed).reverse) isTrimmed)
  rw [List.reverse_reverse] at hrest
  refine eq_false_of_ne_true fun hc => ?_
  have hhead : (s.toList.dropWhile isTrimmed).head? = some c := by
    rw [← hrest, List.head?_append, h, Option.some_or]
  have hnot := List.head?_dropWhile_not isTrimmed s.toList
  rw [hhead] at hnot
  exact absurd hc (by simpa using hnot)

theorem isTrimmed_last_trim {s : String} {c : Char} (h : (trim s).toList.getLast? = some c) :
    isTrimmed c = false := by
  rw [trim, String.toList_ofList, List.getLast?_reverse] at h
  have hnot := List.head?_dropWhile_not isTrimmed (s.toList.dropWhile isTrimmed).reverse
  rw [h] at hnot
  simpa using hnot

theorem trim_trim (s : String) : trim (trim s) = trim s :=
  trim_eq_self (fun _ => isTrimmed_head_trim) fun _ => isTrimmed_last_trim

theorem trim_prefix {front : List Char} (cs : List Char) {first last : Char}
    (hfirst : front.head? = some first) (hlast : front.getLast? = some last)
    (h : isTrimmed first = false) (h' : isTrimmed last = false) :
    ∃ more, (trim (String.ofList (front ++ cs))).toList = front ++ more := by
  have hfront : (front ++ cs).dropWhile isTrimmed = front ++ cs := by
    obtain ⟨rest, rfl⟩ := List.head?_eq_some_iff.mp hfirst
    exact List.dropWhile_cons_of_neg (by simp [h])
  have hback : front.reverse.dropWhile isTrimmed = front.reverse := by
    obtain ⟨rest, rfl⟩ := List.getLast?_eq_some_iff.mp hlast
    rw [List.reverse_append]
    exact List.dropWhile_cons_of_neg (by simp [h'])
  rw [trim, String.toList_ofList, String.toList_ofList, hfront, List.reverse_append,
    List.dropWhile_append]
  split
  · exact ⟨[], by rw [hback, List.reverse_reverse, List.append_nil]⟩
  · exact ⟨(cs.reverse.dropWhile isTrimmed).reverse, by simp⟩

theorem mem_trim {s : String} {c : Char} (hc : isTrimmed c = false) (h : c ∈ s.toList) :
    c ∈ (trim s).toList := by
  have hkeep : ∀ {cs : List Char}, c ∈ cs → c ∈ cs.dropWhile isTrimmed := by
    intro cs hmem
    rw [← List.takeWhile_append_dropWhile (p := isTrimmed) (l := cs), List.mem_append] at hmem
    refine hmem.resolve_left fun htake => ?_
    rw [List.all_eq_true.mp List.all_takeWhile c htake] at hc
    cases hc
  rw [trim, String.toList_ofList, List.mem_reverse]
  exact hkeep (List.mem_reverse.mpr (hkeep h))

/-! ## Pieces -/

theorem pieces_ne_nil (c : Char) (cs : List Char) : pieces c cs ≠ [] := by
  cases cs with
  | nil => nofun
  | cons x xs =>
      rw [pieces]
      split
      · nofun
      · split <;> nofun

/-- `Str::afterLast`, with one character. -/
def afterLast (c : Char) (s : String) : String :=
  String.ofList ((pieces c s.toList).getLast (pieces_ne_nil c s.toList))

theorem pieces_concat_self (c : Char) (cs : List Char) :
    pieces c (cs ++ [c]) = pieces c cs ++ [[]] := by
  induction cs with
  | nil => simp [pieces]
  | cons x xs ih =>
      rw [List.cons_append, pieces, pieces, ih]
      split
      · rfl
      · cases hp : pieces c xs with
        | nil => exact absurd hp (pieces_ne_nil c xs)
        | cons p ps => rfl

/-- Another character at the end belongs to the last piece. -/
theorem pieces_concat_ne {c x : Char} (hx : x ≠ c) (cs : List Char) :
    ∃ ps p, pieces c (cs ++ [x]) = ps ++ [p ++ [x]] := by
  induction cs with
  | nil => exact ⟨[], [], by simp [pieces, hx]⟩
  | cons y ys ih =>
      obtain ⟨ps, p, hp⟩ := ih
      rw [List.cons_append, pieces, hp]
      split
      · exact ⟨[] :: ps, p, rfl⟩
      · cases ps with
        | nil => exact ⟨[], y :: p, rfl⟩
        | cons q ps => exact ⟨(y :: q) :: ps, p, rfl⟩

/-! ## Joined texts -/

/-- `implode`, with one character. -/
def implode (c : Char) (texts : List String) : String :=
  String.ofList ([c].intercalate (texts.map String.toList))

/-- `$m[1]` after `preg_match('/<key>(\d+)/', $s, $m)`. -/
def digitsAfter (key : List Char) : List Char → Option (List Char)
  | [] => none
  | c :: cs =>
      let rest := (c :: cs).drop key.length
      if key.isPrefixOf (c :: cs) && rest.head?.any Char.isDigit then
        some (rest.takeWhile Char.isDigit)
      else digitsAfter key cs

/-- What does not contain the separator lies within one of the two parts. -/
theorem infix_append_sep {c : Char} {needle a b : List Char} (hc : c ∉ needle) :
    needle <:+: a ++ c :: b ↔ needle <:+: a ∨ needle <:+: b := by
  constructor
  · rintro ⟨s, t, h⟩
    rcases List.append_eq_append_iff.mp h with ⟨a', ha, -⟩ | ⟨t', hs, ht⟩
    · exact .inl ⟨s, a', ha.symm⟩
    · rcases List.append_eq_append_iff.mp hs with ⟨a', ha, hneedle⟩ | ⟨s', -, ht'⟩
      · cases t' with
        | nil => exact .inl ⟨s, [], by simpa using hs⟩
        | cons x t' =>
            rw [List.cons_append] at ht
            injection ht with hx
            rw [hneedle, ← hx] at hc
            simp at hc
      · cases s' with
        | nil =>
            rw [List.nil_append] at ht'
            cases t' with
            | nil => exact .inl ⟨s, [], by simpa using hs⟩
            | cons x t' =>
                rw [List.cons_append] at ht
                injection ht with hx
                rw [← ht', ← hx] at hc
                simp at hc
        | cons x s' =>
            rw [ht', List.cons_append, List.cons_append] at ht
            injection ht with _ hb
            exact .inr ⟨s', t, hb.symm⟩
  · rintro (⟨s, t, rfl⟩ | ⟨s, t, rfl⟩)
    · exact ⟨s, t ++ c :: b, by simp⟩
    · exact ⟨a ++ c :: s, t, by simp⟩

/-- A key with its sign occurs in a keyed text only as its key. -/
theorem infix_keyed {c : Char} {k w p v : List Char} (hp : c ∉ p) (hv : c ∉ v) :
    k ++ c :: w <:+: p ++ c :: v ↔ k <:+ p ∧ w <+: v := by
  constructor
  · rintro ⟨s, t, h⟩
    have h' : p ++ c :: v = (s ++ k) ++ c :: (w ++ t) := by simpa using h.symm
    obtain ⟨hpk, -, hvw⟩ := (List.append_cons_inj_of_notMem hp hv).mp h'
    exact ⟨⟨s, hpk.symm⟩, ⟨t, hvw.symm⟩⟩
  · rintro ⟨⟨s, rfl⟩, ⟨t, rfl⟩⟩
    exact ⟨s, t, by simp⟩

theorem intercalate_cons_cons (c : Char) (l m : List Char) (ls : List (List Char)) :
    [c].intercalate (l :: m :: ls) = l ++ c :: [c].intercalate (m :: ls) := by
  simp [List.intercalate]

theorem pieces_append {c : Char} {a s p : List Char} {ps : List (List Char)} (ha : c ∉ a)
    (h : pieces c s = p :: ps) : pieces c (a ++ s) = (a ++ p) :: ps := by
  induction a with
  | nil => exact h
  | cons x xs ih =>
      rw [List.mem_cons, not_or] at ha
      rw [List.cons_append, pieces, if_neg (Ne.symm ha.1), ih ha.2]
      rfl

theorem pieces_of_notMem {c : Char} {a : List Char} (ha : c ∉ a) : pieces c a = [a] := by
  have h := pieces_append ha (show pieces c [] = [] :: [] from rfl)
  rwa [List.append_nil] at h

theorem pieces_append_sep (c : Char) (a b : List Char) :
    pieces c (a ++ c :: b) = pieces c a ++ pieces c b := by
  induction a with
  | nil => simp [pieces]
  | cons x xs ih =>
      rw [List.cons_append, pieces, pieces, ih]
      split
      · rfl
      · cases hp : pieces c xs with
        | nil => exact absurd hp (pieces_ne_nil c xs)
        | cons p ps => rfl

theorem pieces_intercalate (c : Char) {l : List Char} {ls : List (List Char)} :
    pieces c ([c].intercalate (l :: ls)) = (l :: ls).flatMap (pieces c) := by
  induction ls generalizing l with
  | nil => simp [List.intercalate]
  | cons m ms ih => rw [intercalate_cons_cons, pieces_append_sep, ih, List.flatMap_cons (x := l)]

theorem notMem_of_mem_pieces {c : Char} {s p : List Char} (h : p ∈ pieces c s) : c ∉ p := by
  induction s generalizing p with
  | nil =>
      rw [pieces, List.mem_singleton] at h
      rw [h]
      exact List.not_mem_nil
  | cons x xs ih =>
      rw [pieces] at h
      split at h
      · rcases List.mem_cons.mp h with rfl | h
        · exact List.not_mem_nil
        · exact ih h
      · next hx =>
          cases hps : pieces c xs with
          | nil => exact absurd hps (pieces_ne_nil c xs)
          | cons q qs =>
              rw [hps] at h ih
              rcases List.mem_cons.mp h with rfl | h
              · rw [List.mem_cons, not_or]
                exact ⟨Ne.symm hx, ih (List.mem_cons_self ..)⟩
              · exact ih (List.mem_cons_of_mem _ h)

/-- The pieces of a joined text whose parts do not contain the separator. -/
theorem pieces_intercalate_of_notMem {c : Char} {ls : List (List Char)} (hne : ls ≠ [])
    (hc : ∀ l ∈ ls, c ∉ l) : pieces c ([c].intercalate ls) = ls := by
  obtain ⟨l, ls, rfl⟩ := List.exists_cons_of_ne_nil hne
  have hmap : (l :: ls).map (pieces c) = (l :: ls).map fun m => [m] :=
    List.map_congr_left fun m hm => pieces_of_notMem (hc m hm)
  rw [pieces_intercalate, List.flatMap_def, hmap, ← List.flatMap_def, List.flatMap_singleton']

theorem intercalate_pieces (c : Char) (cs : List Char) : [c].intercalate (pieces c cs) = cs := by
  induction cs with
  | nil => rfl
  | cons x xs ih =>
      rw [pieces]
      cases hp : pieces c xs with
      | nil => exact absurd hp (pieces_ne_nil c xs)
      | cons p ps =>
          rw [hp] at ih
          split
          · next hx => rw [intercalate_cons_cons, ih, hx, List.nil_append]
          · cases ps with
            | nil => simpa using ih
            | cons q qs =>
                rw [intercalate_cons_cons] at ih
                rw [intercalate_cons_cons, List.cons_append, ih]

/-- A text without the separator is in the joined text when it is in a piece. -/
theorem infix_intercalate {c : Char} {needle : List Char} (hc : c ∉ needle)
    (hne : needle ≠ []) : ∀ {ls : List (List Char)},
      needle <:+: [c].intercalate ls ↔ ∃ l ∈ ls, needle <:+: l
  | [] => by simp [List.intercalate, hne]
  | [l] => by simp [List.intercalate]
  | l :: m :: ls => by
      rw [intercalate_cons_cons, infix_append_sep hc, infix_intercalate hc hne]
      simp only [List.mem_cons, exists_eq_or_imp]

/-! ## The digits after a key -/

theorem prefix_append_sep {c : Char} {key a b : List Char} (hc : c ∉ key)
    (h : key <+: a ++ c :: b) : key <+: a := by
  obtain ⟨t, ht⟩ := h
  rcases List.append_eq_append_iff.mp ht with ⟨a', rfl, -⟩ | ⟨t', hkey, hcb⟩
  · exact ⟨a', rfl⟩
  · cases t' with
    | nil => exact ⟨[], by simpa using hkey⟩
    | cons x t' =>
        rw [List.cons_append] at hcb
        injection hcb with hx
        rw [hkey, ← hx] at hc
        simp at hc

theorem digitsAfter_sep {c : Char} {key : List Char} (hc : c ∉ key) (hne : key ≠ [])
    (b : List Char) : ∀ {a : List Char}, ¬ key <:+: a →
      digitsAfter key (a ++ c :: b) = digitsAfter key b
  | [], _ => by
      have hpre : key.isPrefixOf (c :: b) = false := by
        cases key with
        | nil => exact absurd rfl hne
        | cons k key =>
            have hkc : k ≠ c := fun h => hc (h ▸ List.mem_cons_self ..)
            simp [List.isPrefixOf, hkc]
      rw [List.nil_append, digitsAfter]
      simp [hpre]
  | x :: a, ha => by
      have hpre : key.isPrefixOf (x :: (a ++ c :: b)) = false := by
        by_contra hkey
        rw [Bool.not_eq_false, List.isPrefixOf_iff_prefix, ← List.cons_append] at hkey
        exact ha (prefix_append_sep hc hkey).isInfix
      rw [List.cons_append, digitsAfter]
      simp only [hpre, Bool.false_and, Bool.false_eq_true, if_false]
      exact digitsAfter_sep hc hne b fun h => ha (h.trans (List.suffix_cons x a).isInfix)

theorem takeWhile_digits {ds rest : List Char} (hdigits : ∀ d ∈ ds, d.isDigit = true)
    (hrest : ∀ d ∈ rest.head?, d.isDigit = false) :
    (ds ++ rest).takeWhile Char.isDigit = ds := by
  rw [List.takeWhile_append_of_pos hdigits]
  cases rest with
  | nil => simp
  | cons d rest => simp [hrest d rfl]

theorem digitsAfter_here {key ds rest : List Char} (hne : key ≠ []) (hds : ds ≠ [])
    (hdigits : ∀ d ∈ ds, d.isDigit = true) (hrest : ∀ d ∈ rest.head?, d.isDigit = false) :
    digitsAfter key (key ++ (ds ++ rest)) = some ds := by
  obtain ⟨k, key', rfl⟩ := List.exists_cons_of_ne_nil hne
  obtain ⟨d, ds', rfl⟩ := List.exists_cons_of_ne_nil hds
  have hpre : (k :: key').isPrefixOf (k :: key' ++ (d :: ds' ++ rest)) = true :=
    List.isPrefixOf_iff_prefix.mpr (List.prefix_append ..)
  have hdrop : (k :: key' ++ (d :: ds' ++ rest)).drop (k :: key').length = d :: ds' ++ rest :=
    List.drop_left
  have hd : d.isDigit = true := hdigits d (List.mem_cons_self ..)
  rw [List.cons_append] at hpre hdrop ⊢
  rw [digitsAfter, hdrop, hpre, takeWhile_digits hdigits hrest]
  simp [hd]

/-- In a joined text the digits are those of the one piece with the key. -/
theorem digitsAfter_intercalate {c : Char} {key ds : List Char} (hc : c ∉ key)
    (hcd : c.isDigit = false) (hne : key ≠ []) (hds : ds ≠ [])
    (hdigits : ∀ d ∈ ds, d.isDigit = true) : ∀ {ls : List (List Char)},
      key ++ ds ∈ ls → (∀ l ∈ ls, key <:+: l → l = key ++ ds) →
      digitsAfter key ([c].intercalate ls) = some ds
  | [], hin, _ => by cases hin
  | [l], hin, _ => by
      rw [← List.mem_singleton.mp hin]
      have := digitsAfter_here hne hds hdigits
        (by simp : ∀ d ∈ ([] : List Char).head?, d.isDigit = false)
      simpa [List.intercalate] using this
  | l :: m :: ls, hin, honly => by
      rw [intercalate_cons_cons]
      by_cases hl : key <:+: l
      · rw [honly l (List.mem_cons_self ..) hl, List.append_assoc]
        exact digitsAfter_here hne hds hdigits (by simpa using hcd)
      · rw [digitsAfter_sep hc hne _ hl]
        refine digitsAfter_intercalate hc hcd hne hds hdigits ?_
          fun n hn => honly n (List.mem_cons_of_mem _ hn)
        refine (List.mem_cons.mp hin).resolve_left fun heq => hl ?_
        rw [← heq]
        exact (List.prefix_append key ds).isInfix

end Php
