import OnePloy.Lib.PhpArray
import OnePloy.Lib.PhpText

/-!
# The text of a value in JSON

`json_encode` with its default flags: slashes are escaped, and so is what is not
ASCII, in UTF-16. The text of a canonical value is the text of no other.
-/

namespace Php

namespace Json

/-! ## Characters -/

def hexDigit (n : Nat) : Char := Nat.digitChar n

def hexValue (c : Char) : Nat :=
  if c.isDigit then c.toNat - '0'.toNat else c.toNat - 'a'.toNat + 10

def escapeUnit (n : Nat) : List Char :=
  ['\\', 'u', hexDigit (n / 4096 % 16), hexDigit (n / 256 % 16), hexDigit (n / 16 % 16),
    hexDigit (n % 16)]

def escapeChar (c : Char) : List Char :=
  match c with
  | '"' => ['\\', '"']
  | '\\' => ['\\', '\\']
  | '/' => ['\\', '/']
  | '\x08' => ['\\', 'b']
  | '\x0C' => ['\\', 'f']
  | '\n' => ['\\', 'n']
  | '\r' => ['\\', 'r']
  | '\t' => ['\\', 't']
  | c =>
      let n := c.toNat
      if 32 ≤ n ∧ n < 128 then [c]
      else if n < 65536 then escapeUnit n
      else
        escapeUnit (55296 + (n - 65536) / 1024) ++ escapeUnit (56320 + (n - 65536) % 1024)

def unitOf (a b c d : Char) : Nat :=
  ((hexValue a * 16 + hexValue b) * 16 + hexValue c) * 16 + hexValue d

/-- The character that a text begins with, and what follows it. -/
def readChar : List Char → Option (Char × List Char)
  | '\\' :: '"' :: r => some ('"', r)
  | '\\' :: '\\' :: r => some ('\\', r)
  | '\\' :: '/' :: r => some ('/', r)
  | '\\' :: 'b' :: r => some ('\x08', r)
  | '\\' :: 'f' :: r => some ('\x0C', r)
  | '\\' :: 'n' :: r => some ('\n', r)
  | '\\' :: 'r' :: r => some ('\r', r)
  | '\\' :: 't' :: r => some ('\t', r)
  | '\\' :: 'u' :: a :: b :: c :: d :: r =>
      let n := unitOf a b c d
      if n < 55296 ∨ 57343 < n then some (Char.ofNat n, r)
      else
        match r with
        | '\\' :: 'u' :: a :: b :: c :: d :: r =>
            some (Char.ofNat (65536 + (n - 55296) * 1024 + (unitOf a b c d - 56320)), r)
        | _ => none
  | c :: r => some (c, r)
  | [] => none

theorem hexValue_hexDigit {n : Nat} (h : n < 16) : hexValue (hexDigit n) = n := by
  revert n
  decide

theorem unitOf_escapeUnit {n : Nat} (h : n < 65536) :
    unitOf (hexDigit (n / 4096 % 16)) (hexDigit (n / 256 % 16)) (hexDigit (n / 16 % 16))
      (hexDigit (n % 16)) = n := by
  rw [unitOf, hexValue_hexDigit (by omega), hexValue_hexDigit (by omega),
    hexValue_hexDigit (by omega), hexValue_hexDigit (by omega)]
  omega

theorem readChar_plain {c : Char} (h : c ≠ '\\') (r : List Char) :
    readChar (c :: r) = some (c, r) := by
  unfold readChar
  split <;> simp_all

theorem readChar_escapeUnit {n : Nat} (h : n < 65536) (hplane : n < 55296 ∨ 57343 < n)
    (r : List Char) : readChar (escapeUnit n ++ r) = some (Char.ofNat n, r) := by
  rw [escapeUnit]
  simp only [List.cons_append, List.nil_append, readChar, unitOf_escapeUnit h]
  rw [if_pos hplane]

/-- The two halves of a character that is not in the basic plane. -/
theorem readChar_escapePair {n : Nat} (h : 65536 ≤ n) (hmax : n < 1114112) (r : List Char) :
    readChar (escapeUnit (55296 + (n - 65536) / 1024) ++
      escapeUnit (56320 + (n - 65536) % 1024) ++ r) = some (Char.ofNat n, r) := by
  have hhigh : unitOf _ _ _ _ = _ :=
    unitOf_escapeUnit (n := 55296 + (n - 65536) / 1024) (by omega)
  have hlow : unitOf _ _ _ _ = _ :=
    unitOf_escapeUnit (n := 56320 + (n - 65536) % 1024) (by omega)
  rw [escapeUnit, escapeUnit]
  simp only [List.cons_append, List.nil_append, readChar, hhigh, hlow]
  rw [if_neg (by omega)]
  have hn : 65536 + (55296 + (n - 65536) / 1024 - 55296) * 1024 +
      (56320 + (n - 65536) % 1024 - 56320) = n := by omega
  rw [hn]

theorem readChar_escapeChar (c : Char) (r : List Char) :
    readChar (escapeChar c ++ r) = some (c, r) := by
  unfold escapeChar
  split
  all_goals try rfl
  next hback _ _ _ _ _ _ =>
    have hvalid : c.toNat < 55296 ∨ 57343 < c.toNat ∧ c.toNat < 1114112 := c.valid
    dsimp only
    split
    · exact readChar_plain hback r
    · split
      · next hsmall =>
          rw [readChar_escapeUnit hsmall (hvalid.imp_right And.left), Char.ofNat_toNat]
      · next hlarge =>
          rw [readChar_escapePair (by omega) (by omega), Char.ofNat_toNat]

/-! ## Texts -/

def escapeText (cs : List Char) : List Char := cs.flatMap escapeChar

def encodeText (s : String) : List Char := '"' :: (escapeText s.toList ++ ['"'])

theorem escapeChar_head (c : Char) : ∃ d ds, escapeChar c = d :: ds ∧ d ≠ '"' := by
  have hread := readChar_escapeChar c []
  rw [List.append_nil] at hread
  cases hc : escapeChar c with
  | nil => rw [hc] at hread; cases hread
  | cons d ds =>
      refine ⟨d, ds, rfl, ?_⟩
      rintro rfl
      rw [hc, readChar_plain (by decide)] at hread
      obtain ⟨rfl, rfl⟩ := Prod.mk.inj (Option.some.inj hread)
      cases hc

/-- The next quote ends the text. -/
theorem escapeText_append_inj : ∀ {cs ds r r' : List Char},
    escapeText cs ++ '"' :: r = escapeText ds ++ '"' :: r' → cs = ds ∧ r = r'
  | [], [], r, r', h => ⟨rfl, (List.cons.inj h).2⟩
  | [], d :: ds, r, r', h => by
      obtain ⟨x, xs, hx, hne⟩ := escapeChar_head d
      rw [escapeText, escapeText, List.flatMap_nil, List.flatMap_cons, hx] at h
      exact absurd (List.cons.inj h).1.symm hne
  | c :: cs, [], r, r', h => by
      obtain ⟨x, xs, hx, hne⟩ := escapeChar_head c
      rw [escapeText, escapeText, List.flatMap_nil, List.flatMap_cons, hx] at h
      exact absurd (List.cons.inj h).1 hne
  | c :: cs, d :: ds, r, r', h => by
      rw [escapeText, escapeText, List.flatMap_cons, List.flatMap_cons, List.append_assoc,
        List.append_assoc] at h
      have hread := congrArg readChar h
      rw [readChar_escapeChar, readChar_escapeChar] at hread
      obtain ⟨rfl, hrest⟩ := Prod.mk.inj (Option.some.inj hread)
      obtain ⟨rfl, hr⟩ := escapeText_append_inj hrest
      exact ⟨rfl, hr⟩

theorem encodeText_append_inj {s t : String} {r r' : List Char}
    (h : encodeText s ++ r = encodeText t ++ r') : s = t ∧ r = r' := by
  rw [encodeText, encodeText, List.cons_append, List.cons_append, List.append_assoc,
    List.append_assoc] at h
  obtain ⟨htext, hr⟩ := escapeText_append_inj (List.cons.inj h).2
  exact ⟨String.toList_injective htext, hr⟩

/-! ## Values -/

mutual

def encode : Value → List Char
  | .null => "null".toList
  | .bool b => if b then "true".toList else "false".toList
  | .int n => (toString n).toList
  | .float text => text.toList
  | .string s => encodeText s
  | .list items => '[' :: encodeItems items
  | .map fields =>
      if fields.map Prod.fst = (List.range fields.length).map toString then
        '[' :: encodeFieldValues fields
      else '{' :: encodeFields fields

/-- The items with what stands between and behind them. -/
def encodeItems : List Value → List Char
  | [] => [']']
  | v :: items => encode v ++ if items = [] then [']'] else ',' :: encodeItems items

def encodeFieldValues : List (String × Value) → List Char
  | [] => [']']
  | e :: fields => encode e.2 ++ if fields = [] then [']'] else ',' :: encodeFieldValues fields

def encodeFields : List (String × Value) → List Char
  | [] => ['}']
  | e :: fields =>
      encodeText e.1 ++ ':' :: encode e.2 ++
        if fields = [] then ['}'] else ',' :: encodeFields fields

end

end Json

def jsonEncode (v : Value) : String := String.ofList (Json.encode v)

namespace Json

/-- No digit follows. -/
def Delimited (r : List Char) : Prop := ∀ c ∈ r.head?, c.isDigit = false

theorem delimited_cons {c : Char} (r : List Char) (h : c.isDigit = false) : Delimited (c :: r) := by
  rintro d hd
  rw [List.head?_cons, Option.mem_some_iff] at hd
  exact hd ▸ h

theorem toDigits_append_inj {m n : Nat} {r r' : List Char} (hr : Delimited r) (hr' : Delimited r')
    (h : Nat.toDigits 10 m ++ r = Nat.toDigits 10 n ++ r') : m = n ∧ r = r' := by
  have htake := congrArg (List.takeWhile Char.isDigit) h
  rw [takeWhile_digits (fun _ => isDigit_of_mem_toDigits) hr,
    takeWhile_digits (fun _ => isDigit_of_mem_toDigits) hr'] at htake
  refine ⟨toDigits_injective htake, ?_⟩
  rwa [htake, List.append_cancel_left_eq] at h

theorem toString_natCast (n : Nat) : (toString (n : Int)).toList = Nat.toDigits 10 n :=
  Nat.toList_repr

theorem toString_negSucc (n : Nat) :
    (toString (Int.negSucc n)).toList = '-' :: Nat.toDigits 10 (n + 1) := by
  have hrepr : toString (Int.negSucc n) = "-" ++ Nat.repr (n + 1) := rfl
  rw [hrepr, String.toList_append, Nat.toList_repr]
  rfl

/-- A number begins with a digit or a sign. -/
theorem int_head (n : Int) :
    ∃ c cs, (toString n).toList = c :: cs ∧ (c.isDigit = true ∨ c = '-') := by
  cases n with
  | ofNat n =>
      cases hdigits : Nat.toDigits 10 n with
      | nil => exact absurd hdigits Nat.toDigits_ne_nil
      | cons c cs =>
          refine ⟨c, cs, (toString_natCast n).trans hdigits, .inl ?_⟩
          exact isDigit_of_mem_toDigits (hdigits ▸ List.mem_cons_self ..)
  | negSucc n => exact ⟨'-', _, toString_negSucc n, .inr rfl⟩

theorem int_append_inj {m n : Int} {r r' : List Char} (hr : Delimited r) (hr' : Delimited r')
    (h : (toString m).toList ++ r = (toString n).toList ++ r') : m = n ∧ r = r' := by
  have hsign : ∀ (k l : Nat) (a b : List Char),
      Nat.toDigits 10 k ++ a ≠ '-' :: (Nat.toDigits 10 l ++ b) := by
    intro k l a b heq
    cases hdigits : Nat.toDigits 10 k with
    | nil => exact Nat.toDigits_ne_nil hdigits
    | cons c cs =>
        rw [hdigits] at heq
        have hdigit := isDigit_of_mem_toDigits (hdigits ▸ List.mem_cons_self .. : c ∈ _)
        rw [(List.cons.inj heq).1] at hdigit
        cases hdigit
  cases m with
  | ofNat m =>
      cases n with
      | ofNat n =>
          rw [Int.ofNat_eq_natCast, Int.ofNat_eq_natCast, toString_natCast, toString_natCast] at h
          obtain ⟨rfl, hrest⟩ := toDigits_append_inj hr hr' h
          exact ⟨rfl, hrest⟩
      | negSucc n =>
          rw [Int.ofNat_eq_natCast, toString_natCast, toString_negSucc, List.cons_append] at h
          exact absurd h (hsign m (n + 1) r r')
  | negSucc m =>
      cases n with
      | ofNat n =>
          rw [Int.ofNat_eq_natCast, toString_natCast, toString_negSucc, List.cons_append] at h
          exact absurd h.symm (hsign n (m + 1) r' r)
      | negSucc n =>
          rw [toString_negSucc, toString_negSucc] at h
          obtain ⟨hmn, hrest⟩ := toDigits_append_inj hr hr' (List.cons.inj h).2
          exact ⟨by rw [Nat.succ.inj hmn], hrest⟩

/-! ## Canonical values -/

theorem encode_object {fields : List (String × Value)} (h : (Value.map fields).Canonical) :
    encode (.map fields) = '{' :: encodeFields fields := by
  cases h with
  | map _ hkeys => rw [encode, if_neg hkeys]

/-- A value begins with its own kind of character. -/
def opens : Value → Char → Bool
  | .null, c => c == 'n'
  | .bool b, c => c == if b then 't' else 'f'
  | .int _, c => c.isDigit || c == '-'
  | .float _, _ => true
  | .string _, c => c == '"'
  | .list _, c => c == '['
  | .map _, c => c == '{'

theorem encode_opens {v : Value} (h : v.Canonical) :
    ∃ c cs, encode v = c :: cs ∧ opens v c = true := by
  cases h with
  | null => exact ⟨'n', "ull".toList, by rw [encode]; rfl, rfl⟩
  | bool b => cases b <;> exact ⟨_, _, by rw [encode]; rfl, rfl⟩
  | int n =>
      obtain ⟨c, cs, htext, hc⟩ := int_head n
      exact ⟨c, cs, by rw [encode, htext], by simpa [opens] using hc⟩
  | string s => exact ⟨_, _, by rw [encode, encodeText], rfl⟩
  | list _ => exact ⟨_, _, by rw [encode], rfl⟩
  | map hfields hkeys => exact ⟨_, _, encode_object (.map hfields hkeys), rfl⟩

def kind : Value → Nat
  | .null => 0
  | .bool b => if b then 1 else 2
  | .int _ => 3
  | .float _ => 4
  | .string _ => 5
  | .list _ => 6
  | .map _ => 7

theorem kind_eq {v w : Value} (hv : v.Canonical) (hw : w.Canonical) {r r' : List Char}
    (h : encode v ++ r = encode w ++ r') : kind v = kind w := by
  obtain ⟨c, cs, hc, hopen⟩ := encode_opens hv
  obtain ⟨d, ds, hd, hopen'⟩ := encode_opens hw
  rw [hc, hd] at h
  obtain rfl := (List.cons.inj h).1
  have hdigit : ∀ x : Char, c = x → x.isDigit = false → x ≠ '-' →
      ¬ (c.isDigit = true ∨ c = '-') := by
    rintro x rfl hx hne (hy | hy)
    · rw [hx] at hy
      cases hy
    · exact hne hy
  cases hv with
  | int n =>
      cases hw with
      | int m => rfl
      | bool b =>
          rw [opens, Bool.or_eq_true, beq_iff_eq] at hopen
          cases b <;> exact absurd hopen (hdigit _ (beq_iff_eq.mp hopen') rfl (by decide))
      | _ =>
          rw [opens, Bool.or_eq_true, beq_iff_eq] at hopen
          exact absurd hopen (hdigit _ (beq_iff_eq.mp hopen') rfl (by decide))
  | bool b =>
      have hcb := beq_iff_eq.mp hopen
      cases hw with
      | int m =>
          rw [opens, Bool.or_eq_true, beq_iff_eq] at hopen'
          cases b <;> exact absurd hopen' (hdigit _ hcb rfl (by decide))
      | bool b' =>
          have := beq_iff_eq.mp hopen'
          cases b <;> cases b' <;> simp_all [kind]
      | _ =>
          have := beq_iff_eq.mp hopen'
          cases b <;> simp_all
  | _ =>
      have hcv := beq_iff_eq.mp hopen
      cases hw with
      | int m =>
          rw [opens, Bool.or_eq_true, beq_iff_eq] at hopen'
          exact absurd hopen' (hdigit _ hcv rfl (by decide))
      | bool b =>
          have := beq_iff_eq.mp hopen'
          cases b <;> simp_all
      | _ =>
          have := beq_iff_eq.mp hopen'
          first | rfl | simp_all

/-- What stands behind an item: the end, or a comma and more. -/
def tailOf (close : Char) (more : Option (List Char)) : List Char :=
  more.elim [close] fun cs => ',' :: cs

theorem tailOf_append_inj {close : Char} (hclose : close ≠ ',') {more more' : Option (List Char)}
    {r r' : List Char} (h : tailOf close more ++ r = tailOf close more' ++ r') :
    (more = none ∧ more' = none ∧ r = r') ∨
      ∃ cs cs', more = some cs ∧ more' = some cs' ∧ cs ++ r = cs' ++ r' := by
  cases more with
  | none =>
      cases more' with
      | none => exact .inl ⟨rfl, rfl, (List.cons.inj h).2⟩
      | some cs' => exact absurd (List.cons.inj h).1 hclose
  | some cs =>
      cases more' with
      | none => exact absurd (List.cons.inj h).1.symm hclose
      | some cs' => exact .inr ⟨cs, cs', rfl, rfl, (List.cons.inj h).2⟩

theorem delimited_tailOf {close : Char} (hclose : close.isDigit = false)
    (more : Option (List Char)) (r : List Char) : Delimited (tailOf close more ++ r) := by
  cases more with
  | none => exact delimited_cons r hclose
  | some cs => exact delimited_cons _ rfl

/-- The items behind the first, if there are any. -/
def moreItems (items : List Value) : Option (List Char) :=
  if items = [] then none else some (encodeItems items)

def moreFields (fields : List (String × Value)) : Option (List Char) :=
  if fields = [] then none else some (encodeFields fields)

theorem encodeItems_cons (v : Value) (items : List Value) :
    encodeItems (v :: items) = encode v ++ tailOf ']' (moreItems items) := by
  rw [encodeItems, moreItems]
  split <;> rfl

theorem encodeFields_cons (e : String × Value) (fields : List (String × Value)) :
    encodeFields (e :: fields) =
      encodeText e.1 ++ (':' :: (encode e.2 ++ tailOf '}' (moreFields fields))) := by
  rw [encodeFields, moreFields, List.append_assoc, List.cons_append]
  split <;> rfl

theorem moreItems_eq_none {items : List Value} : moreItems items = none ↔ items = [] := by
  rw [moreItems]
  split <;> simp_all

theorem moreItems_eq_some {items : List Value} {cs : List Char} (h : moreItems items = some cs) :
    cs = encodeItems items := by
  rw [moreItems, Option.ite_none_left_eq_some] at h
  exact (Option.some.inj h.2).symm

theorem moreFields_eq_none {fields : List (String × Value)} :
    moreFields fields = none ↔ fields = [] := by
  rw [moreFields]
  split <;> simp_all

theorem moreFields_eq_some {fields : List (String × Value)} {cs : List Char}
    (h : moreFields fields = some cs) : cs = encodeFields fields := by
  rw [moreFields, Option.ite_none_left_eq_some] at h
  exact (Option.some.inj h.2).symm

theorem encode_ne_close {v : Value} (hv : v.Canonical) {rest r : List Char} :
    encode v ++ rest ≠ ']' :: r := by
  obtain ⟨c, cs, hc, hopen⟩ := encode_opens hv
  intro h
  rw [hc] at h
  rw [(List.cons.inj h).1] at hopen
  cases hv with
  | bool b => cases b <;> cases hopen
  | _ => cases hopen

mutual

/-- The text of a value ends where it ends. -/
theorem encode_append_inj : ∀ {v w : Value} {r r' : List Char}, v.Canonical → w.Canonical →
    Delimited r → Delimited r' → encode v ++ r = encode w ++ r' → v = w ∧ r = r'
  | v, w, r, r', hv, hw, hr, hr', h => by
      have hkind := kind_eq hv hw h
      cases hv with
      | null =>
          cases hw with
          | null => exact ⟨rfl, List.append_cancel_left h⟩
          | bool b => cases b <;> cases hkind
          | _ => cases hkind
      | bool b =>
          cases hw with
          | bool b' =>
              cases b <;> cases b' <;>
                first
                | exact ⟨rfl, List.append_cancel_left h⟩
                | cases hkind
          | _ => cases b <;> cases hkind
      | int n =>
          cases hw with
          | int m =>
              rw [encode, encode] at h
              obtain ⟨rfl, hrest⟩ := int_append_inj hr hr' h
              exact ⟨rfl, hrest⟩
          | bool b => cases b <;> cases hkind
          | _ => cases hkind
      | string s =>
          cases hw with
          | string t =>
              rw [encode, encode] at h
              obtain ⟨rfl, hrest⟩ := encodeText_append_inj h
              exact ⟨rfl, hrest⟩
          | bool b => cases b <;> cases hkind
          | _ => cases hkind
      | @list items hitems =>
          cases hw with
          | @list items' hitems' =>
              rw [encode, encode] at h
              obtain ⟨rfl, hrest⟩ := encodeItems_append_inj hitems hitems' (List.cons.inj h).2
              exact ⟨rfl, hrest⟩
          | bool b => cases b <;> cases hkind
          | _ => cases hkind
      | @map fields hfields hkeys =>
          cases hw with
          | @map fields' hfields' hkeys' =>
              rw [encode_object (.map hfields hkeys), encode_object (.map hfields' hkeys')] at h
              obtain ⟨rfl, hrest⟩ := encodeFields_append_inj hfields hfields' (List.cons.inj h).2
              exact ⟨rfl, hrest⟩
          | bool b => cases b <;> cases hkind
          | _ => cases hkind

theorem encodeItems_append_inj : ∀ {items items' : List Value} {r r' : List Char},
    (∀ v ∈ items, v.Canonical) → (∀ v ∈ items', v.Canonical) →
    encodeItems items ++ r = encodeItems items' ++ r' → items = items' ∧ r = r'
  | [], [], r, r', _, _, h => ⟨rfl, (List.cons.inj h).2⟩
  | [], w :: items', r, r', _, hitems', h => by
      rw [encodeItems_cons, List.append_assoc] at h
      exact absurd h.symm (encode_ne_close (hitems' w (List.mem_cons_self ..)))
  | v :: items, [], r, r', hitems, _, h => by
      rw [encodeItems_cons, List.append_assoc] at h
      exact absurd h (encode_ne_close (hitems v (List.mem_cons_self ..)))
  | v :: items, w :: items', r, r', hitems, hitems', h => by
      rw [encodeItems_cons, encodeItems_cons, List.append_assoc, List.append_assoc] at h
      obtain ⟨rfl, htail⟩ := encode_append_inj (hitems v (List.mem_cons_self ..))
        (hitems' w (List.mem_cons_self ..)) (delimited_tailOf rfl _ _) (delimited_tailOf rfl _ _) h
      rcases tailOf_append_inj (by decide) htail with ⟨hnil, hnil', hr⟩ | ⟨cs, cs', hcs, hcs', hr⟩
      · rw [moreItems_eq_none.mp hnil, moreItems_eq_none.mp hnil']
        exact ⟨rfl, hr⟩
      · rw [moreItems_eq_some hcs, moreItems_eq_some hcs'] at hr
        obtain ⟨rfl, hrest⟩ := encodeItems_append_inj
          (fun u hu => hitems u (List.mem_cons_of_mem _ hu))
          (fun u hu => hitems' u (List.mem_cons_of_mem _ hu)) hr
        exact ⟨rfl, hrest⟩

theorem encodeFields_append_inj : ∀ {fields fields' : List (String × Value)} {r r' : List Char},
    (∀ e ∈ fields, e.2.Canonical) → (∀ e ∈ fields', e.2.Canonical) →
    encodeFields fields ++ r = encodeFields fields' ++ r' → fields = fields' ∧ r = r'
  | [], [], r, r', _, _, h => ⟨rfl, (List.cons.inj h).2⟩
  | [], e :: fields', r, r', _, _, h => by
      rw [encodeFields_cons, encodeText] at h
      exact absurd (List.cons.inj h).1 (by decide)
  | e :: fields, [], r, r', _, _, h => by
      rw [encodeFields_cons, encodeText] at h
      exact absurd (List.cons.inj h).1 (by decide)
  | (k, v) :: fields, (l, w) :: fields', r, r', hfields, hfields', h => by
      rw [encodeFields_cons, encodeFields_cons, List.append_assoc, List.append_assoc] at h
      obtain ⟨hkey, hvalue⟩ := encodeText_append_inj h
      obtain rfl : k = l := hkey
      rw [List.cons_append, List.cons_append, List.append_assoc, List.append_assoc] at hvalue
      obtain ⟨hv, htail⟩ := encode_append_inj (v := v) (w := w)
        (hfields _ (List.mem_cons_self ..)) (hfields' _ (List.mem_cons_self ..))
        (delimited_tailOf rfl _ _) (delimited_tailOf rfl _ _) (List.cons.inj hvalue).2
      obtain rfl := hv
      rcases tailOf_append_inj (by decide) htail with ⟨hnil, hnil', hr⟩ | ⟨cs, cs', hcs, hcs', hr⟩
      · rw [moreFields_eq_none.mp hnil, moreFields_eq_none.mp hnil']
        exact ⟨rfl, hr⟩
      · rw [moreFields_eq_some hcs, moreFields_eq_some hcs'] at hr
        obtain ⟨rfl, hrest⟩ := encodeFields_append_inj
          (fun u hu => hfields u (List.mem_cons_of_mem _ hu))
          (fun u hu => hfields' u (List.mem_cons_of_mem _ hu)) hr
        exact ⟨rfl, hrest⟩

end

end Json

/-- The text of a canonical value is that of no other. -/
theorem jsonEncode_injective {v w : Value} (hv : v.Canonical) (hw : w.Canonical)
    (h : jsonEncode v = jsonEncode w) : v = w := by
  have htext := congrArg String.toList h
  rw [jsonEncode, jsonEncode, String.toList_ofList, String.toList_ofList] at htext
  have hend : Json.Delimited [] := fun c hc => by cases hc
  refine (Json.encode_append_inj hv hw hend hend ?_).1
  rw [List.append_nil, List.append_nil, htext]

end Php
