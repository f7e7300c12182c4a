import OnePloy.Lib.PhpText
import Mathlib.Data.List.Infix

/-!
# Query strings as PHP reads and writes them

`urldecode`, `rawurlencode`, `http_build_query`, and the arguments that PHP takes
from a query string. A text put raw behind its name is read back as it was exactly
when it holds nothing that separates arguments and nothing that decoding changes;
otherwise what is read back is shorter (`lastOf_field`).
-/

namespace Php

def isHexDigit (c : Char) : Bool :=
  c.isDigit || (decide ('a' ≤ c) && decide (c ≤ 'f')) || (decide ('A' ≤ c) && decide (c ≤ 'F'))

def hexValue (c : Char) : Nat :=
  if c.isDigit then c.toNat - '0'.toNat
  else if 'a' ≤ c then c.toNat - 'a'.toNat + 10
  else c.toNat - 'A'.toNat + 10

def urldecode : List Char → List Char
  | '%' :: a :: b :: cs =>
      if isHexDigit a && isHexDigit b then Char.ofNat (hexValue a * 16 + hexValue b) :: urldecode cs
      else '%' :: urldecode (a :: b :: cs)
  | '+' :: cs => ' ' :: urldecode cs
  | c :: cs => c :: urldecode cs
  | [] => []

/-- Something in the text is read as something else. -/
def hasEscape : List Char → Bool
  | '%' :: a :: b :: cs => isHexDigit a && isHexDigit b || hasEscape (a :: b :: cs)
  | '+' :: _ => true
  | _ :: cs => hasEscape cs
  | [] => false

def hexDigit (n : Nat) : Char := (Nat.digitChar n).toUpper

def isUnreserved (c : Char) : Bool := c.isAlphanum || c == '-' || c == '_' || c == '.' || c == '~'

def rawurlencode (s : List Char) : List Char :=
  s.flatMap fun c =>
    if isUnreserved c then [c] else ['%', hexDigit (c.toNat / 16), hexDigit (c.toNat % 16)]

/-- `$name=$value` for each, joined. -/
def joinArguments (arguments : List (List Char × List Char)) : List Char :=
  ['&'].intercalate (arguments.map fun p => p.1 ++ '=' :: p.2)

/-- `http_build_query($data, '', '&', PHP_QUERY_RFC3986)`. -/
def httpBuildQuery (data : List (List Char × List Char)) : List Char :=
  joinArguments (data.map fun p => (rawurlencode p.1, rawurlencode p.2))

/-- What an argument of a request is. -/
inductive QueryValue
  | text (s : List Char)
  | array
deriving DecidableEq

/-- The name a variable is registered under, and whether it becomes an array. -/
def registeredName (name : List Char) : Option (List Char × Bool) :=
  let name := (name.takeWhile (· ≠ '\x00')).dropWhile (· == ' ')
  let underscored := fun c : Char => if c = ' ' ∨ c = '.' ∨ c = '[' then '_' else c
  let base := name.takeWhile (· ≠ '[')
  if base.isEmpty then none
  else if (name.dropWhile (· ≠ '[')).contains ']' then some (base.map underscored, true)
  else some (name.map underscored, false)

def parseArgument (argument : List Char) : Option (List Char × QueryValue) :=
  let name := urldecode (argument.takeWhile (· ≠ '='))
  let value := urldecode (argument.dropWhile (· ≠ '=')).tail
  (registeredName name).map fun r => (r.1, if r.2 then .array else .text value)

/-- What is registered, in order. -/
def parseQuery (query : List Char) : List (List Char × QueryValue) :=
  (pieces '&' query).filterMap parseArgument

/-- The last value of a name. -/
def lastOf {V : Type*} (name : List Char) : List (List Char × V) → Option V
  | [] => none
  | p :: ps => (lastOf name ps).or (if p.1 = name then some p.2 else none)

/-! ## Decoding -/

theorem urldecode_length_le (s : List Char) : (urldecode s).length ≤ s.length := by
  fun_induction urldecode s with
  | case1 a b cs hhex ih => simp only [List.length_cons]; omega
  | case2 a b cs hhex ih => simp only [List.length_cons] at ih ⊢; omega
  | case3 cs ih => simp only [List.length_cons]; omega
  | case4 c cs hno hplus ih => simp only [List.length_cons]; omega
  | case5 => exact Nat.le_refl _

theorem urldecode_eq_self {s : List Char} (h : hasEscape s = false) : urldecode s = s := by
  fun_induction hasEscape s with
  | case1 a b cs ih =>
      rw [Bool.or_eq_false_iff] at h
      rw [urldecode, if_neg (by simp [h.1]), ih h.2]
  | case2 cs => cases h
  | case3 c cs hno hplus ih => rw [urldecode.eq_3 _ _ hno hplus, ih h]
  | case4 => rfl

/-- Decoding shortens a text or changes a plus sign, if it changes anything. -/
theorem hasEscape_eq_false {s : List Char} (h : urldecode s = s) : hasEscape s = false := by
  fun_induction hasEscape s with
  | case1 a b cs ih =>
      by_cases hhex : (isHexDigit a && isHexDigit b) = true
      · rw [urldecode, if_pos hhex] at h
        have hlen := congrArg List.length h
        have hle := urldecode_length_le cs
        simp only [List.length_cons] at hlen
        omega
      · rw [urldecode, if_neg hhex] at h
        rw [Bool.or_eq_false_iff]
        exact ⟨by simpa using hhex, ih (List.cons.inj h).2⟩
  | case2 cs =>
      rw [urldecode] at h
      exact absurd (List.cons.inj h).1 (by decide)
  | case3 c cs hno hplus ih =>
      rw [urldecode.eq_3 _ _ hno hplus] at h
      exact ih (List.cons.inj h).2
  | case4 => rfl

/-! ## Pieces of joined texts -/

theorem length_le_of_mem_pieces {c : Char} {s p : List Char} (h : p ∈ pieces c s) :
    p.length ≤ s.length ∧ (c ∈ s → p.length < s.length) := by
  induction s generalizing p with
  | nil =>
      rw [pieces, List.mem_singleton] at h
      rw [h]
      exact ⟨Nat.le_refl _, fun hc => absurd hc List.not_mem_nil⟩
  | cons x xs ih =>
      rw [pieces] at h
      split at h
      · rcases List.mem_cons.mp h with rfl | h
        · simp
        · have := (ih h).1
          simp only [List.length_cons]
          omega
      · next hx =>
        cases hps : pieces c xs with
        | nil => exact absurd hps (pieces_ne_nil c xs)
        | cons q qs =>
            rw [hps] at h
            simp only [List.length_cons, List.mem_cons, Ne.symm hx, false_or]
            rcases List.mem_cons.mp h with rfl | h
            · obtain ⟨hle, hlt⟩ := ih (p := q) (by rw [hps]; exact List.mem_cons_self ..)
              exact ⟨by simpa using hle, fun hc => by simpa using hlt hc⟩
            · obtain ⟨hle, hlt⟩ := ih (p := p) (by rw [hps]; exact List.mem_cons_of_mem _ h)
              exact ⟨by omega, fun hc => by have := hlt hc; omega⟩

/-! ## Arguments -/

/-- A name that is registered as it is. -/
def PlainName (name : List Char) : Prop := name ≠ [] ∧ ∀ c ∈ name, c.isAlpha = true ∨ c = '_'

theorem PlainName.notMem {name : List Char} (h : PlainName name) {c : Char}
    (hc : (c.isAlpha || c == '_') = false) : c ∉ name := by
  intro hmem
  rcases h.2 c hmem with halpha | rfl
  · rw [halpha] at hc
    cases hc
  · revert hc
    decide

theorem urldecode_of_notMem {s : List Char} (hpercent : '%' ∉ s) (hplus : '+' ∉ s) :
    urldecode s = s := by
  induction s with
  | nil => rfl
  | cons c cs ih =>
      rw [List.mem_cons, not_or] at hpercent hplus
      rw [urldecode.eq_3, ih hpercent.2 hplus.2]
      · rintro a b cs rfl
        exact absurd rfl hpercent.1
      · rintro rfl
        exact absurd rfl hplus.1

theorem takeWhile_append_sep {c : Char} {a b : List Char} (ha : c ∉ a) :
    (a ++ c :: b).takeWhile (· ≠ c) = a ∧ (a ++ c :: b).dropWhile (· ≠ c) = c :: b := by
  have hall : ∀ x ∈ a, decide (x ≠ c) = true := fun x hx => by
    simpa using fun h : x = c => ha (h ▸ hx)
  rw [List.takeWhile_append_of_pos hall, List.dropWhile_append_of_pos hall]
  simp

theorem takeWhile_eq_self {c : Char} {a : List Char} (ha : c ∉ a) :
    a.takeWhile (· ≠ c) = a := by
  induction a with
  | nil => rfl
  | cons x xs ih =>
      rw [List.mem_cons, not_or] at ha
      rw [List.takeWhile_cons_of_pos (by simpa using Ne.symm ha.1), ih ha.2]

theorem registeredName_plain {name : List Char} (h : PlainName name) :
    registeredName name = some (name, false) := by
  have hnul := takeWhile_eq_self (h.notMem (c := '\x00') (by decide))
  have hbracket := takeWhile_eq_self (h.notMem (c := '[') (by decide))
  have hrest : name.dropWhile (· ≠ '[') = [] := by
    have hsplit := List.takeWhile_append_dropWhile (p := (· ≠ '[')) (l := name)
    rw [hbracket] at hsplit
    exact List.append_right_eq_self.mp hsplit
  have hspace : name.dropWhile (· == ' ') = name := by
    cases name with
    | nil => rfl
    | cons c cs =>
        have hc : c ≠ ' ' := fun heq =>
          h.notMem (c := ' ') (by decide) (heq ▸ List.mem_cons_self ..)
        rw [List.dropWhile_cons_of_neg (by simpa using hc)]
  have hmap : name.map (fun c : Char => if c = ' ' ∨ c = '.' ∨ c = '[' then '_' else c) = name := by
    conv_rhs => rw [← List.map_id name]
    refine List.map_congr_left fun c hc => if_neg ?_
    rintro (rfl | rfl | rfl)
    · exact h.notMem (by decide) hc
    · exact h.notMem (by decide) hc
    · exact h.notMem (by decide) hc
  have hne : name.isEmpty = false := by simpa using h.1
  simp only [registeredName, hnul, hspace, hbracket, hrest, hne, hmap, List.contains_nil,
    Bool.false_eq_true, if_false]

theorem parseArgument_plain {name : List Char} (h : PlainName name) (value : List Char) :
    parseArgument (name ++ '=' :: value) = some (name, .text (urldecode value)) := by
  obtain ⟨htake, hdrop⟩ := takeWhile_append_sep (b := value) (h.notMem (c := '=') (by decide))
  have hname : urldecode name = name :=
    urldecode_of_notMem (h.notMem (by decide)) (h.notMem (by decide))
  simp only [parseArgument, htake, hdrop, hname, registeredName_plain h, List.tail_cons,
    Option.map_some, Bool.false_eq_true, if_false]

/-- What is read from an argument is no longer than the argument. -/
theorem length_le_of_parseArgument {argument name s : List Char}
    (h : parseArgument argument = some (name, .text s)) : s.length ≤ argument.length := by
  rw [parseArgument, Option.map_eq_some_iff] at h
  obtain ⟨r, -, heq⟩ := h
  have hvalue := (Prod.mk.inj heq).2
  split at hvalue
  · cases hvalue
  · obtain rfl := QueryValue.text.inj hvalue
    have hdecode := urldecode_length_le (argument.dropWhile (· ≠ '=')).tail
    have hdrop := (List.dropWhile_suffix (l := argument) (· ≠ '=')).length_le
    rw [List.length_tail] at hdecode
    omega

theorem parseQuery_joinArguments {p : List Char × List Char}
    {ps : List (List Char × List Char)} :
    parseQuery (joinArguments (p :: ps))
      = (p :: ps).flatMap fun q => parseQuery (q.1 ++ '=' :: q.2) := by
  rw [parseQuery, joinArguments, List.map_cons, pieces_intercalate, List.filterMap_flatMap,
    ← List.map_cons (f := fun q : List Char × List Char => q.1 ++ '=' :: q.2), List.flatMap_map]
  rfl

/-! ## The last value of a name -/

section LastOf

variable {V : Type*} {name : List Char}

theorem lastOf_append (name : List Char) (a b : List (List Char × V)) :
    lastOf name (a ++ b) = (lastOf name b).or (lastOf name a) := by
  induction a with
  | nil => simp [lastOf]
  | cons p ps ih => rw [List.cons_append, lastOf, lastOf, ih, Option.or_assoc]

theorem mem_of_lastOf {v : V} {ps : List (List Char × V)} (h : lastOf name ps = some v) :
    (name, v) ∈ ps := by
  induction ps with
  | nil => cases h
  | cons p ps ih =>
      rw [lastOf] at h
      rcases Option.or_eq_some_iff.mp h with h | ⟨-, h⟩
      · exact List.mem_cons_of_mem _ (ih h)
      · split at h
        · next hname =>
          obtain rfl := Option.some.inj h
          exact List.mem_cons.mpr (.inl (by rw [← hname]))
        · cases h

end LastOf

/-- A text put raw behind its name: what is read back is no longer, and shorter when
the text separates arguments; otherwise the text is decoded. -/
theorem lastOf_field {name : List Char} (h : PlainName name) (value : List Char) :
    ∃ v, lastOf name (parseQuery (name ++ '=' :: value)) = some v ∧
      (∀ s, v = .text s → s.length ≤ value.length ∧ ('&' ∈ value → s.length < value.length)) ∧
      ('&' ∉ value → v = .text (urldecode value)) := by
  have hamp : '&' ∉ name ++ ['='] := by
    rw [List.mem_append, not_or]
    exact ⟨h.notMem (by decide), by decide⟩
  cases hp : pieces '&' value with
  | nil => exact absurd hp (pieces_ne_nil '&' value)
  | cons first rest =>
      have hparse : parseQuery (name ++ '=' :: value)
          = (name, .text (urldecode first)) :: rest.filterMap parseArgument := by
        have hpieces := pieces_append hamp hp
        rw [List.append_assoc, List.append_assoc] at hpieces
        rw [parseQuery, show name ++ '=' :: value = name ++ (['='] ++ value) from rfl, hpieces]
        exact List.filterMap_cons_some (parseArgument_plain h first)
      have hfirst := length_le_of_mem_pieces (p := first) (c := '&') (s := value)
        (by rw [hp]; exact List.mem_cons_self ..)
      rw [hparse, lastOf, if_pos rfl]
      cases hlast : lastOf name (rest.filterMap parseArgument) with
      | none =>
          refine ⟨_, rfl, ?_, fun hno => ?_⟩
          · intro s hs
            obtain rfl := QueryValue.text.inj hs
            have := urldecode_length_le first
            exact ⟨by omega, fun hc => by have := hfirst.2 hc; omega⟩
          · rw [pieces_of_notMem hno] at hp
            rw [(List.cons.inj hp).1]
      | some v =>
          refine ⟨v, rfl, ?_, fun hno => ?_⟩
          · rintro s rfl
            obtain ⟨argument, hmem, harg⟩ := List.mem_filterMap.mp (mem_of_lastOf hlast)
            have hlen := length_le_of_parseArgument harg
            have hpiece := length_le_of_mem_pieces (p := argument) (c := '&') (s := value)
              (by rw [hp]; exact List.mem_cons_of_mem _ hmem)
            exact ⟨by omega, fun hc => by have := hpiece.2 hc; omega⟩
          · rw [pieces_of_notMem hno] at hp
            obtain rfl := (List.cons.inj hp).2
            cases hlast

/-- An argument with another name, and nothing to separate, sets nothing else. -/
theorem lastOf_field_ne {name other value : List Char} (h : PlainName other) (hne : other ≠ name)
    (hamp : '&' ∉ value) : lastOf name (parseQuery (other ++ '=' :: value)) = none := by
  have hno : '&' ∉ other ++ '=' :: value := by
    rw [List.mem_append, List.mem_cons, not_or, not_or]
    exact ⟨h.notMem (by decide), by decide, hamp⟩
  rw [parseQuery, pieces_of_notMem hno, List.filterMap_cons_some (parseArgument_plain h value)]
  simp [lastOf, hne]

theorem lastOf_flatMap_none {name : List Char} {args : List (List Char × List Char)}
    (h : ∀ q ∈ args, PlainName q.1 ∧ q.1 ≠ name ∧ '&' ∉ q.2) :
    lastOf name (args.flatMap fun q => parseQuery (q.1 ++ '=' :: q.2)) = none := by
  induction args with
  | nil => rfl
  | cons q qs ih =>
      obtain ⟨hplain, hne, hamp⟩ := h q (List.mem_cons_self ..)
      rw [List.flatMap_cons, lastOf_append, ih fun r hr => h r (List.mem_cons_of_mem _ hr),
        lastOf_field_ne hplain hne hamp]
      rfl

/-- Arguments before do not count, and those after only if they hold a separator. -/
theorem lastOf_joinArguments (before : List (List Char × List Char))
    {behind : List (List Char × List Char)} {name : List Char} (h : PlainName name)
    (value : List Char) (hbehind : ∀ q ∈ behind, PlainName q.1 ∧ q.1 ≠ name ∧ '&' ∉ q.2) :
    ∃ v, lastOf name (parseQuery (joinArguments (before ++ (name, value) :: behind))) = some v ∧
      (∀ s, v = .text s → s.length ≤ value.length ∧ ('&' ∈ value → s.length < value.length)) ∧
      ('&' ∉ value → v = .text (urldecode value)) := by
  obtain ⟨v, hlast, hrest⟩ := lastOf_field h value
  refine ⟨v, ?_, hrest⟩
  obtain ⟨p, ps, hps⟩ : ∃ p ps, before ++ (name, value) :: behind = p :: ps := by
    cases before with
    | nil => exact ⟨_, _, rfl⟩
    | cons p ps => exact ⟨_, _, rfl⟩
  rw [hps, parseQuery_joinArguments, ← hps, List.flatMap_append, List.flatMap_cons,
    lastOf_append, lastOf_append, lastOf_flatMap_none hbehind, Option.none_or, hlast]
  rfl

/-! ## Cutting a query short -/

theorem takeWhile_append_of_mem {c : Char} {a b : List Char} (ha : c ∈ a) :
    (a ++ b).takeWhile (· ≠ c) = a.takeWhile (· ≠ c) := by
  induction a with
  | nil => cases ha
  | cons x xs ih =>
      by_cases hx : x = c
      · simp [hx]
      · have hxs : c ∈ xs := by
          rcases List.mem_cons.mp ha with rfl | h
          · exact absurd rfl hx
          · exact h
        rw [List.cons_append, List.takeWhile_cons_of_pos (by simpa using hx),
          List.takeWhile_cons_of_pos (by simpa using hx), ih hxs]

theorem takeWhile_append_of_notMem {c : Char} {a b : List Char} (ha : c ∉ a) :
    (a ++ b).takeWhile (· ≠ c) = a ++ b.takeWhile (· ≠ c) :=
  List.takeWhile_append_of_pos fun x hx => by simpa using fun h : x = c => ha (h ▸ hx)

theorem takeWhile_length_lt {c : Char} {a : List Char} (ha : c ∈ a) :
    (a.takeWhile (· ≠ c)).length < a.length := by
  induction a with
  | nil => cases ha
  | cons x xs ih =>
      by_cases hx : x = c
      · simp [hx]
      · rw [List.takeWhile_cons_of_pos (by simpa using hx)]
        have := ih ((List.mem_cons.mp ha).resolve_left (Ne.symm hx))
        simpa using this

section Cut

variable {c : Char} (hamp : c ≠ '&') (heq : c ≠ '=')
include hamp heq

omit hamp in
theorem notMem_argument {q : List Char × List Char} (h : c ∉ q.1 ∧ c ∉ q.2) :
    c ∉ q.1 ++ '=' :: q.2 := by
  rw [List.mem_append, List.mem_cons, not_or, not_or]
  exact ⟨h.1, heq, h.2⟩

theorem notMem_joinArguments {args : List (List Char × List Char)}
    (h : ∀ q ∈ args, c ∉ q.1 ∧ c ∉ q.2) : c ∉ joinArguments args := by
  intro hmem
  have hin : [c] <:+: joinArguments args := List.singleton_infix_iff _ _ |>.mpr hmem
  obtain ⟨l, hl, hcl⟩ := infix_intercalate (by simpa using Ne.symm hamp) (by simp) |>.mp hin
  obtain ⟨q, hq, rfl⟩ := List.mem_map.mp hl
  exact notMem_argument heq (h q hq) (List.singleton_infix_iff _ _ |>.mp hcl)

/-- A query that is cut within an argument ends with what is left of it. -/
theorem takeWhile_joinArguments {before behind : List (List Char × List Char)}
    {name value : List Char} (hbefore : ∀ q ∈ before, c ∉ q.1 ∧ c ∉ q.2) (hname : c ∉ name)
    (hvalue : c ∈ value) :
    (joinArguments (before ++ (name, value) :: behind)).takeWhile (· ≠ c)
      = joinArguments (before ++ [(name, value.takeWhile (· ≠ c))]) := by
  induction before with
  | nil =>
      have hsign : c ∉ name ++ ['='] := by
        rw [List.mem_append, List.mem_singleton, not_or]
        exact ⟨hname, heq⟩
      have hcut : ∀ rest : List Char, ((name ++ '=' :: value) ++ rest).takeWhile (· ≠ c)
          = name ++ '=' :: value.takeWhile (· ≠ c) := by
        intro rest
        rw [show (name ++ '=' :: value) ++ rest = (name ++ ['=']) ++ (value ++ rest) by simp,
          takeWhile_append_of_notMem hsign, takeWhile_append_of_mem hvalue]
        simp
      cases behind with
      | nil => simpa [joinArguments, List.intercalate] using hcut []
      | cons q qs =>
          simp only [joinArguments, List.nil_append, List.map_cons, intercalate_cons_cons, hcut]
          simp [List.intercalate]
  | cons p ps ih =>
      have hp := notMem_argument heq (hbefore p (List.mem_cons_self ..))
      have ih := ih fun q hq => hbefore q (List.mem_cons_of_mem _ hq)
      obtain ⟨r, rs, hrs⟩ : ∃ r rs, ps ++ (name, value) :: behind = r :: rs := by
        cases ps with
        | nil => exact ⟨_, _, rfl⟩
        | cons r rs => exact ⟨_, _, rfl⟩
      obtain ⟨t, ts, hts⟩ :
          ∃ t ts, ps ++ [(name, value.takeWhile (· ≠ c))] = t :: ts := by
        cases ps with
        | nil => exact ⟨_, _, rfl⟩
        | cons t ts => exact ⟨_, _, rfl⟩
      rw [hrs, hts] at ih
      simp only [joinArguments, List.map_cons] at ih
      rw [List.cons_append, List.cons_append, hrs, hts]
      simp only [joinArguments, List.map_cons, intercalate_cons_cons]
      rw [takeWhile_append_of_notMem hp, List.takeWhile_cons_of_pos (by simpa using Ne.symm hamp),
        ih]

end Cut

end Php
