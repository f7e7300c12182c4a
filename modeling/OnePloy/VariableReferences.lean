import Mathlib.Data.List.TakeWhile
import OnePloy.EnvironmentDevView

/-!
# Variables that a value refers to

`${NAME}` and `${NAME:-default}` in the environment of a compose file: the expression is
taken apart at its own braces (`extractBalancedBraceContent_value`) and its operator
(`splitOnOperatorOutsideNested_text`), whatever its default is. Rows are created for its
name and for what stands in braces directly in the default; deeper the parser does not
look, and any braces there pass for a reference.
-/

namespace OnePloy

open Php

namespace References

/-! ## extractBalancedBraceContent -/

/-- Up to the brace that closes, and what follows it; the number says how many more are
open. -/
def closing : Nat → List Char → Option (List Char × List Char)
  | _, [] => none
  | depth, c :: cs =>
      if c = '{' then (closing (depth + 1) cs).map fun p => (c :: p.1, p.2)
      else if c = '}' then
        match depth with
        | 0 => some ([], cs)
        | depth + 1 => (closing depth cs).map fun p => (c :: p.1, p.2)
      else (closing depth cs).map fun p => (c :: p.1, p.2)

structure BraceContent where
  content : List Char
  start : Nat
  finish : Nat
  deriving DecidableEq

def extractBalancedBraceContent (str : List Char) (startPos : Nat) : Option BraceContent :=
  match (str.drop startPos).dropWhile (· != '{') with
  | [] => none
  | _ :: inside => (closing 0 inside).map fun p =>
      ⟨p.1, str.length - inside.length - 1, str.length - p.2.length - 1⟩

/-- What the loop over a default extracts, one after the other; the number says how many
characters belong to the last one. -/
def nestedContents : Nat → List Char → List (List Char)
  | _, [] => []
  | n + 1, _ :: cs => nestedContents n cs
  | 0, c :: cs =>
      if c = '{' then
        match closing 0 cs with
        | some (content, _) => content :: nestedContents (content.length + 1) cs
        | none => []
      else nestedContents 0 cs

/-! ## splitOnOperatorOutsideNested -/

def operators : List (List Char) := [[':', '-'], ['-'], [':', '?'], ['?']]

structure OperatorSplit where
  name : List Char
  operator : List Char
  default : List Char
  deriving DecidableEq

def OperatorSplit.cons (c : Char) (split : OperatorSplit) : OperatorSplit :=
  { split with name := c :: split.name }

def splitFrom : Int → List Char → Option OperatorSplit
  | _, [] => none
  | depth, c :: cs =>
      if c = '{' then (splitFrom (depth + 1) cs).map (.cons c)
      else if c = '}' then (splitFrom (depth - 1) cs).map (.cons c)
      else if depth = 0 then
        match operators.find? (·.isPrefixOf (c :: cs)) with
        | some operator => some ⟨[], operator, (c :: cs).drop operator.length⟩
        | none => (splitFrom depth cs).map (.cons c)
      else (splitFrom depth cs).map (.cons c)

def splitOnOperatorOutsideNested (content : List Char) : Option OperatorSplit :=
  splitFrom 0 content

/-! ## replaceVariables -/

/-- `Str::before`, where what is searched is not empty. -/
def textBefore (subject search : List Char) : List Char :=
  ((cut search subject).map Prod.fst).getD subject

/-- `Str::after`. -/
def textAfter (subject search : List Char) : List Char :=
  ((cut search subject).map Prod.snd).getD subject

/-- `Str::replaceFirst` of one character by nothing. -/
def dropFirst (c : Char) (subject : List Char) : List Char :=
  match cut [c] subject with
  | some (before, after) => before ++ after
  | none => subject

def replaceVariables (value : List Char) : List Char :=
  if ['$', '{'].isPrefixOf value then
    match extractBalancedBraceContent value 0 with
    | some result => result.content
    | none => dropFirst '{' (dropFirst '$' (textBefore value ['}']))
  else if value.head? = some '{' ∧ value.getLast? = some '}' then value.tail.dropLast
  else if value.head? = some '{' then
    match extractBalancedBraceContent ('$' :: value) 0 with
    | some result => result.content
    | none => textBefore (dropFirst '{' value) ['}']
  else if value.head? = some '$' then dropFirst '$' value
  else value

/-! ## Rows -/

structure VariableRow where
  key : EnvironmentKey
  value : Option String
  isRequired : Bool
  deriving DecidableEq

/-- The rows of an application, and the environment that is put into its compose file. -/
structure ParserState where
  rows : List VariableRow
  environment : OrderedMap String (Option String)

/-- What is looked for, and what it is created with. -/
structure Finding where
  key : List Char
  value : Option (List Char)
  isRequired : Bool

section

/- The characters that the framework's `Str::trim` takes off. -/
variable (strTrimmed : Char → Bool)

/-- `firstOrCreate`: a row is found by its key as it stands, and created with the key and
the value that the setters make of them. -/
def firstOrCreate (rows : List VariableRow) (finding : Finding) :
    Except String (List VariableRow × VariableRow) :=
  match rows.find? fun row => row.key.val.toList = finding.key with
  | some row => .ok (rows, row)
  | none => (validatedEnvironmentVariableKey strTrimmed (String.ofList finding.key)).map fun key =>
      let row : VariableRow :=
        ⟨key, finding.value.map fun value => trim (String.ofList value), finding.isRequired⟩
      (rows ++ [row], row)

/-- The variable is put into the environment with the value of its row. -/
def register (state : ParserState) (finding : Finding) : Except String ParserState :=
  (firstOrCreate strTrimmed state.rows finding).map fun p =>
    ⟨p.1, state.environment.set (String.ofList finding.key) p.2.value⟩

/-- The row is created, and the environment is left. -/
def create (state : ParserState) (finding : Finding) : Except String ParserState :=
  (firstOrCreate strTrimmed state.rows finding).map fun p => { state with rows := p.1 }

/-- `str_contains($default, '${')`. -/
def hasReference (default : List Char) : Bool := (cut ['$', '{'] default).isSome

def isMagicVariable (name : List Char) : Bool :=
  "SERVICE_URL_".toList.isPrefixOf name || "SERVICE_FQDN_".toList.isPrefixOf name

/-- What is looked for in braces directly in a default. -/
def nestedFinding (content : List Char) : Finding :=
  match splitOnOperatorOutsideNested content with
  | some split => ⟨split.name, some split.default, false⟩
  | none => ⟨content, none, false⟩

def nestedTurn (state : ParserState) (content : List Char) : Except String ParserState :=
  if isMagicVariable (nestedFinding content).key then .ok state
  else register strTrimmed state (nestedFinding content)

/-- The fallback for braces that are not balanced. -/
def malformedTurn (state : ParserState) (key original : List Char) : Except String ParserState :=
  let cutAt (separator operator : List Char) : List Char × List Char :=
    let value := replaceVariables original
    (textBefore value separator, textAfter value operator)
  let parsed : List Char × List Char × Bool :=
    if (cut [':', '-'] original).isSome then
      ((cutAt [':'] [':', '-']).1, (cutAt [':'] [':', '-']).2, false)
    else if (cut ['-'] original).isSome then
      ((cutAt ['-'] ['-']).1, (cutAt ['-'] ['-']).2, false)
    else if (cut [':', '?'] original).isSome then
      ((cutAt [':'] [':', '?']).1, (cutAt [':'] [':', '?']).2, true)
    else if (cut ['?'] original).isSome then
      ((cutAt ['?'] ['?']).1, (cutAt ['?'] ['?']).2, true)
    else (key, original, false)
  if original = parsed.2.1 then
    register strTrimmed state ⟨replaceVariables parsed.2.1, none, parsed.2.2⟩
  else create strTrimmed state ⟨parsed.1, some parsed.2.1, parsed.2.2⟩

/-- A reference whose braces are balanced. -/
def referenceTurn (state : ParserState) (content : List Char) : Except String ParserState :=
  match splitOnOperatorOutsideNested content with
  | some split =>
      (register strTrimmed state
          ⟨split.name, some split.default, split.operator.contains '?'⟩).bind fun state =>
        if hasReference split.default then
          (nestedContents 0 split.default).foldlM (nestedTurn strTrimmed) state
        else .ok state
  | none => register strTrimmed state ⟨content, none, false⟩

/-- One variable of the environment. -/
def environmentTurn (state : ParserState) (key value : List Char) : Except String ParserState :=
  if "$SERVICE_".toList.isPrefixOf value then
    create strTrimmed state ⟨key, some value, false⟩
  else if value.head? ≠ some '$' then .ok state
  else if key = replaceVariables value then create strTrimmed state ⟨key, none, false⟩
  else
    match extractBalancedBraceContent value 0 with
    | some result => referenceTurn strTrimmed state result.content
    | none => malformedTurn strTrimmed state key value

end

/-! ## Expressions -/

inductive Operator
  | colonDash | dash | colonQuestion | question
  deriving DecidableEq

def Operator.chars : Operator → List Char
  | colonDash => [':', '-']
  | dash => ['-']
  | colonQuestion => [':', '?']
  | question => ['?']

/-- Text whose braces are balanced, with references in it. -/
inductive Text
  | done
  | char (c : Char) (h : c ≠ '{' ∧ c ≠ '}') (rest : Text)
  | braces (inside rest : Text)
  /-- `${name}`. -/
  | reference (name : EnvironmentKey) (rest : Text)
  /-- `${name op default}`. -/
  | defaulted (name : EnvironmentKey) (op : Operator) (default rest : Text)

/-- The characters of a name. -/
def nameOf (name : EnvironmentKey) : List Char := name.val.toList

namespace Text

def chars : Text → List Char
  | done => []
  | char c _ rest => c :: rest.chars
  | braces inside rest => '{' :: (inside.chars ++ '}' :: rest.chars)
  | reference name rest => '$' :: '{' :: (nameOf name ++ '}' :: rest.chars)
  | defaulted name op default rest =>
      '$' :: '{' :: (nameOf name ++ (op.chars ++ default.chars) ++ '}' :: rest.chars)

/-- The names that occur, each with its own default. -/
def occurrences : Text → List (EnvironmentKey × Option (List Char))
  | done => []
  | char _ _ rest => rest.occurrences
  | braces inside rest => inside.occurrences ++ rest.occurrences
  | reference name rest => (name, none) :: rest.occurrences
  | defaulted name _ default rest =>
      (name, some default.chars) :: (default.occurrences ++ rest.occurrences)

/-- What stands in braces that are in no others. -/
def tops : Text → List (List Char)
  | done => []
  | char _ _ rest => rest.tops
  | braces inside rest => inside.chars :: rest.tops
  | reference name rest => nameOf name :: rest.tops
  | defaulted name op default rest => (nameOf name ++ (op.chars ++ default.chars)) :: rest.tops

end Text

/-- `NAME`, or `NAME op default`. -/
inductive Expression
  | plain (name : EnvironmentKey)
  | defaulted (name : EnvironmentKey) (op : Operator) (default : Text)

namespace Expression

def chars : Expression → List Char
  | plain name => nameOf name
  | defaulted name op default => nameOf name ++ (op.chars ++ default.chars)

/-- `${expression}`. -/
def value (e : Expression) : List Char := '$' :: '{' :: (e.chars ++ ['}'])

def occurrences : Expression → List (EnvironmentKey × Option (List Char))
  | plain name => [(name, none)]
  | defaulted name _ default => (name, some default.chars) :: default.occurrences

/-- Name, operator and default. -/
def parts : Expression → Option OperatorSplit
  | plain _ => none
  | defaulted name op default => some ⟨nameOf name, op.chars, default.chars⟩

end Expression

/-! ## Taken apart -/

theorem isKeyChar_of_mem_name {name : EnvironmentKey} {c : Char} (h : c ∈ nameOf name) :
    isKeyChar c = true :=
  (isKeyChar_of_mem name.2).2 c h

theorem not_mem_name_of {c : Char} (hc : isKeyChar c = false) (name : EnvironmentKey) :
    c ∉ nameOf name := by
  intro h
  rw [isKeyChar_of_mem_name h] at hc
  cases hc

theorem closing_char {c : Char} (h : c ≠ '{' ∧ c ≠ '}') (depth : Nat) (cs : List Char) :
    closing depth (c :: cs) = (closing depth cs).map fun p => (c :: p.1, p.2) := by
  rw [closing.eq_def]
  dsimp only
  rw [if_neg h.1, if_neg h.2]

/-- Text without braces does not change what is open. -/
theorem closing_plain {w : List Char} (h : '{' ∉ w ∧ '}' ∉ w) (depth : Nat) (rest : List Char) :
    closing depth (w ++ rest) = (closing depth rest).map fun p => (w ++ p.1, p.2) := by
  induction w with
  | nil =>
      rw [List.nil_append]
      cases closing depth rest <;> rfl
  | cons c w ih =>
      have hopen : c ≠ '{' := fun heq => h.1 (heq ▸ List.mem_cons_self ..)
      have hclose : c ≠ '}' := fun heq => h.2 (heq ▸ List.mem_cons_self ..)
      rw [List.cons_append, closing_char ⟨hopen, hclose⟩,
        ih ⟨fun hm => h.1 (List.mem_cons_of_mem _ hm), fun hm => h.2 (List.mem_cons_of_mem _ hm)⟩,
        Option.map_map]
      rfl

theorem closing_open (depth : Nat) (cs : List Char) :
    closing depth ('{' :: cs) = (closing (depth + 1) cs).map fun p => ('{' :: p.1, p.2) := rfl

theorem closing_close (depth : Nat) (cs : List Char) :
    closing (depth + 1) ('}' :: cs) = (closing depth cs).map fun p => ('}' :: p.1, p.2) := rfl

theorem name_no_braces (name : EnvironmentKey) : '{' ∉ nameOf name ∧ '}' ∉ nameOf name :=
  ⟨not_mem_name_of rfl name, not_mem_name_of rfl name⟩

theorem Operator.no_braces (op : Operator) : '{' ∉ op.chars ∧ '}' ∉ op.chars := by
  cases op <;> simp [Operator.chars]

/-- Neither does text whose braces are balanced. -/
theorem closing_text (t : Text) (depth : Nat) (rest : List Char) :
    closing depth (t.chars ++ rest) = (closing depth rest).map fun p => (t.chars ++ p.1, p.2) := by
  induction t generalizing depth rest with
  | done =>
      rw [Text.chars, List.nil_append]
      cases closing depth rest <;> rfl
  | char c h t ih =>
      rw [Text.chars, List.cons_append, closing_char h, ih, Option.map_map]
      rfl
  | braces inside t ihInside ih =>
      rw [Text.chars, List.cons_append, List.append_assoc, List.cons_append, closing_open,
        ihInside, closing_close, ih, Option.map_map, Option.map_map, Option.map_map]
      congr 1
      funext p
      simp
  | reference name t ih =>
      rw [Text.chars, List.cons_append, closing_char (by decide), List.cons_append,
        List.append_assoc, List.cons_append, closing_open,
        closing_plain (name_no_braces name), closing_close, ih, Option.map_map, Option.map_map,
        Option.map_map, Option.map_map]
      congr 1
      funext p
      simp
  | defaulted name op default t ihDefault ih =>
      rw [Text.chars, List.cons_append, closing_char (by decide), List.cons_append, closing_open,
        List.append_assoc, List.append_assoc, List.append_assoc,
        closing_plain (name_no_braces name), closing_plain op.no_braces, ihDefault,
        List.cons_append, closing_close, ih,
        Option.map_map, Option.map_map, Option.map_map, Option.map_map, Option.map_map,
        Option.map_map]
      congr 1
      funext p
      simp

theorem closing_expression (e : Expression) (rest : List Char) :
    closing 0 (e.chars ++ '}' :: rest) = some (e.chars, rest) := by
  have hend : ∀ cs : List Char, closing 0 ('}' :: cs) = some ([], cs) := fun _ => rfl
  cases e with
  | plain name =>
      rw [Expression.chars, closing_plain (name_no_braces name), hend]
      simp
  | defaulted name op default =>
      rw [Expression.chars, List.append_assoc, List.append_assoc,
        closing_plain (name_no_braces name), closing_plain op.no_braces, closing_text, hend]
      simp

theorem extractBalancedBraceContent_value (e : Expression) :
    extractBalancedBraceContent e.value 0 = some ⟨e.chars, 1, e.chars.length + 2⟩ := by
  have hdrop : (e.value.drop 0).dropWhile (· != '{') = '{' :: (e.chars ++ ['}']) := rfl
  rw [extractBalancedBraceContent, hdrop]
  dsimp only
  rw [closing_expression]
  simp [Expression.value]

/-! ### The operator -/

theorem splitFrom_name {w : List Char} (h : ∀ c ∈ w, isKeyChar c = true) (rest : List Char) :
    splitFrom 0 (w ++ rest) =
      (splitFrom 0 rest).map fun split => { split with name := w ++ split.name } := by
  induction w with
  | nil =>
      rw [List.nil_append]
      cases splitFrom 0 rest <;> rfl
  | cons c w ih =>
      have hc := h c (List.mem_cons_self ..)
      have hne : ∀ d, isKeyChar d = false → c ≠ d := by
        rintro d hd rfl
        rw [hc] at hd
        cases hd
      have hnone : operators.find? (·.isPrefixOf (c :: (w ++ rest))) = none := by
        rw [List.find?_eq_none]
        intro op hop hfront
        obtain ⟨d, op, rfl⟩ := List.exists_cons_of_ne_nil
          (show op ≠ [] by rintro rfl; exact absurd hop (by decide))
        have hd : d ∈ [':', '-', '?'] := by
          simp only [operators, List.mem_cons, List.not_mem_nil, or_false, List.cons.injEq] at hop
          rcases hop with ⟨rfl, -⟩ | ⟨rfl, -⟩ | ⟨rfl, -⟩ | ⟨rfl, -⟩ <;> decide
        have hcd : d = c := (List.cons_prefix_cons.mp (List.isPrefixOf_iff_prefix.mp hfront)).1
        refine hne d ?_ hcd.symm
        simp only [List.mem_cons, List.not_mem_nil, or_false] at hd
        rcases hd with rfl | rfl | rfl <;> rfl
      rw [List.cons_append, splitFrom, if_neg (hne _ rfl), if_neg (hne _ rfl), if_pos rfl, hnone]
      dsimp only
      rw [ih fun d hd => h d (List.mem_cons_of_mem _ hd), Option.map_map]
      rfl

theorem splitFrom_operator (op : Operator) (rest : List Char) :
    splitFrom 0 (op.chars ++ rest) = some ⟨[], op.chars, rest⟩ := by
  cases op <;> rfl

/-- Name, operator and default are recovered. -/
theorem splitOnOperatorOutsideNested_expression (e : Expression) :
    splitOnOperatorOutsideNested e.chars = e.parts := by
  cases e with
  | plain name =>
      have h := @splitFrom_name (nameOf name) (fun _ => isKeyChar_of_mem_name) []
      rw [List.append_nil] at h
      exact h
  | defaulted name op default =>
      rw [splitOnOperatorOutsideNested, Expression.chars,
        splitFrom_name fun _ => isKeyChar_of_mem_name, splitFrom_operator, Option.map_some,
        List.append_nil]
      rfl

/-! ### The loop over a default -/

theorem nestedContents_skip (a b : List Char) :
    nestedContents a.length (a ++ b) = nestedContents 0 b := by
  induction a with
  | nil => rfl
  | cons c a ih => exact ih

theorem nestedContents_braces {content cs rest : List Char}
    (h : closing 0 cs = some (content, rest)) (hcs : cs = content ++ '}' :: rest) :
    nestedContents 0 ('{' :: cs) = content :: nestedContents 0 rest := by
  have hskip := nestedContents_skip (content ++ ['}']) rest
  rw [List.length_append, List.length_singleton, List.append_assoc] at hskip
  rw [nestedContents, if_pos rfl, h]
  dsimp only
  rw [hcs]
  exact congrArg (content :: ·) hskip

theorem nestedContents_text (t : Text) : nestedContents 0 t.chars = t.tops := by
  induction t with
  | done => rfl
  | char c h t ih =>
      rw [Text.chars, nestedContents, if_neg h.1, ih]
      rfl
  | braces inside t ihInside ih =>
      have hclosing : closing 0 (inside.chars ++ '}' :: t.chars) =
          some (inside.chars, t.chars) := by
        rw [closing_text]
        show some (inside.chars ++ [], t.chars) = _
        rw [List.append_nil]
      rw [Text.chars, nestedContents_braces hclosing rfl, ih]
      rfl
  | reference name t ih =>
      have hclosing := closing_expression (.plain name) t.chars
      have hbraces := nestedContents_braces hclosing rfl
      rw [ih] at hbraces
      exact hbraces
  | defaulted name op default t ihDefault ih =>
      have hclosing := closing_expression (.defaulted name op default) t.chars
      have hbraces := nestedContents_braces hclosing rfl
      rw [ih] at hbraces
      exact hbraces

/-! ## What is found -/

/-- The outer name, and what stands in braces directly in its default. -/
def found : Expression → List Finding
  | .plain name => [⟨nameOf name, none, false⟩]
  | .defaulted name op default =>
      ⟨nameOf name, some default.chars, op.chars.contains '?'⟩ ::
        if hasReference default.chars then
          (default.tops.map nestedFinding).filter fun finding => !isMagicVariable finding.key
        else []

section

variable (strTrimmed : Char → Bool)

/-- The turns of the inner loop that are not skipped. -/
theorem foldlM_nestedTurn (contents : List (List Char)) (state : ParserState) :
    contents.foldlM (nestedTurn strTrimmed) state =
      ((contents.map nestedFinding).filter fun finding => !isMagicVariable finding.key).foldlM
        (register strTrimmed) state := by
  induction contents generalizing state with
  | nil => rfl
  | cons content contents ih =>
      rw [List.foldlM_cons, List.map_cons, List.filter_cons, nestedTurn]
      by_cases hmagic : isMagicVariable (nestedFinding content).key = true
      · rw [hmagic, if_pos rfl, Bool.not_true, if_neg Bool.false_ne_true]
        exact ih state
      · rw [Bool.not_eq_true] at hmagic
        rw [hmagic, if_neg Bool.false_ne_true, Bool.not_false, if_pos rfl, List.foldlM_cons]
        congr 1
        funext state'
        exact ih state'

theorem referenceTurn_expression (state : ParserState) (e : Expression) :
    referenceTurn strTrimmed state e.chars = (found e).foldlM (register strTrimmed) state := by
  rw [referenceTurn, splitOnOperatorOutsideNested_expression]
  cases e with
  | plain name =>
      show register strTrimmed state ⟨nameOf name, none, false⟩ = _
      rw [found, List.foldlM_cons]
      cases register strTrimmed state ⟨nameOf name, none, false⟩ <;> rfl
  | defaulted name op default =>
      show (register strTrimmed state ⟨nameOf name, some default.chars, op.chars.contains '?'⟩).bind
        _ = _
      rw [found, List.foldlM_cons]
      congr 1
      funext state'
      rw [nestedContents_text, foldlM_nestedTurn]
      by_cases hreference : hasReference default.chars = true
      · rw [if_pos hreference, if_pos hreference]
      · rw [if_neg hreference, if_neg hreference]
        rfl

theorem replaceVariables_value (e : Expression) : replaceVariables e.value = e.chars := by
  have hfront : ['$', '{'].isPrefixOf e.value = true := rfl
  rw [replaceVariables, if_pos hfront, extractBalancedBraceContent_value]

/-- The turn of a variable whose value is a reference. -/
theorem environmentTurn_value (state : ParserState) (key : List Char) (e : Expression) :
    environmentTurn strTrimmed state key e.value =
      if key = e.chars then create strTrimmed state ⟨key, none, false⟩
      else (found e).foldlM (register strTrimmed) state := by
  have hservice : "$SERVICE_".toList.isPrefixOf e.value = false := rfl
  have hhead : e.value.head? = some '$' := rfl
  rw [environmentTurn, hservice, if_neg Bool.false_ne_true, if_neg (not_not.mpr hhead),
    replaceVariables_value, extractBalancedBraceContent_value]
  dsimp only
  rw [referenceTurn_expression]

/-! ## Rows that are created -/

def HasRow (rows : List VariableRow) (key : List Char) : Prop :=
  ∃ row ∈ rows, nameOf row.key = key

/-- The row for a key that a finding comes to. -/
def rowFor (key : EnvironmentKey) (finding : Finding) : VariableRow :=
  ⟨key, finding.value.map fun value => trim (String.ofList value), finding.isRequired⟩

/-- The key as the setter makes it. -/
def normalizedKey (finding : Finding) : String := strTrim strTrimmed (String.ofList finding.key)

def registerRows (rows : List VariableRow) (finding : Finding) :
    Except String (List VariableRow) :=
  (firstOrCreate strTrimmed rows finding).map Prod.fst

theorem registerRows_found {rows : List VariableRow} {finding : Finding}
    (h : HasRow rows finding.key) : registerRows strTrimmed rows finding = .ok rows := by
  obtain ⟨row, hrow, hkey⟩ := h
  rw [registerRows, firstOrCreate]
  cases hfind : rows.find? fun row => row.key.val.toList = finding.key with
  | some row' => rfl
  | none => exact absurd (decide_eq_true hkey) (List.find?_eq_none.mp hfind row hrow)

theorem registerRows_new {rows : List VariableRow} {finding : Finding}
    (h : ¬ HasRow rows finding.key) : registerRows strTrimmed rows finding =
      (validatedEnvironmentVariableKey strTrimmed (String.ofList finding.key)).map fun key =>
        rows ++ [rowFor key finding] := by
  have hfind : (rows.find? fun row => row.key.val.toList = finding.key) = none := by
    rw [List.find?_eq_none]
    exact fun row hrow hkey => h ⟨row, hrow, of_decide_eq_true hkey⟩
  rw [registerRows, firstOrCreate, hfind]
  dsimp only
  cases validatedEnvironmentVariableKey strTrimmed (String.ofList finding.key) <;> rfl

theorem registerRows_created {rows : List VariableRow} {finding : Finding}
    (h : ¬ HasRow rows finding.key) {key : EnvironmentKey}
    (hkey : normalizedKey strTrimmed finding = key.val) :
    registerRows strTrimmed rows finding = .ok (rows ++ [rowFor key finding]) := by
  rw [registerRows_new strTrimmed h, validated_eq_ok.mpr hkey]
  rfl

theorem HasRow.append {rows : List VariableRow} {key : List Char} (h : HasRow rows key)
    (new : List VariableRow) : HasRow (rows ++ new) key := by
  obtain ⟨row, hrow, hkey⟩ := h
  exact ⟨row, List.mem_append_left _ hrow, hkey⟩

theorem foldlM_registerRows_ok {findings : List Finding} {rows : List VariableRow}
    (h : ∀ f ∈ findings, HasRow rows f.key ∨
      ∃ key : EnvironmentKey, normalizedKey strTrimmed f = key.val) :
    ∃ rows', findings.foldlM (registerRows strTrimmed) rows = .ok rows' := by
  induction findings generalizing rows with
  | nil => exact ⟨rows, rfl⟩
  | cons f findings ih =>
      have hrest := fun f' hf' => h f' (List.mem_cons_of_mem f hf')
      rw [List.foldlM_cons]
      by_cases hrow : HasRow rows f.key
      · rw [registerRows_found strTrimmed hrow]
        exact ih hrest
      · obtain ⟨key, hkey⟩ := (h f (List.mem_cons_self ..)).resolve_left hrow
        rw [registerRows_created strTrimmed hrow hkey]
        exact ih fun f' hf' => (hrest f' hf').imp (fun hf => hf.append _) fun hf => hf

/-- What a run of findings adds. -/
structure Adds (rows : List VariableRow) (findings : List Finding) (new : List VariableRow) :
    Prop where
  created : ∀ row ∈ new,
    ∃ f ∈ findings, ¬ HasRow rows f.key ∧ normalizedKey strTrimmed f = row.key.val
  found : ∀ f ∈ findings, HasRow rows f.key ∨
    ∃ row ∈ new, normalizedKey strTrimmed f = row.key.val
  first : ∀ key : EnvironmentKey, ¬ HasRow rows (nameOf key) →
    (rows ++ new).find? (fun row => row.key = key) =
      (findings.find? fun f => normalizedKey strTrimmed f = key.val).map (rowFor key)

end

section

variable {strTrimmed : Char → Bool}

theorem nameOf_injective {key key' : EnvironmentKey} (h : nameOf key = nameOf key') :
    key = key' :=
  Subtype.ext (String.toList_inj.mp h)

theorem find?_of_not_hasRow {rows : List VariableRow} {key : EnvironmentKey}
    (h : ¬ HasRow rows (nameOf key)) : rows.find? (fun row => row.key = key) = none := by
  rw [List.find?_eq_none]
  intro row hrow hkey
  exact h ⟨row, hrow, by rw [of_decide_eq_true hkey]⟩

/-- A key that a row has is left by its setter. -/
theorem normalizedKey_of_row (hkeys : ∀ c, isKeyChar c = true → strTrimmed c = false)
    {f : Finding} {key : EnvironmentKey} (h : f.key = nameOf key) :
    normalizedKey strTrimmed f = key.val := by
  rw [normalizedKey, h, nameOf, String.ofList_toList, strTrim_key hkeys]

theorem adds_of_ok (hkeys : ∀ c, isKeyChar c = true → strTrimmed c = false)
    {findings : List Finding} {rows rows' : List VariableRow}
    (h : findings.foldlM (registerRows strTrimmed) rows = .ok rows') :
    ∃ new, rows' = rows ++ new ∧ Adds strTrimmed rows findings new := by
  induction findings generalizing rows with
  | nil =>
      refine ⟨[], by rw [List.append_nil, Except.ok.inj h], nofun, nofun, fun key hkey => ?_⟩
      rw [List.append_nil, find?_of_not_hasRow hkey]
      rfl
  | cons f findings ih =>
      rw [List.foldlM_cons] at h
      by_cases hrow : HasRow rows f.key
      · rw [registerRows_found strTrimmed hrow] at h
        obtain ⟨new, hnew, hadds⟩ := ih h
        refine ⟨new, hnew, fun row hr => ?_, fun f' hf' => ?_, fun key hkey => ?_⟩
        · obtain ⟨f', hf', hcreated⟩ := hadds.created row hr
          exact ⟨f', List.mem_cons_of_mem _ hf', hcreated⟩
        · rcases List.mem_cons.mp hf' with rfl | hf'
          exacts [.inl hrow, hadds.found f' hf']
        · obtain ⟨row, hr, hname⟩ := hrow
          have hother : ¬ normalizedKey strTrimmed f = key.val := by
            rw [normalizedKey_of_row hkeys hname.symm]
            intro heq
            exact hkey ⟨row, hr, by rw [Subtype.ext heq]⟩
          rw [hadds.first key hkey, List.find?_cons_of_neg (by simpa using hother)]
      · cases hstep : registerRows strTrimmed rows f with
        | error err =>
            rw [hstep] at h
            cases h
        | ok rows₁ =>
            rw [hstep] at h
            obtain ⟨k, hk, hrows₁⟩ : ∃ k : EnvironmentKey, normalizedKey strTrimmed f = k.val ∧
                rows₁ = rows ++ [rowFor k f] := by
              rw [registerRows_new strTrimmed hrow] at hstep
              cases hvalid : validatedEnvironmentVariableKey strTrimmed (String.ofList f.key) with
              | error err =>
                  rw [hvalid] at hstep
                  cases hstep
              | ok k =>
                  rw [hvalid] at hstep
                  exact ⟨k, validated_eq_ok.mp hvalid, (Except.ok.inj hstep).symm⟩
            have hwider : ∀ key, HasRow rows₁ key → HasRow rows key ∨ key = nameOf k := by
              rintro key ⟨row, hr, hname⟩
              rw [hrows₁] at hr
              rcases List.mem_append.mp hr with hr | hr
              · exact .inl ⟨row, hr, hname⟩
              · rw [List.mem_singleton.mp hr] at hname
                exact .inr hname.symm
            obtain ⟨new, hnew, hadds⟩ := ih h
            refine ⟨rowFor k f :: new, by rw [hnew, hrows₁, List.append_assoc]; rfl,
              fun row hr => ?_, fun f' hf' => ?_, fun key hkey => ?_⟩
            · rcases List.mem_cons.mp hr with rfl | hr
              · exact ⟨f, List.mem_cons_self .., hrow, hk⟩
              · obtain ⟨f', hf', hno, heq⟩ := hadds.created row hr
                refine ⟨f', List.mem_cons_of_mem _ hf', fun hhas => hno ?_, heq⟩
                rw [hrows₁]
                exact hhas.append _
            · rcases List.mem_cons.mp hf' with rfl | hf'
              · exact .inr ⟨_, List.mem_cons_self .., hk⟩
              · rcases hadds.found f' hf' with hhas | ⟨row, hr, heq⟩
                · rcases hwider _ hhas with hhas | hname
                  · exact .inl hhas
                  · exact .inr ⟨_, List.mem_cons_self .., normalizedKey_of_row hkeys hname⟩
                · exact .inr ⟨row, List.mem_cons_of_mem _ hr, heq⟩
            · by_cases hkk : k = key
              · subst hkk
                rw [List.find?_append, find?_of_not_hasRow hkey, Option.none_or,
                  List.find?_cons_of_pos (by simp [rowFor]),
                  List.find?_cons_of_pos (by simpa using hk)]
                rfl
              · have hkey₁ : ¬ HasRow rows₁ (nameOf key) := fun hhas =>
                  (hwider _ hhas).elim hkey fun heq => hkk (nameOf_injective heq).symm
                have hother : ¬ normalizedKey strTrimmed f = key.val := fun heq =>
                  hkk (Subtype.ext (hk.symm.trans heq))
                rw [List.find?_cons_of_neg (by simpa using hother), ← hadds.first key hkey₁, hrows₁,
                  List.append_assoc]
                rfl

/-! ## Names that get their row -/

def isServiceName (name : EnvironmentKey) : Bool := strStartsWith name.val "SERVICE_"

/-- The names of the expression that begin with no `SERVICE_` have rows, created where there
was none with a default that the name has; and no others are created. -/
structure Registered (e : Expression) (rows rows' : List VariableRow) : Prop where
  created : ∃ new, rows' = rows ++ new ∧
    ∀ row ∈ new, ∃ o ∈ e.occurrences, o.1 = row.key ∧ isServiceName o.1 = false
  registered : ∀ o ∈ e.occurrences, isServiceName o.1 = false → ¬ HasRow rows (nameOf o.1) →
    ∃ row, rows'.find? (fun row => row.key = o.1) = some row ∧
      ∃ o' ∈ e.occurrences, o'.1 = o.1 ∧ row.value = o'.2.map String.ofList

/-- What is looked at, the outer name and the braces directly in its default, are names of
the expression, and all of them. -/
structure Reached (strTrimmed : Char → Bool) (key : List Char) (e : Expression)
    (rows : List VariableRow) : Prop where
  /-- The variable has not the whole expression for its name. -/
  key : key = e.chars → ∃ name, e = .plain name
  names : ∀ f ∈ found e, HasRow rows f.key ∨
    ∃ o ∈ e.occurrences, isServiceName o.1 = false ∧ normalizedKey strTrimmed f = o.1.val
  all : ∀ o ∈ e.occurrences, isServiceName o.1 = false → ¬ HasRow rows (nameOf o.1) →
    ∃ f, (found e).find? (fun f => normalizedKey strTrimmed f = o.1.val) = some f ∧
      ∃ o' ∈ e.occurrences, o'.1 = o.1 ∧
        (f.value.map fun value => trim (String.ofList value)) = o'.2.map String.ofList

theorem registered_iff_reached (hkeys : ∀ c, isKeyChar c = true → strTrimmed c = false)
    (rows : List VariableRow) {key : List Char} {e : Expression}
    (hkey : key = e.chars → ∃ name, e = .plain name) :
    (∃ rows', (found e).foldlM (registerRows strTrimmed) rows = .ok rows' ∧
      Registered e rows rows') ↔ Reached strTrimmed key e rows := by
  constructor
  · rintro ⟨rows', hok, hregistered⟩
    obtain ⟨new, rfl, hadds⟩ := adds_of_ok hkeys hok
    obtain ⟨new', hnew', hcreated⟩ := hregistered.created
    obtain rfl := List.append_cancel_left hnew'
    refine ⟨hkey, fun f hf => ?_, fun o ho hservice hno => ?_⟩
    · rcases hadds.found f hf with hhas | ⟨row, hr, heq⟩
      · exact .inl hhas
      · obtain ⟨o, ho, hrowkey, hservice⟩ := hcreated row hr
        exact .inr ⟨o, ho, hservice, by rw [heq, hrowkey]⟩
    · obtain ⟨row, hfind, o', ho', hname, hvalue⟩ := hregistered.registered o ho hservice hno
      rw [hadds.first o.1 hno] at hfind
      obtain ⟨f, hf, hrow⟩ := Option.map_eq_some_iff.mp hfind
      refine ⟨f, hf, o', ho', hname, ?_⟩
      rw [← hvalue, ← hrow]
      rfl
  · rintro ⟨-, hnames, hall⟩
    obtain ⟨rows', hok⟩ := foldlM_registerRows_ok strTrimmed fun f hf =>
      (hnames f hf).imp (fun h => h) fun ⟨o, _, _, heq⟩ => ⟨o.1, heq⟩
    obtain ⟨new, rfl, hadds⟩ := adds_of_ok hkeys hok
    refine ⟨_, hok, ⟨new, rfl, fun row hr => ?_⟩, fun o ho hservice hno => ?_⟩
    · obtain ⟨f, hf, hno, heq⟩ := hadds.created row hr
      obtain ⟨o, ho, hservice, hname⟩ := (hnames f hf).resolve_left hno
      exact ⟨o, ho, Subtype.ext (hname.symm.trans heq), hservice⟩
    · obtain ⟨f, hf, o', ho', hname, hvalue⟩ := hall o ho hservice hno
      exact ⟨rowFor o.1 f, by rw [hadds.first o.1 hno, hf]; rfl, o', ho', hname, hvalue⟩

/-! ## The turn of a variable -/

theorem register_rows (state : ParserState) (f : Finding) :
    (register strTrimmed state f).map ParserState.rows = registerRows strTrimmed state.rows f := by
  rw [register, registerRows]
  cases firstOrCreate strTrimmed state.rows f <;> rfl

theorem create_rows (state : ParserState) (f : Finding) :
    (create strTrimmed state f).map ParserState.rows = registerRows strTrimmed state.rows f := by
  rw [create, registerRows]
  cases firstOrCreate strTrimmed state.rows f <;> rfl

theorem environmentTurn_rows (state : ParserState) {key : List Char} {e : Expression}
    (hkey : key = e.chars → ∃ name, e = .plain name) :
    (environmentTurn strTrimmed state key e.value).map ParserState.rows =
      (found e).foldlM (registerRows strTrimmed) state.rows := by
  rw [environmentTurn_value]
  split
  · next heq =>
    obtain ⟨name, rfl⟩ := hkey heq
    rw [create_rows, heq, found, List.foldlM_cons]
    show registerRows strTrimmed state.rows ⟨nameOf name, none, false⟩ = _
    cases registerRows strTrimmed state.rows ⟨nameOf name, none, false⟩ <;> rfl
  · exact Conc.foldlM_map register_rows _ _

theorem mem_trimWith {c : Char} {cs : List Char} (h : c ∈ cs) (hc : strTrimmed c = false) :
    c ∈ trimWith strTrimmed cs := by
  have hdrop : ∀ {cs : List Char}, c ∈ cs → c ∈ cs.dropWhile strTrimmed := by
    intro cs h
    rw [← List.takeWhile_append_dropWhile (p := strTrimmed) (l := cs)] at h
    refine (List.mem_append.mp h).resolve_left fun htake => ?_
    rw [List.mem_takeWhile_imp htake] at hc
    cases hc
  rw [trimWith, List.mem_reverse]
  exact hdrop (List.mem_reverse.mpr (hdrop h))

/-- An expression with an operator is no key, also trimmed. -/
theorem environmentTurn_expression_key
    (hoperators : ∀ c ∈ [':', '-', '?'], strTrimmed c = false) (state : ParserState)
    (name : EnvironmentKey) (op : Operator) (default : Text) {state' : ParserState} :
    environmentTurn strTrimmed state (Expression.defaulted name op default).chars
      (Expression.defaulted name op default).value ≠ .ok state' := by
  intro hok
  obtain ⟨c, hc, hmem⟩ : ∃ c ∈ [':', '-', '?'],
      c ∈ (Expression.defaulted name op default).chars := by
    have hhead : ∃ c ∈ [':', '-', '?'], c ∈ op.chars := by
      cases op
      exacts [⟨':', by simp, by simp [Operator.chars]⟩, ⟨'-', by simp, by simp [Operator.chars]⟩,
        ⟨':', by simp, by simp [Operator.chars]⟩, ⟨'?', by simp, by simp [Operator.chars]⟩]
    obtain ⟨c, hc, hop⟩ := hhead
    exact ⟨c, hc, List.mem_append_right _ (List.mem_append_left _ hop)⟩
  have hno : isKeyChar c = false := by
    simp only [List.mem_cons, List.not_mem_nil, or_false] at hc
    rcases hc with rfl | rfl | rfl <;> rfl
  have hrow : ¬ HasRow state.rows (Expression.defaulted name op default).chars := by
    rintro ⟨row, -, hname⟩
    rw [← hname] at hmem
    exact not_mem_name_of hno _ hmem
  rw [environmentTurn_value, if_pos rfl] at hok
  have hrows := (create_rows state _).symm.trans (congrArg (Except.map ParserState.rows) hok)
  rw [registerRows_new strTrimmed hrow] at hrows
  cases hvalid : validatedEnvironmentVariableKey strTrimmed
      (String.ofList (Expression.defaulted name op default).chars) with
  | error err =>
      rw [hvalid] at hrows
      cases hrows
  | ok key =>
      have hkey := congrArg String.toList (validated_eq_ok.mp hvalid)
      rw [strTrim, String.toList_ofList, String.toList_ofList] at hkey
      have := mem_trimWith hmem (hoperators c hc)
      rw [hkey] at this
      exact not_mem_name_of hno _ this

/-- Name, operator and default are always recovered; and exactly the names get their rows
where what is looked at is the names of the expression and all of them. -/
theorem references_registered_iff (hkeys : ∀ c, isKeyChar c = true → strTrimmed c = false)
    (hoperators : ∀ c ∈ [':', '-', '?'], strTrimmed c = false) (state : ParserState)
    (key : List Char) (e : Expression) :
    extractBalancedBraceContent e.value 0 = some ⟨e.chars, 1, e.chars.length + 2⟩ ∧
      splitOnOperatorOutsideNested e.chars = e.parts ∧
      ((∃ state', environmentTurn strTrimmed state key e.value = .ok state' ∧
        Registered e state.rows state'.rows) ↔ Reached strTrimmed key e state.rows) := by
  refine ⟨extractBalancedBraceContent_value e, splitOnOperatorOutsideNested_expression e, ?_⟩
  by_cases hkey : key = e.chars → ∃ name, e = .plain name
  · rw [← registered_iff_reached hkeys state.rows hkey, ← environmentTurn_rows state hkey]
    constructor
    · rintro ⟨state', hok, hregistered⟩
      exact ⟨state'.rows, by rw [hok]; rfl, hregistered⟩
    · rintro ⟨rows', hok, hregistered⟩
      cases hturn : environmentTurn strTrimmed state key e.value with
      | error err =>
          rw [hturn] at hok
          cases hok
      | ok state' =>
          rw [hturn] at hok
          obtain rfl := Except.ok.inj hok
          exact ⟨state', rfl, hregistered⟩
  · refine iff_of_false ?_ fun hreached => hkey hreached.key
    rintro ⟨state', hok, -⟩
    rw [Classical.not_imp] at hkey
    obtain ⟨rfl, hplain⟩ := hkey
    cases e with
    | plain name => exact hplain ⟨name, rfl⟩
    | defaulted name op default =>
        exact environmentTurn_expression_key hoperators state name op default hok

end

theorem isTrimmed_of_isKeyChar {c : Char} (h : isKeyChar c = true) : isTrimmed c = false := by
  rw [← Bool.not_eq_true]
  intro htrim
  simp only [isTrimmed, Bool.or_eq_true, beq_iff_eq] at htrim
  rcases htrim with ((((rfl | rfl) | rfl) | rfl) | rfl) | rfl <;> cases h

def nameA : EnvironmentKey := ⟨"A", rfl⟩

def nameB : EnvironmentKey := ⟨"B", rfl⟩

def nameC : EnvironmentKey := ⟨"C", rfl⟩

/-- `${A:-${B}}`. -/
def nestedExpression : Expression := .defaulted nameA .colonDash (.reference nameB .done)

theorem nested_reference_registered :
    ∃ state', environmentTurn isTrimmed ⟨[], .empty⟩ ['U', 'R', 'L'] nestedExpression.value =
        .ok state' ∧ Registered nestedExpression [] state'.rows := by
  refine (references_registered_iff (fun _ => isTrimmed_of_isKeyChar) (by simp [isTrimmed])
    ⟨[], .empty⟩ ['U', 'R', 'L'] nestedExpression).2.2.mpr
      ⟨nofun, fun f hf => ?_, fun o ho _ _ => ?_⟩
  · refine .inr ?_
    rcases List.mem_cons.mp hf with rfl | hf
    · exact ⟨_, List.mem_cons_self .., rfl, rfl⟩
    · obtain rfl := List.mem_singleton.mp hf
      exact ⟨_, List.mem_cons_of_mem _ (List.mem_singleton_self _), rfl, rfl⟩
  · rcases List.mem_cons.mp ho with rfl | ho
    · exact ⟨_, rfl, _, List.mem_cons_self .., rfl, rfl⟩
    · obtain rfl := List.mem_singleton.mp ho
      exact ⟨_, rfl, _, List.mem_cons_of_mem _ (List.mem_singleton_self _), rfl, rfl⟩

/-- `${A:-${B:-${C}}}`. -/
def deepExpression : Expression :=
  .defaulted nameA .colonDash (.defaulted nameB .colonDash (.reference nameC .done) .done)

theorem deep_reference_missed :
    ((environmentTurn isTrimmed ⟨[], .empty⟩ ['U', 'R', 'L'] deepExpression.value).map
      fun state => state.rows.map fun row => row.key.val) = .ok ["A", "B"] ∧
    ¬ ∃ state', environmentTurn isTrimmed ⟨[], .empty⟩ ['U', 'R', 'L'] deepExpression.value =
        .ok state' ∧ Registered deepExpression [] state'.rows := by
  have hrows : ((environmentTurn isTrimmed ⟨[], .empty⟩ ['U', 'R', 'L'] deepExpression.value).map
      fun state => state.rows.map fun row => row.key.val) = .ok ["A", "B"] := rfl
  refine ⟨hrows, ?_⟩
  rintro ⟨state', hok, hregistered⟩
  rw [hok] at hrows
  have hkeys : state'.rows.map (fun row => row.key.val) = ["A", "B"] := Except.ok.inj hrows
  obtain ⟨row, hfind, -⟩ := hregistered.registered (nameC, none) (by
    simp [deepExpression, Expression.occurrences, Text.occurrences]) rfl (by
    rintro ⟨row, hrow, -⟩
    cases hrow)
  have hkey : row.key = nameC := by simpa using List.find?_some hfind
  have hmem : row.key.val ∈ state'.rows.map (fun row => row.key.val) :=
    List.mem_map.mpr ⟨row, List.mem_of_find?_eq_some hfind, rfl⟩
  rw [hkeys, hkey] at hmem
  simp [nameC] at hmem

end References

end OnePloy
