import Mathlib.Data.List.Basic

/-!
# The words of a shell text

A text is taken apart into words and operators, where quotes, escapes and
expansions stay in the words as they stand. What the shell makes of such a word
is not the business of this module. A text whose reading ends outside of all
quotes, expansions and comments is read the same wherever it stands
(`tokens_append`).
-/

namespace Shell

/-- What a character can be inside of. -/
inductive Nest
  | single | double | backquote | paren | brace
deriving DecidableEq

inductive Token
  | word (raw : List Char)
  | operator (c : Char)
deriving DecidableEq

def isBlank (c : Char) : Bool := c == ' ' || c == '\t'

def isOperator (c : Char) : Bool :=
  c == '&' || c == '|' || c == ';' || c == '<' || c == '>' || c == '(' || c == ')' || c == '\n'

/-- Characters that neither end a word nor begin something else. -/
def isPlain (c : Char) : Bool :=
  !(isBlank c || isOperator c || c == '\'' || c == '"' || c == '`' || c == '$' || c == '\\' ||
    c == '#')

structure Scan where
  nests : List Nest
  escaped : Bool
  /-- The last character was a `$`. -/
  dollar : Bool
  comment : Bool
  word : Option (List Char)
  tokens : List Token
deriving DecidableEq

namespace Scan

def start : Scan := ⟨[], false, false, false, none, []⟩

def add (s : Scan) (c : Char) : Scan := { s with word := some (s.word.getD [] ++ [c]) }

def endWord (s : Scan) : Scan :=
  { s with word := none, tokens := s.tokens ++ (s.word.map .word).toList }

/-- Digits right before a redirection are no word. -/
def beforeRedirection (s : Scan) : Scan :=
  if (s.word.getD []).all Char.isDigit then { s with word := none } else s.endWord

def operator (s : Scan) (c : Char) : Scan := { s with tokens := s.tokens ++ [.operator c] }

end Scan

/-- A character that opens an expansion or a quotation in a text that is not in single
quotes or backquotes. -/
def opened (nests : List Nest) (dollar : Bool) (c : Char) : List Nest :=
  if dollar && c == '(' then .paren :: nests
  else if dollar && c == '{' then .brace :: nests
  else if c == '`' then .backquote :: nests
  else if nests.head? = some .double then nests
  else if c == '\'' then .single :: nests
  else if c == '"' then .double :: nests
  else nests

def nestsAfter (dollar : Bool) (c : Char) : List Nest → List Nest
  | [] => opened [] dollar c
  | .single :: rest => if c == '\'' then rest else .single :: rest
  | .backquote :: rest => if c == '`' then rest else .backquote :: rest
  | .double :: rest => if c == '"' then rest else opened (.double :: rest) dollar c
  | .paren :: rest =>
      if c == ')' then rest
      else if c == '(' then .paren :: .paren :: rest
      else opened (.paren :: rest) dollar c
  | .brace :: rest => if c == '}' then rest else opened (.brace :: rest) dollar c

/-- A character of a word. -/
def feedWord (s : Scan) (c : Char) : Scan :=
  { s.add c with nests := nestsAfter s.dollar c s.nests, dollar := c == '$' }

/-- A character outside of all quotes and expansions. -/
def feedBare (s : Scan) (c : Char) : Scan :=
  if isBlank c then { s.endWord with dollar := false }
  else if c == '<' || c == '>' then { s.beforeRedirection.operator c with dollar := false }
  else if isOperator c then { s.endWord.operator c with dollar := false }
  else if c == '#' && s.word = none then { s with comment := true }
  else feedWord s c

def feed (s : Scan) (c : Char) : Scan :=
  if s.comment then
    if c == '\n' then { s.operator c with comment := false } else s
  else if s.escaped then { s.add c with escaped := false }
  else if c == '\\' && s.nests.head? ≠ some .single then
    { s.add c with escaped := true, dollar := false }
  else if s.nests = [] && !(s.dollar && c == '(') then feedBare s c
  else feedWord s c

def scan (text : List Char) : Scan := text.foldl feed .start

def tokens (text : List Char) : List Token := (scan text).endWord.tokens

/-- The words of a simple command, without its redirections; `target` says that the word
after a redirection comes next. -/
def argumentsAfter : (target : Bool) → List Token → List (List Char)
  | _, [] => []
  | false, .word raw :: ts => raw :: argumentsAfter false ts
  | true, .word _ :: ts => argumentsAfter false ts
  | false, .operator c :: ts => if c == '<' || c == '>' then argumentsAfter true ts else []
  | true, .operator c :: ts =>
      if c == '<' || c == '>' || c == '&' || c == '|' then argumentsAfter true ts else []

/-- The words of the simple command that a text begins with. -/
def arguments (text : List Char) : List (List Char) := argumentsAfter false (tokens text)

/-- What is left of arguments without the options, of which none has an argument of its
own. -/
def operands : List String → List String
  | [] => []
  | word :: words =>
      if word = "--" then words
      else if word.toList.head? = some '-' && word ≠ "-" then operands words
      else word :: operands words

/-! ## Reading on -/

/-- The reading is outside of everything. -/
structure Scan.Settled (s : Scan) : Prop where
  nests : s.nests = []
  escaped : s.escaped = false
  dollar : s.dollar = false
  comment : s.comment = false

/-- What has been read does not matter for what comes. -/
def Scan.after (before : List Token) (s : Scan) : Scan := { s with tokens := before ++ s.tokens }

theorem endWord_after (before : List Token) (s : Scan) :
    (s.after before).endWord = s.endWord.after before := by
  simp [Scan.after, Scan.endWord]

theorem beforeRedirection_after (before : List Token) (s : Scan) :
    (s.after before).beforeRedirection = s.beforeRedirection.after before := by
  unfold Scan.beforeRedirection
  rw [apply_ite (Scan.after before), ← endWord_after]
  rfl

theorem operator_after (before : List Token) (s : Scan) (c : Char) :
    (s.after before).operator c = (s.operator c).after before := by
  simp [Scan.after, Scan.operator]

theorem feedBare_after (before : List Token) (s : Scan) (c : Char) :
    feedBare (s.after before) c = (feedBare s c).after before := by
  unfold feedBare
  rw [apply_ite (Scan.after before), apply_ite (Scan.after before), apply_ite (Scan.after before),
    apply_ite (Scan.after before), endWord_after, beforeRedirection_after, operator_after,
    operator_after]
  rfl

theorem feed_after (before : List Token) (s : Scan) (c : Char) :
    feed (s.after before) c = (feed s c).after before := by
  unfold feed
  rw [feedBare_after, operator_after, apply_ite (Scan.after before), apply_ite (Scan.after before),
    apply_ite (Scan.after before), apply_ite (Scan.after before), apply_ite (Scan.after before)]
  rfl

theorem foldl_feed_after (before : List Token) (text : List Char) (s : Scan) :
    text.foldl feed (s.after before) = (text.foldl feed s).after before := by
  induction text generalizing s with
  | nil => rfl
  | cons c text ih => rw [List.foldl_cons, feed_after, ih, List.foldl_cons]

/-- A settled reading between two words goes on like one from the start. -/
theorem settled_eq {s : Scan} (h : s.Settled) (hword : s.word = none) :
    s = Scan.start.after s.tokens := by
  obtain ⟨hnests, hescaped, hdollar, hcomment⟩ := h
  cases s
  simp only at hnests hescaped hdollar hcomment hword
  subst hnests hescaped hdollar hcomment hword
  simp [Scan.after, Scan.start]

theorem feed_blank {s : Scan} (h : s.Settled) {c : Char} (hc : isBlank c = true) :
    feed s c = Scan.start.after s.endWord.tokens := by
  have hslash : c ≠ '\\' := fun heq => by subst heq; cases hc
  have hsettled : s.endWord.Settled := ⟨h.nests, h.escaped, h.dollar, h.comment⟩
  rw [← settled_eq hsettled rfl]
  unfold feed feedBare
  simp [h.nests, h.escaped, h.dollar, h.comment, hc, hslash, Scan.endWord]

theorem scan_append {text : List Char} (h : (scan text).Settled) {c : Char}
    (hc : isBlank c = true) (more : List Char) :
    scan (text ++ c :: more) = (scan more).after (tokens text) := by
  rw [scan, List.foldl_append, List.foldl_cons, ← scan, feed_blank h hc, foldl_feed_after]
  rfl

/-- What comes after a blank behind a settled text is read as if it stood alone. -/
theorem tokens_append {text : List Char} (h : (scan text).Settled) {c : Char}
    (hc : isBlank c = true) (more : List Char) :
    tokens (text ++ c :: more) = tokens text ++ tokens more := by
  rw [tokens, scan_append h hc, endWord_after]
  rfl

theorem settled_append {text : List Char} (h : (scan text).Settled) {c : Char}
    (hc : isBlank c = true) {more : List Char} (hmore : (scan more).Settled) :
    (scan (text ++ c :: more)).Settled := by
  rw [scan_append h hc]
  exact ⟨hmore.nests, hmore.escaped, hmore.dollar, hmore.comment⟩

/-! ## Plain words -/

theorem feed_plain {s : Scan} (h : s.Settled) {c : Char} (hc : isPlain c = true) :
    feed s c = s.add c ∧ (s.add c).Settled := by
  simp only [isPlain, Bool.not_eq_true', Bool.or_eq_false_iff, beq_eq_false_iff_ne, isBlank,
    isOperator] at hc
  refine ⟨?_, h.nests, h.escaped, h.dollar, h.comment⟩
  unfold feed feedBare
  simp [h.nests, h.escaped, h.dollar, h.comment, hc, isBlank, isOperator, feedWord, nestsAfter,
    opened, Scan.add]

theorem scan_plain {word : List Char} (hne : word ≠ []) (h : ∀ c ∈ word, isPlain c = true) :
    scan word = { Scan.start with word := some word } := by
  suffices hfold : ∀ (s : Scan), s.Settled →
      word.foldl feed s = { s with word := some (s.word.getD [] ++ word) } by
    exact hfold .start ⟨rfl, rfl, rfl, rfl⟩
  induction word with
  | nil => exact absurd rfl hne
  | cons c word ih =>
      intro s hs
      obtain ⟨hfeed, hsettled⟩ := feed_plain hs (h c (List.mem_cons_self ..))
      rw [List.foldl_cons, hfeed]
      cases word with
      | nil => rfl
      | cons d word =>
          rw [ih (by simp) (fun e he => h e (List.mem_cons_of_mem _ he)) _ hsettled]
          simp [Scan.add]

theorem tokens_plain {word : List Char} (hne : word ≠ []) (h : ∀ c ∈ word, isPlain c = true) :
    tokens word = [.word word] := by
  rw [tokens, scan_plain hne h]
  rfl

/-- A plain word in front is the first argument. -/
theorem arguments_cons {word : List Char} (hne : word ≠ []) (h : ∀ c ∈ word, isPlain c = true)
    (more : List Char) : arguments (word ++ ' ' :: more) = word :: arguments more := by
  have hsettled : (scan word).Settled := by
    rw [scan_plain hne h]
    exact ⟨rfl, rfl, rfl, rfl⟩
  rw [arguments, tokens_append hsettled rfl, tokens_plain hne h]
  rfl

end Shell
