import OnePloy.Lib.ShellLine

/-!
# Arguments written for the shell

A printer of command lines writes its words from parts that are plain or in single quotes,
with one space between two words. The shell reads such a line as these words
(`arguments_joined`), and their quotes come off (`literal_raw`).
-/

namespace Shell

/-- A part of a word: as it stands, or in single quotes. -/
inductive Piece (α : Type)
  | bare (text : List α)
  | quoted (text : List α)

namespace Piece

variable {α β : Type}

def raw (quote : α) : Piece α → List α
  | bare text => text
  | quoted text => quote :: (text ++ [quote])

def value : Piece α → List α
  | bare text => text
  | quoted text => text

def map (f : α → β) : Piece α → Piece β
  | bare text => bare (text.map f)
  | quoted text => quoted (text.map f)

end Piece

abbrev Word (α : Type) := List (Piece α)

namespace Word

variable {α β : Type}

/-- The word as it is written. -/
def raw (quote : α) (word : Word α) : List α := word.flatMap (Piece.raw quote)

/-- The word without its quotes. -/
def value (word : Word α) : List α := word.flatMap Piece.value

theorem raw_map (f : α → β) (quote : α) (word : Word α) :
    (raw quote word).map f = raw (f quote) (List.map (Piece.map f) word) := by
  rw [raw, raw, List.map_flatMap, List.flatMap_map]
  refine List.flatMap_congr fun piece _ => ?_
  cases piece with
  | bare text => rfl
  | quoted text => simp [Piece.raw, Piece.map]

theorem value_map (f : α → β) (word : Word α) :
    (value word).map f = value (List.map (Piece.map f) word) := by
  rw [value, value, List.map_flatMap, List.flatMap_map]
  refine List.flatMap_congr fun piece _ => ?_
  cases piece with
  | bare text => rfl
  | quoted text => rfl

/-- Words with one space after each. -/
def spaced (space quote : α) (words : List (Word α)) : List α :=
  words.flatMap fun word => raw quote word ++ [space]

end Word

/-! ## What the shell makes of a word -/

/-- A part that the shell takes as it is written. -/
def Piece.Plain : Piece Char → Prop
  | .bare text => ∀ c ∈ text, isPlain c = true
  | .quoted text => '\'' ∉ text

/-- A word of such parts. -/
structure Word.Plain (word : Word Char) : Prop where
  raw_ne_nil : word.raw '\'' ≠ []
  pieces : ∀ piece ∈ word, piece.Plain

/-- A reading outside of quotes that has come to `text` in its first word. -/
structure ReadTo (s : Scan) (text : List Char) : Prop where
  settled : s.Settled
  word : s.word.getD [] = text
  tokens : s.tokens = []

theorem ReadTo.start : ReadTo .start [] := ⟨⟨rfl, rfl, rfl, rfl⟩, rfl, rfl⟩

theorem ReadTo.endWord {s : Scan} {text : List Char} (h : ReadTo s text) (hne : text ≠ []) :
    s.endWord.tokens = [.word text] := by
  obtain ⟨-, hword, htokens⟩ := h
  have hsome : s.word = some text := by
    cases hscan : s.word with
    | none =>
        rw [hscan, Option.getD_none] at hword
        exact absurd hword.symm hne
    | some word =>
        rw [hscan, Option.getD_some] at hword
        rw [hword]
  rw [Scan.endWord, hsome, htokens]
  rfl

theorem ReadTo.foldl_plain {s : Scan} {text : List Char} (h : ReadTo s text) {cs : List Char}
    (hcs : ∀ c ∈ cs, isPlain c = true) : ReadTo (cs.foldl feed s) (text ++ cs) := by
  induction cs generalizing s text with
  | nil => rwa [List.append_nil]
  | cons c cs ih =>
      obtain ⟨hfeed, hsettled⟩ := feed_plain h.settled (hcs c List.mem_cons_self)
      rw [List.foldl_cons, hfeed, List.append_cons]
      refine ih ⟨hsettled, ?_, h.tokens⟩ fun d hd => hcs d (List.mem_cons_of_mem c hd)
      show s.word.getD [] ++ [c] = text ++ [c]
      rw [h.word]

theorem ReadTo.feed_quote {s : Scan} {text : List Char} (h : ReadTo s text) :
    InQuotes (feed s '\'') (text ++ ['\'']) := by
  obtain ⟨⟨hnests, hescaped, hdollar, hcomment⟩, hword, htokens⟩ := h
  constructor <;>
    simp [feed, feedBare, feedWord, nestsAfter, opened, Scan.add, isBlank, isOperator, hnests,
      hescaped, hdollar, hcomment, hword, htokens]

theorem InQuotes.foldl_chars {s : Scan} {text : List Char} (h : InQuotes s text)
    {cs : List Char} (hcs : '\'' ∉ cs) : InQuotes (cs.foldl feed s) (text ++ cs) := by
  induction cs generalizing s text with
  | nil => rwa [List.append_nil]
  | cons c cs ih =>
      rw [List.mem_cons, not_or] at hcs
      rw [List.foldl_cons, List.append_cons]
      exact ih (h.feed_char (Ne.symm hcs.1)) hcs.2

theorem ReadTo.foldl_piece {s : Scan} {text : List Char} (h : ReadTo s text)
    {piece : Piece Char} (hpiece : piece.Plain) :
    ReadTo ((piece.raw '\'').foldl feed s) (text ++ piece.raw '\'') := by
  cases piece with
  | bare cs => exact h.foldl_plain hpiece
  | quoted cs =>
      obtain ⟨hsettled, hword, htokens⟩ := (h.feed_quote.foldl_chars hpiece).feed_quote
      rw [Piece.raw, List.foldl_cons, List.foldl_append, List.foldl_cons, List.foldl_nil]
      refine ⟨hsettled, ?_, htokens⟩
      rw [hword, Option.getD_some]
      simp

theorem ReadTo.foldl_word {s : Scan} {text : List Char} (h : ReadTo s text) {word : Word Char}
    (hword : ∀ piece ∈ word, piece.Plain) :
    ReadTo ((word.raw '\'').foldl feed s) (text ++ word.raw '\'') := by
  induction word generalizing s text with
  | nil => rwa [Word.raw, List.flatMap_nil, List.append_nil]
  | cons piece word ih =>
      rw [Word.raw, List.flatMap_cons, ← Word.raw, List.foldl_append, ← List.append_assoc]
      exact ih (h.foldl_piece (hword piece List.mem_cons_self)) fun other hother =>
        hword other (List.mem_cons_of_mem piece hother)

section Words

variable {word : Word Char} {words : List (Word Char)}

theorem Word.Plain.readTo (h : word.Plain) : ReadTo (scan (word.raw '\'')) (word.raw '\'') :=
  ReadTo.start.foldl_word h.pieces

theorem Word.Plain.tokens (h : word.Plain) : tokens (word.raw '\'') = [.word (word.raw '\'')] :=
  h.readTo.endWord h.raw_ne_nil

/-- Each word with the space behind it is read as this word, and the rest as if it stood
alone. -/
theorem tokens_spaced (h : ∀ word ∈ words, word.Plain) (more : List Char) :
    tokens (Word.spaced ' ' '\'' words ++ more) =
      words.map (fun word => .word (word.raw '\'')) ++ tokens more := by
  induction words with
  | nil => rfl
  | cons word words ih =>
      have hword := h word List.mem_cons_self
      rw [Word.spaced, List.flatMap_cons, ← Word.spaced, List.append_assoc, List.append_assoc,
        List.singleton_append, tokens_append hword.readTo.settled rfl, hword.tokens,
        ih fun other hother => h other (List.mem_cons_of_mem word hother)]
      rfl

theorem argumentsAfter_words (raws : List (List Char)) (ts : List Token) :
    argumentsAfter false (raws.map .word ++ ts) = raws ++ argumentsAfter false ts := by
  induction raws with
  | nil => rfl
  | cons raw raws ih =>
      show raw :: argumentsAfter false (raws.map .word ++ ts) = _
      rw [ih]
      rfl

theorem arguments_spaced (h : ∀ word ∈ words, word.Plain) (more : List Char) :
    arguments (Word.spaced ' ' '\'' words ++ more) =
      words.map (Word.raw '\'') ++ arguments more := by
  rw [arguments, tokens_spaced h]
  show argumentsAfter false (words.map (Token.word ∘ Word.raw '\'') ++ _) = _
  rw [← List.map_map, argumentsAfter_words]
  rfl

/-- The beginning of a here-document is no argument. -/
theorem arguments_hereDocument {delimiter : List Char} (hne : delimiter ≠ [])
    (h : ∀ c ∈ delimiter, isPlain c = true) : arguments ("<< \\".toList ++ delimiter) = [] := by
  cases delimiter with
  | nil => exact absurd rfl hne
  | cons c cs =>
      have hread : ReadTo (cs.foldl feed { Scan.start with word := some ['\\', c] })
          (['\\', c] ++ cs) :=
        ReadTo.foldl_plain ⟨⟨rfl, rfl, rfl, rfl⟩, rfl, rfl⟩ fun d hd =>
          h d (List.mem_cons_of_mem c hd)
      have hscan : scan ("<< \\".toList ++ c :: cs) =
          (cs.foldl feed { Scan.start with word := some ['\\', c] }).after
            [.operator '<', .operator '<'] := by
        rw [← foldl_feed_after]
        rfl
      rw [arguments, tokens, hscan, endWord_after]
      show argumentsAfter false ([.operator '<', .operator '<'] ++ _) = []
      rw [hread.endWord (by simp)]
      rfl

end Words

/-! ## Taking the quotes off -/

/-- What is left of a word of plain characters and single quotes. -/
def literal : (quoted : Bool) → List Char → Option (List Char)
  | true, [] => none
  | false, [] => some []
  | true, c :: cs => if c = '\'' then literal false cs else (literal true cs).map (c :: ·)
  | false, c :: cs =>
      if c = '\'' then literal true cs
      else if isPlain c then (literal false cs).map (c :: ·)
      else none

theorem literal_quoted {text : List Char} (h : '\'' ∉ text) (rest : List Char) :
    literal true (text ++ '\'' :: rest) = (literal false rest).map (text ++ ·) := by
  induction text with
  | nil => rw [List.nil_append, literal, if_pos rfl]; simp
  | cons c text ih =>
      rw [List.mem_cons, not_or] at h
      rw [List.cons_append, literal, if_neg (Ne.symm h.1), ih h.2, Option.map_map]
      rfl

theorem literal_bare {text : List Char} (h : ∀ c ∈ text, isPlain c = true) (rest : List Char) :
    literal false (text ++ rest) = (literal false rest).map (text ++ ·) := by
  induction text with
  | nil => simp
  | cons c text ih =>
      have hc := h c List.mem_cons_self
      have hquote : c ≠ '\'' := by
        rintro rfl
        exact absurd hc (by decide)
      rw [List.cons_append, literal, if_neg hquote, if_pos hc,
        ih fun d hd => h d (List.mem_cons_of_mem c hd), Option.map_map]
      rfl

theorem literal_raw {word : Word Char} (h : ∀ piece ∈ word, piece.Plain) :
    literal false (word.raw '\'') = some word.value := by
  induction word with
  | nil => rfl
  | cons piece word ih =>
      have ih := ih fun other hother => h other (List.mem_cons_of_mem piece hother)
      have hpiece := h piece List.mem_cons_self
      rw [Word.raw, List.flatMap_cons, ← Word.raw]
      cases piece with
      | bare text =>
          rw [Piece.raw, literal_bare hpiece, ih]
          rfl
      | quoted text =>
          rw [Piece.raw, List.cons_append, List.append_assoc, List.singleton_append, literal,
            if_pos rfl, literal_quoted hpiece, ih]
          rfl

end Shell
