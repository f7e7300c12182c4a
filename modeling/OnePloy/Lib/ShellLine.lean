import OnePloy.Lib.ShellWords

/-!
# Command lines of words, quoted strings and a few operators

A line is read as the characters of its words, bare or in single quotes, the ends
of the words, and the operators `&&`, `||`, `|` and `$( )`. Lines with anything
else in them are not read. `Reads` says the same as `read` in rules.
-/

namespace Shell

inductive Mark
  | char (c : Char)
  | quote
  | quoted (c : Char)
  | wordEnd
  | andIf
  | orIf
  | pipe
  | opens
  | closes
deriving DecidableEq

/-- A simple command begins behind it. -/
def Mark.opensCommand : Mark → Bool
  | .andIf | .orIf | .pipe | .opens => true
  | _ => false

/-- A `#` that begins a word would begin a comment. -/
def isWordChar (inWord : Bool) (c : Char) : Bool :=
  (isPlain c && decide (31 < c.toNat)) || (inWord && c == '#')

def endOf (inWord : Bool) : List Mark := if inWord then [.wordEnd] else []

/-- Where a reading is: in quotes, in a word, in how many substitutions, and before the
second character of an operator. -/
structure Place where
  quoted : Bool
  inWord : Bool
  depth : Nat
  second : Bool

/-- What a character is read as, where `next` comes after it. -/
def markAt (p : Place) (c : Char) (next : Option Char) : Option (Place × List Mark) :=
  if p.second then some ({ p with second := false }, [])
  else if p.quoted then
    if c = '\'' then some ({ p with quoted := false, inWord := true }, [.quote])
    else some ({ p with inWord := true }, [.quoted c])
  else if c = '\'' then some ({ p with quoted := true, inWord := true }, [.quote])
  else if isBlank c then some ({ p with inWord := false }, endOf p.inWord)
  else if isWordChar p.inWord c then some ({ p with inWord := true }, [.char c])
  else if c = '$' then
    if next = some '(' then
      some ({ p with inWord := false, depth := p.depth + 1, second := true }, [.opens])
    else some ({ p with inWord := true }, [.char c])
  else if c = '|' then
    if next = some '|' then
      some ({ p with inWord := false, second := true }, endOf p.inWord ++ [.orIf])
    else some ({ p with inWord := false }, endOf p.inWord ++ [.pipe])
  else if c = '&' ∧ next = some '&' then
    some ({ p with inWord := false, second := true }, endOf p.inWord ++ [.andIf])
  else if c = ')' ∧ p.depth ≠ 0 then
    some ({ p with inWord := true, depth := p.depth - 1 }, endOf p.inWord ++ [.closes])
  else none

def readFrom (p : Place) : List Char → Option (List Mark)
  | [] => if p.quoted = false ∧ p.depth = 0 ∧ p.second = false then some (endOf p.inWord) else none
  | c :: cs =>
      (markAt p c cs.head?).bind fun next => (readFrom next.1 cs).map (next.2 ++ ·)

def readLine (line : List Char) : Option (List Mark) := readFrom ⟨false, false, 0, false⟩ line

/-- The rules by which a line is read. -/
inductive Reads : (quoted inWord : Bool) → (depth : Nat) → List Char → List Mark → Prop
  | nil (inWord : Bool) : Reads false inWord 0 [] (endOf inWord)
  | openQuote {inWord : Bool} {depth : Nat} {cs : List Char} {marks : List Mark} :
      Reads true true depth cs marks → Reads false inWord depth ('\'' :: cs) (.quote :: marks)
  | closeQuote {inWord : Bool} {depth : Nat} {cs : List Char} {marks : List Mark} :
      Reads false true depth cs marks → Reads true inWord depth ('\'' :: cs) (.quote :: marks)
  | quoted {inWord : Bool} {depth : Nat} {c : Char} {cs : List Char} {marks : List Mark}
      (hc : c ≠ '\'') :
      Reads true true depth cs marks → Reads true inWord depth (c :: cs) (.quoted c :: marks)
  | blank {inWord : Bool} {depth : Nat} {c : Char} {cs : List Char} {marks : List Mark}
      (hc : isBlank c = true) :
      Reads false false depth cs marks →
        Reads false inWord depth (c :: cs) (endOf inWord ++ marks)
  | char {inWord : Bool} {depth : Nat} {c : Char} {cs : List Char} {marks : List Mark}
      (hc : isWordChar inWord c = true) :
      Reads false true depth cs marks → Reads false inWord depth (c :: cs) (.char c :: marks)
  | dollar {inWord : Bool} {depth : Nat} {cs : List Char} {marks : List Mark}
      (hcs : cs.head? ≠ some '(') :
      Reads false true depth cs marks → Reads false inWord depth ('$' :: cs) (.char '$' :: marks)
  | andIf {inWord : Bool} {depth : Nat} {cs : List Char} {marks : List Mark} :
      Reads false false depth cs marks →
        Reads false inWord depth ('&' :: '&' :: cs) (endOf inWord ++ .andIf :: marks)
  | orIf {inWord : Bool} {depth : Nat} {cs : List Char} {marks : List Mark} :
      Reads false false depth cs marks →
        Reads false inWord depth ('|' :: '|' :: cs) (endOf inWord ++ .orIf :: marks)
  | pipe {inWord : Bool} {depth : Nat} {cs : List Char} {marks : List Mark}
      (hcs : cs.head? ≠ some '|') :
      Reads false false depth cs marks →
        Reads false inWord depth ('|' :: cs) (endOf inWord ++ .pipe :: marks)
  | opens {inWord : Bool} {depth : Nat} {cs : List Char} {marks : List Mark} :
      Reads false false (depth + 1) cs marks →
        Reads false inWord depth ('$' :: '(' :: cs) (.opens :: marks)
  | closes {inWord : Bool} {depth : Nat} {cs : List Char} {marks : List Mark} :
      Reads false true depth cs marks →
        Reads false inWord (depth + 1) (')' :: cs) (endOf inWord ++ .closes :: marks)

theorem readFrom_second (quoted inWord : Bool) (depth : Nat) (c : Char) (cs : List Char) :
    readFrom ⟨quoted, inWord, depth, true⟩ (c :: cs) =
      readFrom ⟨quoted, inWord, depth, false⟩ cs := by
  rw [readFrom, markAt, if_pos rfl, Option.bind_some]
  show (readFrom ⟨quoted, inWord, depth, false⟩ cs).map ([] ++ ·) = _
  rw [show (([] : List Mark) ++ ·) = id from funext List.nil_append, Option.map_id]
  rfl

theorem exists_cons_of_head {cs : List Char} {c : Char} (h : cs.head? = some c) :
    ∃ ds, cs = c :: ds := List.head?_eq_some_iff.mp h

theorem Reads.of_readFrom {quoted inWord : Bool} {depth : Nat} {cs : List Char} {marks : List Mark}
    (h : readFrom ⟨quoted, inWord, depth, false⟩ cs = some marks) :
    Reads quoted inWord depth cs marks := by
  induction hn : cs.length using Nat.strongRecOn generalizing quoted inWord depth cs marks with
  | ind n ih =>
      cases cs with
      | nil =>
          rw [readFrom] at h
          split at h
          · next hend =>
              obtain ⟨rfl, rfl, -⟩ := hend
              obtain rfl := Option.some.inj h
              exact .nil inWord
          · cases h
      | cons c cs =>
          have hrest : cs.length < n := by rw [← hn]; exact Nat.lt_succ_self _
          have hrest' : ∀ d ds, cs = d :: ds → ds.length < n := fun d ds heq => by
            rw [heq] at hrest
            exact Nat.lt_of_succ_lt hrest
          obtain ⟨⟨p, front⟩, hmark, hread⟩ := Option.bind_eq_some_iff.mp h
          obtain ⟨m, hm, rfl⟩ := Option.map_eq_some_iff.mp hread
          unfold markAt at hmark
          rw [if_neg nofun] at hmark
          split at hmark
          · next hquoted =>
              obtain rfl : quoted = true := hquoted
              split at hmark
              · next hc =>
                  cases hmark
                  subst hc
                  exact .closeQuote (ih _ hrest hm rfl)
              · next hc =>
                  cases hmark
                  exact .quoted hc (ih _ hrest hm rfl)
          next hbare =>
          obtain rfl : quoted = false := by simpa using hbare
          split at hmark
          · next hc =>
              cases hmark
              subst hc
              exact .openQuote (ih _ hrest hm rfl)
          split at hmark
          · next hc =>
              cases hmark
              exact .blank hc (ih _ hrest hm rfl)
          split at hmark
          · next hc =>
              cases hmark
              exact .char hc (ih _ hrest hm rfl)
          split at hmark
          · next hc =>
              subst hc
              split at hmark
              · next hnext =>
                  cases hmark
                  obtain ⟨ds, rfl⟩ := exists_cons_of_head hnext
                  rw [readFrom_second] at hm
                  exact .opens (ih _ (hrest' _ _ rfl) hm rfl)
              · next hnext =>
                  cases hmark
                  exact .dollar hnext (ih _ hrest hm rfl)
          split at hmark
          · next hc =>
              subst hc
              split at hmark
              · next hnext =>
                  cases hmark
                  obtain ⟨ds, rfl⟩ := exists_cons_of_head hnext
                  rw [readFrom_second] at hm
                  rw [List.append_assoc]
                  exact .orIf (ih _ (hrest' _ _ rfl) hm rfl)
              · next hnext =>
                  cases hmark
                  rw [List.append_assoc]
                  exact .pipe hnext (ih _ hrest hm rfl)
          split at hmark
          · next hc =>
              obtain ⟨rfl, hnext⟩ := hc
              cases hmark
              obtain ⟨ds, rfl⟩ := exists_cons_of_head hnext
              rw [readFrom_second] at hm
              rw [List.append_assoc]
              exact .andIf (ih _ (hrest' _ _ rfl) hm rfl)
          split at hmark
          · next hc =>
              obtain ⟨rfl, hdepth⟩ := hc
              cases hmark
              obtain ⟨depth, rfl⟩ := Nat.exists_eq_succ_of_ne_zero hdepth
              rw [List.append_assoc]
              exact .closes (ih _ hrest hm rfl)
          · cases hmark

theorem ne_quote_of_isBlank {c : Char} (h : isBlank c = true) : c ≠ '\'' := by
  rintro rfl
  exact absurd h (by decide)

theorem isWordChar_ne {inWord : Bool} {c : Char} (h : isWordChar inWord c = true) :
    c ≠ '\'' ∧ isBlank c = false ∧ c ≠ '&' ∧ c ≠ '|' ∧ c ≠ ' ' ∧ c ≠ '$' := by
  have hnot : ∀ d, isWordChar true d = false → c ≠ d := by
    rintro d hd rfl
    cases inWord with
    | true => rw [hd] at h; cases h
    | false =>
        simp only [isWordChar, Bool.or_eq_true, Bool.false_and, Bool.false_eq_true, or_false] at h
        simp [isWordChar, h] at hd
  refine ⟨hnot _ (by decide), eq_false_of_ne_true fun hblank => ?_, hnot _ (by decide),
    hnot _ (by decide), hnot _ (by decide), hnot _ (by decide)⟩
  simp only [isBlank, Bool.or_eq_true, beq_iff_eq] at hblank
  exact hblank.elim (hnot ' ' (by decide)) (hnot '\t' (by decide))

/-- Spaces and control characters are in no word. -/
theorem isWordChar_code {inWord : Bool} {c : Char} (h : isWordChar inWord c = true) :
    32 < c.toNat := by
  have hspace : c.toNat ≠ 32 := fun hcode =>
    (isWordChar_ne h).2.2.2.2.1 (Char.ext (UInt32.toNat.inj hcode))
  have hlow : 31 < c.toNat := by
    simp only [isWordChar, Bool.or_eq_true, Bool.and_eq_true, decide_eq_true_eq,
      beq_iff_eq] at h
    rcases h with ⟨-, h⟩ | ⟨-, rfl⟩
    · exact h
    · decide
  omega

theorem isWordChar_special (inWord : Bool) :
    isWordChar inWord '$' = false ∧ isWordChar inWord '&' = false ∧
      isWordChar inWord '|' = false ∧ isWordChar inWord ')' = false := by
  cases inWord <;> decide

/-- What the rules read, the reader reads. -/
theorem Reads.readFrom_eq {quoted inWord : Bool} {depth : Nat} {cs : List Char}
    {marks : List Mark} (h : Reads quoted inWord depth cs marks) :
    readFrom ⟨quoted, inWord, depth, false⟩ cs = some marks := by
  induction h with
  | nil inWord => rfl
  | openQuote _ ih => simp [readFrom, markAt, ih]
  | closeQuote _ ih => simp [readFrom, markAt, ih]
  | quoted hc _ ih => simp [readFrom, markAt, hc, ih]
  | blank hc _ ih => simp [readFrom, markAt, ne_quote_of_isBlank hc, hc, ih]
  | char hc _ ih => simp [readFrom, markAt, isWordChar_ne hc, hc, ih]
  | @dollar inWord _ _ _ hcs _ ih =>
      simp [readFrom, markAt, isBlank, isWordChar_special inWord, hcs, ih]
  | @andIf inWord _ _ _ _ ih =>
      rw [readFrom, markAt]
      simp [isBlank, isWordChar_special inWord, readFrom_second, ih]
  | @orIf inWord _ _ _ _ ih =>
      rw [readFrom, markAt]
      simp [isBlank, isWordChar_special inWord, readFrom_second, ih]
  | @pipe inWord _ _ _ hcs _ ih =>
      simp [readFrom, markAt, isBlank, isWordChar_special inWord, hcs, ih]
  | @opens inWord _ _ _ _ ih =>
      rw [readFrom, markAt]
      simp [isBlank, isWordChar_special inWord, readFrom_second, ih]
  | @closes inWord _ _ _ _ ih =>
      simp [readFrom, markAt, isBlank, isWordChar_special inWord, ih]

theorem readLine_eq_some_iff {line : List Char} {marks : List Mark} :
    readLine line = some marks ↔ Reads false false 0 line marks :=
  ⟨Reads.of_readFrom, Reads.readFrom_eq⟩

/-! ## Parts of lines -/

/-- A line is read the same in front of a blank and another one. -/
theorem Reads.append {quoted inWord : Bool} {depth : Nat} {cs : List Char} {marks : List Mark}
    (h : Reads quoted inWord depth cs marks) {c : Char} (hc : isBlank c = true)
    {more : List Char} {marks' : List Mark} (hmore : Reads false false 0 more marks') :
    Reads quoted inWord depth (cs ++ c :: more) (marks ++ marks') := by
  have hhead : ∀ {cs : List Char} {d : Char}, isBlank d = false → cs.head? ≠ some d →
      (cs ++ c :: more).head? ≠ some d := by
    intro cs d hd hne
    cases cs with
    | nil =>
        rintro hcd
        obtain rfl : c = d := Option.some.inj hcd
        rw [hc] at hd
        cases hd
    | cons e cs => exact hne
  induction h with
  | nil inWord => exact .blank hc hmore
  | openQuote _ ih => exact .openQuote ih
  | closeQuote _ ih => exact .closeQuote ih
  | quoted hd _ ih => exact .quoted hd ih
  | blank hd _ ih =>
      rw [List.append_assoc]
      exact .blank hd ih
  | char hd _ ih => exact .char hd ih
  | dollar hcs _ ih => exact .dollar (hhead (by decide) hcs) ih
  | andIf _ ih =>
      rw [List.append_assoc]
      exact .andIf ih
  | orIf _ ih =>
      rw [List.append_assoc]
      exact .orIf ih
  | pipe hcs _ ih =>
      rw [List.append_assoc]
      exact .pipe (hhead (by decide) hcs) ih
  | opens _ ih => exact .opens ih
  | closes _ ih =>
      rw [List.append_assoc]
      exact .closes ih

/-- What ends a word of itself. -/
def endsWord (c : Char) : Bool := isBlank c || c == '&' || c == '|' || c == ')'

/-- A word can stand in front of what ends it. -/
theorem Reads.after_word {depth : Nat} {cs : List Char} {marks : List Mark}
    (hcs : ∀ c, cs.head? = some c → endsWord c = true) (h : Reads false false depth cs marks) :
    Reads false true depth cs (.wordEnd :: marks) := by
  cases h with
  | nil => exact .nil true
  | openQuote _ => exact absurd (hcs _ rfl) (by decide)
  | blank hc h => exact .blank hc h
  | char hc _ =>
      have hends := hcs _ rfl
      obtain ⟨-, hblank, hand, hpipe, -, -⟩ := isWordChar_ne hc
      simp only [endsWord, hblank, Bool.false_or, Bool.or_eq_true, beq_iff_eq] at hends
      rcases hends with (heq | heq) | rfl
      · exact absurd heq hand
      · exact absurd heq hpipe
      · exact absurd hc (by decide)
  | dollar _ _ => exact absurd (hcs _ rfl) (by decide)
  | andIf h => exact .andIf h
  | orIf h => exact .orIf h
  | pipe hnext h => exact .pipe hnext h
  | opens _ => exact absurd (hcs _ rfl) (by decide)
  | closes h => exact .closes h

/-- Of the spaces and the control characters, only blanks are read. -/
theorem Reads.of_space {inWord : Bool} {depth : Nat} {c : Char} {cs : List Char}
    {marks : List Mark} (hc : c.toNat ≤ 32) (h : Reads false inWord depth (c :: cs) marks) :
    isBlank c = true ∧
      ∃ marks', Reads false false depth cs marks' ∧ marks = endOf inWord ++ marks' := by
  cases h with
  | blank hblank h => exact ⟨hblank, _, h, rfl⟩
  | char hword _ =>
      have hcode := isWordChar_code hword
      omega
  | openQuote _ => exact absurd hc (by decide)
  | dollar _ _ => exact absurd hc (by decide)
  | andIf _ => exact absurd hc (by decide)
  | orIf _ => exact absurd hc (by decide)
  | pipe _ _ => exact absurd hc (by decide)
  | opens _ => exact absurd hc (by decide)
  | closes _ => exact absurd hc (by decide)

theorem Reads.of_pipe {inWord : Bool} {depth : Nat} {cs : List Char} {marks : List Mark}
    (h : Reads false inWord depth ('|' :: ' ' :: cs) marks) :
    ∃ marks', Reads false false depth cs marks' ∧ marks = endOf inWord ++ .pipe :: marks' := by
  cases h with
  | pipe _ h =>
      obtain ⟨-, _, h, rfl⟩ := h.of_space (by decide)
      exact ⟨_, h, rfl⟩
  | blank hc _ => exact absurd hc (by decide)
  | char hc _ => exact absurd rfl (isWordChar_ne hc).2.2.2.1

theorem eq_cons_of_concat {cs text : List Char} {c d : Char} (h : cs ++ [c] = d :: text)
    (hne : c ≠ d) : ∃ rest, cs = d :: rest ∧ rest ++ [c] = text := by
  cases cs with
  | nil => exact absurd (List.cons.inj h).1 hne
  | cons e rest =>
      obtain ⟨rfl, hrest⟩ := List.cons.inj h
      exact ⟨rest, rfl, hrest⟩

/-- A space or control character at the end says nothing. -/
theorem Reads.of_concat {quoted inWord : Bool} {depth : Nat} {cs : List Char} {c : Char}
    {marks : List Mark} (hc : c.toNat ≤ 32)
    (h : Reads quoted inWord depth (cs ++ [c]) marks) : Reads quoted inWord depth cs marks := by
  generalize htext : cs ++ [c] = text at h
  have hne : ∀ {d : Char}, 32 < d.toNat → c ≠ d := by
    rintro d hd rfl
    omega
  have hhead : ∀ {cs : List Char} {d : Char}, (cs ++ [c]).head? ≠ some d → cs.head? ≠ some d := by
    intro cs d hne hhead
    obtain ⟨rest, rfl⟩ := List.head?_eq_some_iff.mp hhead
    exact hne rfl
  induction h generalizing cs with
  | nil inWord => simp at htext
  | openQuote _ ih =>
      obtain ⟨rest, rfl, hrest⟩ := eq_cons_of_concat htext (hne (by decide))
      exact .openQuote (ih hrest)
  | closeQuote _ ih =>
      obtain ⟨rest, rfl, hrest⟩ := eq_cons_of_concat htext (hne (by decide))
      exact .closeQuote (ih hrest)
  | quoted hd hread ih =>
      cases cs with
      | nil =>
          obtain ⟨-, rfl⟩ := List.cons.inj htext
          cases hread
      | cons e rest =>
          obtain ⟨rfl, hrest⟩ := List.cons.inj htext
          exact .quoted hd (ih hrest)
  | blank hd hread ih =>
      cases cs with
      | nil =>
          obtain ⟨-, rfl⟩ := List.cons.inj htext
          cases hread
          rw [show endOf false = [] from rfl, List.append_nil]
          exact .nil _
      | cons e rest =>
          obtain ⟨rfl, hrest⟩ := List.cons.inj htext
          exact .blank hd (ih hrest)
  | char hd _ ih =>
      obtain ⟨rest, rfl, hrest⟩ := eq_cons_of_concat htext (hne (isWordChar_code hd))
      exact .char hd (ih hrest)
  | dollar hcs _ ih =>
      obtain ⟨rest, rfl, rfl⟩ := eq_cons_of_concat htext (hne (by decide))
      exact .dollar (hhead hcs) (ih rfl)
  | andIf _ ih =>
      obtain ⟨rest, rfl, hrest⟩ := eq_cons_of_concat htext (hne (by decide))
      obtain ⟨rest', rfl, hrest'⟩ := eq_cons_of_concat hrest (hne (by decide))
      exact .andIf (ih hrest')
  | orIf _ ih =>
      obtain ⟨rest, rfl, hrest⟩ := eq_cons_of_concat htext (hne (by decide))
      obtain ⟨rest', rfl, hrest'⟩ := eq_cons_of_concat hrest (hne (by decide))
      exact .orIf (ih hrest')
  | pipe hcs _ ih =>
      obtain ⟨rest, rfl, rfl⟩ := eq_cons_of_concat htext (hne (by decide))
      exact .pipe (hhead hcs) (ih rfl)
  | opens _ ih =>
      obtain ⟨rest, rfl, hrest⟩ := eq_cons_of_concat htext (hne (by decide))
      obtain ⟨rest', rfl, hrest'⟩ := eq_cons_of_concat hrest (hne (by decide))
      exact .opens (ih hrest')
  | closes _ ih =>
      obtain ⟨rest, rfl, hrest⟩ := eq_cons_of_concat htext (hne (by decide))
      exact .closes (ih hrest)

theorem Reads.of_append_spaces {quoted inWord : Bool} {depth : Nat} {cs spaces : List Char}
    {marks : List Mark} (hspaces : ∀ c ∈ spaces, c.toNat ≤ 32)
    (h : Reads quoted inWord depth (cs ++ spaces) marks) : Reads quoted inWord depth cs marks := by
  induction spaces generalizing cs with
  | nil => rwa [List.append_nil] at h
  | cons c spaces ih =>
      have hcs : Reads quoted inWord depth (cs ++ [c]) marks :=
        ih (fun d hd => hspaces d (List.mem_cons_of_mem _ hd)) (by simpa using h)
      exact hcs.of_concat (hspaces c (List.mem_cons_self ..))

/-- Characters of a word in front. -/
theorem Reads.word {inWord : Bool} {depth : Nat} (word : List Char) {cs : List Char}
    {marks : List Mark} (hne : word ≠ []) (hword : ∀ c ∈ word, isWordChar false c = true)
    (h : Reads false true depth cs marks) :
    Reads false inWord depth (word ++ cs) (word.map .char ++ marks) := by
  have hmono : ∀ {inWord : Bool} {c : Char}, isWordChar false c = true →
      isWordChar inWord c = true := by
    intro inWord c hc
    simp only [isWordChar, Bool.or_eq_true, Bool.false_and, Bool.false_eq_true, or_false] at hc
    simp [isWordChar, hc]
  induction word generalizing inWord with
  | nil => exact absurd rfl hne
  | cons c word ih =>
      refine .char (hmono (hword c (List.mem_cons_self ..))) ?_
      cases word with
      | nil => exact h
      | cons d word =>
          exact ih (by simp) fun e he => hword e (List.mem_cons_of_mem _ he)

/-- A word and a blank in front. -/
theorem Reads.word_blank {inWord : Bool} {depth : Nat} (word : List Char) {cs : List Char}
    {marks : List Mark} (hne : word ≠ []) (hword : ∀ c ∈ word, isWordChar false c = true)
    (h : Reads false false depth cs marks) :
    Reads false inWord depth (word ++ ' ' :: cs) (word.map .char ++ .wordEnd :: marks) :=
  .word word hne hword (.blank rfl h)

theorem Reads.of_char {inWord : Bool} {depth : Nat} {c : Char} {cs : List Char}
    {marks : List Mark} (hc : isWordChar false c = true)
    (h : Reads false inWord depth (c :: cs) marks) :
    ∃ marks', Reads false true depth cs marks' ∧ marks = .char c :: marks' := by
  cases h with
  | char _ h => exact ⟨_, h, rfl⟩
  | blank hblank _ =>
      rw [(isWordChar_ne hc).2.1] at hblank
      cases hblank
  | openQuote _ => exact absurd hc (by decide)
  | dollar _ _ => exact absurd hc (by decide)
  | andIf _ => exact absurd hc (by decide)
  | orIf _ => exact absurd hc (by decide)
  | pipe _ _ => exact absurd hc (by decide)
  | opens _ => exact absurd hc (by decide)
  | closes _ => exact absurd hc (by decide)

/-- Characters of a word can be taken off again. -/
theorem Reads.of_word {inWord : Bool} {depth : Nat} (word : List Char) {cs : List Char}
    {marks : List Mark} (hne : word ≠ []) (hword : ∀ c ∈ word, isWordChar false c = true)
    (h : Reads false inWord depth (word ++ cs) marks) :
    ∃ marks', Reads false true depth cs marks' ∧ marks = word.map .char ++ marks' := by
  induction word generalizing inWord marks with
  | nil => exact absurd rfl hne
  | cons c word ih =>
      obtain ⟨marks', hread, rfl⟩ := Reads.of_char (hword c (List.mem_cons_self ..)) h
      cases word with
      | nil => exact ⟨marks', hread, rfl⟩
      | cons d word =>
          obtain ⟨marks'', hrest, rfl⟩ :=
            ih (by simp) (fun e he => hword e (List.mem_cons_of_mem _ he)) hread
          exact ⟨marks'', hrest, rfl⟩

/-! ## Quoting -/

/-- What is left of a word of quoted strings and escaped characters without the quotes. -/
def unquote : (quoted : Bool) → List Char → Option (List Char)
  | true, [] => none
  | false, [] => some []
  | true, c :: cs => if c = '\'' then unquote false cs else (unquote true cs).map (c :: ·)
  | false, '\'' :: cs => unquote true cs
  | false, '\\' :: c :: cs => (unquote false cs).map (c :: ·)
  | false, _ => none

/-- In single quotes, a quote is written as the end of them, one that is escaped, and a
new beginning. -/
def escapeQuotes (cs : List Char) : List Char :=
  cs.flatMap fun c => if c = '\'' then ['\'', '\\', '\'', '\''] else [c]

def quoteWord (cs : List Char) : List Char := '\'' :: (escapeQuotes cs ++ ['\''])

theorem unquote_quoteWord (cs : List Char) : unquote false (quoteWord cs) = some cs := by
  show unquote true (escapeQuotes cs ++ ['\'']) = some cs
  induction cs with
  | nil => rfl
  | cons c cs ih =>
      rw [escapeQuotes, List.flatMap_cons, ← escapeQuotes]
      split
      · next hc =>
          -- out of the quotes, the escaped one, and in again
          show (unquote true (escapeQuotes cs ++ ['\''])).map ('\'' :: ·) = _
          rw [ih, hc]
          rfl
      · next hc =>
          rw [List.singleton_append, List.cons_append, unquote, if_neg hc, ih]
          rfl

/-- A reading in single quotes that has come to `word`. -/
structure InQuotes (s : Scan) (word : List Char) : Prop where
  nests : s.nests = [.single]
  escaped : s.escaped = false
  comment : s.comment = false
  word : s.word = some word
  tokens : s.tokens = []

theorem InQuotes.feed_char {s : Scan} {word : List Char} (h : InQuotes s word) {c : Char}
    (hc : c ≠ '\'') : InQuotes (feed s c) (word ++ [c]) := by
  have hfeed : feed s c = feedWord s c := by
    simp [feed, h.nests, h.escaped, h.comment]
  rw [hfeed]
  refine ⟨?_, h.escaped, h.comment, ?_, h.tokens⟩
  · show nestsAfter s.dollar c s.nests = [.single]
    rw [h.nests, nestsAfter, if_neg (by simpa using hc)]
  · show some (s.word.getD [] ++ [c]) = _
    rw [h.word, Option.getD_some]

/-- The end of the quotes leaves a settled reading. -/
theorem InQuotes.feed_quote {s : Scan} {word : List Char} (h : InQuotes s word) :
    (feed s '\'').Settled ∧ (feed s '\'').word = some (word ++ ['\'']) ∧
      (feed s '\'').tokens = [] := by
  have hfeed : feed s '\'' = feedWord s '\'' := by
    simp [feed, h.nests, h.escaped, h.comment]
  rw [hfeed]
  refine ⟨⟨?_, h.escaped, rfl, h.comment⟩, ?_, h.tokens⟩
  · show nestsAfter s.dollar '\'' s.nests = []
    rw [h.nests]
    rfl
  · show some (s.word.getD [] ++ ['\'']) = _
    rw [h.word, Option.getD_some]

theorem InQuotes.feed_escaped {s : Scan} {word : List Char} (h : InQuotes s word) :
    InQuotes (['\'', '\\', '\'', '\''].foldl feed s) (word ++ ['\'', '\\', '\'', '\'']) := by
  obtain ⟨⟨hnests, hescaped, hdollar, hcomment⟩, hword, htokens⟩ := h.feed_quote
  rw [List.foldl_cons]
  generalize feed s '\'' = s' at *
  constructor <;>
    simp [feed, feedBare, feedWord, nestsAfter, opened, Scan.add, isBlank, isOperator, hnests,
      hescaped, hdollar, hcomment, hword, htokens]

theorem InQuotes.foldl_escapeQuotes {s : Scan} {word : List Char} (h : InQuotes s word)
    (cs : List Char) :
    InQuotes ((escapeQuotes cs).foldl feed s) (word ++ escapeQuotes cs) := by
  induction cs generalizing s word with
  | nil => rwa [escapeQuotes, List.flatMap_nil, List.append_nil]
  | cons c cs ih =>
      rw [escapeQuotes, List.flatMap_cons, ← escapeQuotes, List.foldl_append, ← List.append_assoc]
      refine ih ?_
      split
      · exact h.feed_escaped
      · next hc => exact h.feed_char hc

/-- A quoted text is one word. -/
theorem tokens_quoteWord (cs : List Char) : tokens (quoteWord cs) = [.word (quoteWord cs)] := by
  have hstart : InQuotes (feed .start '\'') ['\''] := ⟨rfl, rfl, rfl, rfl, rfl⟩
  obtain ⟨-, hword, htokens⟩ := (hstart.foldl_escapeQuotes cs).feed_quote
  have hscan : scan (quoteWord cs) =
      feed ((escapeQuotes cs).foldl feed (feed .start '\'')) '\'' := by
    rw [scan, quoteWord, List.foldl_cons, List.foldl_append, List.foldl_cons, List.foldl_nil]
  rw [tokens, hscan, Scan.endWord, hword, htokens]
  rfl

end Shell
