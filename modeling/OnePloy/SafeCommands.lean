import OnePloy.Lib.Pattern

/-!
# Commands for a shell

`SHELL_SAFE_COMMAND_PATTERN` takes a command apart into blanks, `&&`, `||`, quoted
spans and words. What it accepts is what its author says of it, but for one thing: `$`
also stands in front of a line feed at the end (`shellSafeCommand_iff`).
-/

namespace OnePloy

open Pcre Pattern

/-! ## The pattern -/

def isCommandBlank (c : Char) : Bool := c == ' ' || c == '\t'

/-- `[^"$` and so on: a character of a double-quoted span. -/
def isDoubleQuotable (c : Char) : Bool :=
  !(['"', '$', Char.ofNat 96, '\\', '\n', '\r'].contains c)

def isSingleQuotable (c : Char) : Bool := !(['\'', '\n', '\r'].contains c)

def isCommandWordChar (c : Char) : Bool :=
  c.isAlphanum || "._-/=:@,+[]\x7b\x7d#%^~*?!".toList.contains c

def literal (c : Char) : Pattern Char := one (· == c)

def quotedSpan (quote : Char) (inside : Char → Bool) : Pattern Char :=
  (literal quote).andThen ((one inside).many.andThen (literal quote))

/-- The alternatives, in their order. -/
def commandToken : Pattern Char :=
  ((one isCommandBlank).many1).either
    (((literal '&').andThen (literal '&')).either
      (((literal '|').andThen (literal '|')).either
        ((quotedSpan '"' isDoubleQuotable).either
          ((quotedSpan '\'' isSingleQuotable).either
            (one isCommandWordChar).many1))))

def shellSafeCommandPattern : Pattern Char := commandToken.many1

/-- `preg_match` with `SHELL_SAFE_COMMAND_PATTERN`. -/
def isShellSafeCommand (command : String) : Bool := shellSafeCommandPattern.anchored command.toList

/-- `shellSafeCommandRules`. -/
def shellSafeCommandRules (maxLength : Nat) (value : Option String) : Bool :=
  value.all fun command => decide (command.length ≤ maxLength) && isShellSafeCommand command

/-! ## What a shell sees -/

inductive Quoting
  | plain
  | double
  | single
  deriving DecidableEq, Repr

def Quoting.next : Quoting → Char → Quoting
  | plain, '"' => double
  | plain, '\'' => single
  | double, '"' => plain
  | single, '\'' => plain
  | q, _ => q

/-- Each character with the quoting it is read in. A backslash would hide a quote
behind it, but there is to be none outside single quotes. -/
def readQuoting : Quoting → List Char → List (Char × Quoting)
  | _, [] => []
  | q, c :: cs => (c, q) :: readQuoting (q.next c) cs

def quotingAfter (q : Quoting) (cs : List Char) : Quoting := cs.foldl Quoting.next q

def isOperatorChar (c : Char) : Bool := c == '&' || c == '|'

/-- `&` and `|` stand in pairs outside quotes, each in one of them. -/
def inPairs : List (Char × Quoting) → Bool
  | [] => true
  | (c, q) :: rest =>
      if q = .plain && isOperatorChar c then
        match rest with
        | [] => false
        | (d, q') :: rest => q' = .plain && d == c && inPairs rest
      else inPairs rest

/-- The documented promise. -/
structure ShellSafe (command : List Char) : Prop where
  noLineFeed : '\n' ∉ command
  noReturn : '\r' ∉ command
  balanced : quotingAfter .plain command = .plain
  outside : ∀ p ∈ readQuoting .plain command, p.2 = .plain →
    p.1 ∉ [';', '$', Char.ofNat 96, '\\', '(', ')', '<', '>']
  pairs : inPairs (readQuoting .plain command) = true
  inside : ∀ p ∈ readQuoting .plain command, p.2 = .double → p.1 ∉ ['$', Char.ofNat 96, '\\']

/-! ## Tokens -/

theorem readQuoting_append (q : Quoting) (a b : List Char) :
    readQuoting q (a ++ b) = readQuoting q a ++ readQuoting (quotingAfter q a) b := by
  induction a generalizing q with
  | nil => rfl
  | cons c a ih => rw [List.cons_append, readQuoting, readQuoting, ih]; rfl

theorem quotingAfter_append (q : Quoting) (a b : List Char) :
    quotingAfter q (a ++ b) = quotingAfter (quotingAfter q a) b := List.foldl_append ..

/-- Where no character changes the quoting, all are read in the same. -/
theorem reads_same {q : Quoting} {t : List Char} (h : ∀ c ∈ t, q.next c = q) :
    quotingAfter q t = q ∧ readQuoting q t = t.map (·, q) := by
  induction t with
  | nil => exact ⟨rfl, rfl⟩
  | cons c t ih =>
      have hc := h c (List.mem_cons_self ..)
      obtain ⟨hafter, hread⟩ := ih fun d hd => h d (List.mem_cons_of_mem _ hd)
      refine ⟨?_, ?_⟩
      · rw [quotingAfter, List.foldl_cons, hc]
        exact hafter
      · rw [readQuoting, hc, hread]
        rfl

/-- No operator among them: the pairs are those of what follows. -/
theorem inPairs_append {l rest : List (Char × Quoting)}
    (h : ∀ p ∈ l, p.2 = .plain → isOperatorChar p.1 = false) :
    inPairs (l ++ rest) = inPairs rest := by
  induction l with
  | nil => rfl
  | cons p l ih =>
      obtain ⟨c, q⟩ := p
      have hp : (decide (q = .plain) && isOperatorChar c) = false := by
        by_cases hq : q = .plain
        · rw [h (c, q) (List.mem_cons_self ..) hq, Bool.and_false]
        · rw [decide_eq_false hq, Bool.false_and]
      rw [List.cons_append, inPairs.eq_def]
      dsimp only
      rw [hp, if_neg Bool.false_ne_true]
      exact ih fun p' hp' => h p' (List.mem_cons_of_mem _ hp')

/-- A part of a command that begins and ends outside quotes and has nothing in it
that is not allowed there. -/
structure SafePart (t : List Char) : Prop where
  balanced : quotingAfter .plain t = .plain
  pairs : ∀ rest, inPairs (readQuoting .plain t ++ rest) = inPairs rest
  line : ∀ c ∈ t, c ≠ '\n' ∧ c ≠ '\r'
  outside : ∀ p ∈ readQuoting .plain t, p.2 = .plain →
    p.1 ∉ [';', '$', Char.ofNat 96, '\\', '(', ')', '<', '>']
  inside : ∀ p ∈ readQuoting .plain t, p.2 = .double → p.1 ∉ ['$', Char.ofNat 96, '\\']

theorem SafePart.append {a b : List Char} (ha : SafePart a) (hb : SafePart b) :
    SafePart (a ++ b) := by
  have hread : readQuoting .plain (a ++ b) = readQuoting .plain a ++ readQuoting .plain b := by
    rw [readQuoting_append, ha.balanced]
  refine ⟨?_, fun rest => ?_, fun c hc => ?_, fun p hp => ?_, fun p hp => ?_⟩
  · rw [quotingAfter_append, ha.balanced, hb.balanced]
  · rw [hread, List.append_assoc, ha.pairs, hb.pairs]
  · exact (List.mem_append.mp hc).elim (ha.line c) (hb.line c)
  · exact (List.mem_append.mp (hread ▸ hp)).elim (ha.outside p) (hb.outside p)
  · exact (List.mem_append.mp (hread ▸ hp)).elim (ha.inside p) (hb.inside p)

theorem SafePart.flatten {parts : List (List Char)} (h : ∀ t ∈ parts, SafePart t) :
    SafePart parts.flatten := by
  induction parts with
  | nil => exact ⟨rfl, fun _ => rfl, nofun, nofun, nofun⟩
  | cons t parts ih =>
      exact (h t (List.mem_cons_self ..)).append (ih fun u hu => h u (List.mem_cons_of_mem _ hu))

/-- Blanks and the characters of words. -/
def isHarmless (c : Char) : Bool := isCommandBlank c || isCommandWordChar c

theorem harmless_next {c : Char} (h : isHarmless c = true) : Quoting.next .plain c = .plain := by
  unfold Quoting.next
  split <;> first | rfl | exact absurd h (by decide)

theorem SafePart.of_harmless {t : List Char} (h : ∀ c ∈ t, isHarmless c = true) : SafePart t := by
  obtain ⟨hafter, hread⟩ := reads_same fun c hc => harmless_next (h c hc)
  have hnot : ∀ {c d : Char}, c ∈ t → isHarmless d = false → c ≠ d := by
    rintro c d hc hd rfl
    exact absurd (h c hc) (by rw [hd]; exact Bool.false_ne_true)
  refine ⟨hafter, fun rest => inPairs_append ?_, fun c hc => ?_, ?_, ?_⟩
  · rw [hread]
    intro p hp _
    obtain ⟨c, hc, rfl⟩ := List.mem_map.mp hp
    rw [isOperatorChar, Bool.or_eq_false_iff, beq_eq_false_iff_ne, beq_eq_false_iff_ne]
    exact ⟨hnot hc rfl, hnot hc rfl⟩
  · exact ⟨hnot hc rfl, hnot hc rfl⟩
  · rw [hread]
    intro p hp _ hmem
    obtain ⟨c, hc, rfl⟩ := List.mem_map.mp hp
    simp only [List.mem_cons, List.not_mem_nil, or_false] at hmem
    rcases hmem with heq | heq | heq | heq | heq | heq | heq | heq <;> exact hnot hc rfl heq
  · rw [hread]
    intro p hp hdouble
    obtain ⟨c, hc, rfl⟩ := List.mem_map.mp hp
    cases hdouble

theorem SafePart.of_pair {c : Char} (h : isOperatorChar c = true) : SafePart [c, c] := by
  rw [isOperatorChar, Bool.or_eq_true, beq_iff_eq, beq_iff_eq] at h
  have hread : readQuoting .plain [c, c] = [(c, .plain), (c, .plain)] := by
    rcases h with rfl | rfl <;> rfl
  refine ⟨by rcases h with rfl | rfl <;> rfl, fun rest => ?_, fun d hd => ?_, fun p hp _ => ?_,
    fun p hp hdouble => ?_⟩
  · rcases h with rfl | rfl <;> simp [readQuoting, Quoting.next, inPairs, isOperatorChar]
  · have hd : d = c := by simpa using hd
    rcases h with rfl | rfl <;> simp [hd]
  · rw [hread] at hp
    have hp : p = (c, .plain) := by simpa using hp
    rcases h with rfl | rfl <;> simp [hp]
  · rw [hread] at hp
    have hp : p = (c, .plain) := by simpa using hp
    rw [hp] at hdouble
    cases hdouble

/-- A quoted span: the quote at its end is read inside. -/
theorem SafePart.of_quoted {quote : Char} {q : Quoting} {inner : List Char}
    (hopen : Quoting.next .plain quote = q) (hclose : q.next quote = .plain) (hq : q ≠ .plain)
    (hquote : quote = '"' ∨ quote = '\'') (hinner : ∀ c ∈ inner, q.next c = q)
    (hline : ∀ c ∈ inner, c ≠ '\n' ∧ c ≠ '\r')
    (hinside : q = .double → ∀ c ∈ inner, c ∉ ['$', Char.ofNat 96, '\\']) :
    SafePart (quote :: (inner ++ [quote])) := by
  obtain ⟨hafter, hread⟩ := reads_same hinner
  have hwhole : readQuoting .plain (quote :: (inner ++ [quote])) =
      (quote, .plain) :: (inner.map (·, q) ++ [(quote, q)]) := by
    rw [readQuoting, hopen, readQuoting_append, hafter, hread]
    rfl
  have hoperator : isOperatorChar quote = false := by rcases hquote with rfl | rfl <;> rfl
  have hmem : ∀ p, p ∈ readQuoting .plain (quote :: (inner ++ [quote])) →
      p = (quote, .plain) ∨ (p.1 ∈ inner ∧ p.2 = q) ∨ p = (quote, q) := by
    intro p hp
    rw [hwhole] at hp
    simp only [List.mem_cons, List.mem_append, List.mem_map, List.not_mem_nil, or_false] at hp
    rcases hp with rfl | ⟨c, hc, rfl⟩ | rfl
    exacts [.inl rfl, .inr (.inl ⟨hc, rfl⟩), .inr (.inr rfl)]
  refine ⟨?_, fun rest => inPairs_append fun p hp hplain => ?_, fun c hc => ?_,
    fun p hp hplain => ?_, fun p hp hdouble => ?_⟩
  · rw [quotingAfter, List.foldl_cons, hopen, List.foldl_append]
    exact (congrArg (Quoting.next · quote) hafter).trans hclose
  · rcases hmem p hp with rfl | ⟨-, hpq⟩ | rfl
    exacts [hoperator, absurd (hpq.symm.trans hplain) hq, hoperator]
  · have hends : quote ≠ '\n' ∧ quote ≠ '\r' := by rcases hquote with rfl | rfl <;> decide
    simp only [List.mem_cons, List.mem_append, List.not_mem_nil, or_false] at hc
    rcases hc with rfl | hc | rfl
    exacts [hends, hline c hc, hends]
  · have hends : quote ∉ [';', '$', Char.ofNat 96, '\\', '(', ')', '<', '>'] := by
      rcases hquote with rfl | rfl <;> decide
    rcases hmem p hp with rfl | ⟨-, hpq⟩ | rfl
    exacts [hends, absurd (hpq.symm.trans hplain) hq, hends]
  · have hends : quote ∉ ['$', Char.ofNat 96, '\\'] := by
      rcases hquote with rfl | rfl <;> decide
    rcases hmem p hp with rfl | ⟨hinner', hpq⟩ | rfl
    exacts [hends, hinside (hpq.symm.trans hdouble) _ hinner', hends]

/-! ## What the pattern takes apart -/

theorem mem_quotedSpan {quote : Char} {inside : Char → Bool} {t : List Char} :
    t ∈ (quotedSpan quote inside).language ↔
      ∃ inner : List Char, (∀ c ∈ inner, inside c = true) ∧ t = quote :: (inner ++ [quote]) := by
  rw [quotedSpan, literal, mem_one_andThen]
  constructor
  · rintro ⟨x, v, hx, hv, rfl⟩
    rw [language, Language.mem_mul] at hv
    obtain ⟨inner, hinner, last, ⟨y, hy, rfl⟩, rfl⟩ := hv
    rw [eq_of_beq hx, eq_of_beq hy]
    exact ⟨inner, mem_many_one.mp hinner, rfl⟩
  · rintro ⟨inner, hinner, rfl⟩
    refine ⟨quote, _, beq_self_eq_true _, ?_, rfl⟩
    rw [language, Language.mem_mul]
    exact ⟨inner, mem_many_one.mpr hinner, [quote], ⟨quote, beq_self_eq_true _, rfl⟩, rfl⟩

theorem safePart_of_token {t : List Char} (h : t ∈ commandToken.language) : SafePart t := by
  have hharmless : ∀ {accepts : Char → Bool}, (∀ c, accepts c = true → isHarmless c = true) →
      t ∈ (one accepts).many1.language → SafePart t := by
    intro accepts himp ht
    obtain ⟨parts, -, rfl, hparts⟩ := mem_many1.mp ht
    refine SafePart.of_harmless fun c hc => ?_
    obtain ⟨part, hpart, hcp⟩ := List.mem_flatten.mp hc
    obtain ⟨x, hx, rfl⟩ := hparts part hpart
    exact himp c (List.mem_singleton.mp hcp ▸ hx)
  have hpair : ∀ {c : Char}, isOperatorChar c = true →
      t ∈ ((literal c).andThen (literal c)).language → SafePart t := by
    intro c hc ht
    obtain ⟨x, v, hx, ⟨y, hy, rfl⟩, rfl⟩ := mem_one_andThen.mp ht
    rw [eq_of_beq hx, eq_of_beq hy]
    exact SafePart.of_pair hc
  simp only [commandToken, language, Language.mem_add] at h
  rcases h with h | h | h | h | h | h
  · exact hharmless (fun c hc => by rw [isHarmless, hc, Bool.true_or]) h
  · exact hpair rfl h
  · exact hpair rfl h
  · obtain ⟨inner, hinner, rfl⟩ := mem_quotedSpan.mp h
    have hnot : ∀ {c d : Char}, c ∈ inner → isDoubleQuotable d = false → c ≠ d := by
      rintro c d hc hd rfl
      exact absurd (hinner c hc) (by rw [hd]; exact Bool.false_ne_true)
    refine SafePart.of_quoted (q := .double) rfl rfl (fun h => Quoting.noConfusion h) (.inl rfl) (fun c hc => ?_)
      (fun c hc => ⟨hnot hc rfl, hnot hc rfl⟩) fun _ c hc hmem => ?_
    · unfold Quoting.next
      split
      all_goals first | rfl | contradiction | exact absurd rfl (hnot hc rfl)
    · simp only [List.mem_cons, List.not_mem_nil, or_false] at hmem
      rcases hmem with heq | heq | heq <;> exact hnot hc rfl heq
  · obtain ⟨inner, hinner, rfl⟩ := mem_quotedSpan.mp h
    have hnot : ∀ {c d : Char}, c ∈ inner → isSingleQuotable d = false → c ≠ d := by
      rintro c d hc hd rfl
      exact absurd (hinner c hc) (by rw [hd]; exact Bool.false_ne_true)
    refine SafePart.of_quoted (q := .single) rfl rfl (fun h => Quoting.noConfusion h) (.inr rfl) (fun c hc => ?_)
      (fun c hc => ⟨hnot hc rfl, hnot hc rfl⟩) (fun h => Quoting.noConfusion h)
    unfold Quoting.next
    split
    all_goals first | rfl | contradiction | exact absurd rfl (hnot hc rfl)
  · exact hharmless (fun c hc => by rw [isHarmless, hc, Bool.or_true]) h

theorem safePart_of_pattern {w : List Char} (h : w ∈ shellSafeCommandPattern.language) :
    SafePart w := by
  obtain ⟨parts, -, rfl, hparts⟩ := mem_many1.mp h
  exact SafePart.flatten fun t ht => safePart_of_token (hparts t ht)

theorem SafePart.shellSafe {w : List Char} (h : SafePart w) : ShellSafe w where
  noLineFeed hmem := (h.line _ hmem).1 rfl
  noReturn hmem := (h.line _ hmem).2 rfl
  balanced := h.balanced
  outside := h.outside
  pairs := by
    have := h.pairs []
    rwa [List.append_nil] at this
  inside := h.inside

/-- An accepted command is what its documentation says, exactly if it does not end in
a line feed. -/
theorem shellSafeCommand_iff (command : String) (h : isShellSafeCommand command = true) :
    ShellSafe command.toList ↔ command.toList.getLast? ≠ some '\n' := by
  rcases anchored_iff.mp h with hmem | ⟨v, -, heq⟩
  · have hsafe := safePart_of_pattern hmem
    refine iff_of_true hsafe.shellSafe fun hlast => ?_
    exact (hsafe.line _ (List.mem_of_getLast? hlast)).1 rfl
  · rw [heq]
    refine iff_of_false (fun hsafe => hsafe.noLineFeed ?_) fun hne => hne ?_
    · exact List.mem_append_right _ (List.mem_singleton_self _)
    · exact List.getLast?_concat

/-- Two commands and a quoted argument. -/
theorem build_command_safe :
    isShellSafeCommand "make build && echo \"it's done\"" = true ∧
      ShellSafe "make build && echo \"it's done\"".toList := by
  have haccepted : isShellSafeCommand "make build && echo \"it's done\"" = true := by
    decide +kernel
  exact ⟨haccepted, (shellSafeCommand_iff _ haccepted).mpr (by decide +kernel)⟩

theorem line_feed_accepted :
    ¬ ∀ command : String, isShellSafeCommand command = true → ShellSafe command.toList := by
  intro h
  exact (h "ls\n" (by decide +kernel)).noLineFeed (by decide +kernel)

end OnePloy
