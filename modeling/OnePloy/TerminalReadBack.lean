import OnePloy.TerminalReach
import OnePloy.SshCommand

/-!
# The terminal reads back what is printed

`extractSshArgs`, `validateSshArgs` and `extractHereDocContent` are written apart from
`generateSshCommand`. Each printed word is one argument for the loop over the characters,
and the two expressions find the arguments and the here-document where they were written,
since nothing before them looks like what they look for. The check of the arguments wants
more of the user than the pattern of user names (`terminal_reads_back`).
-/

namespace OnePloy

open Php Shell Js

namespace SshCommand

/-! ## Words -/

/-- A text in code units. -/
def units (cs : List Char) : Utf16 := cs.map unit

@[simp] theorem units_append (cs ds : List Char) : units (cs ++ ds) = units cs ++ units ds :=
  List.map_append

@[simp] theorem units_cons (c : Char) (cs : List Char) : units (c :: cs) = unit c :: units cs := rfl

@[simp] theorem units_nil : units [] = [] := rfl

/-- What the reader finds in a character outside of quotes. -/
def bareFacts (c : Char) : Bool :=
  unit c != unit '"' && unit c != unit '\'' && unit c != unit ' ' && !isSpace (unit c) &&
    unit c != 0 && isWordUnit (unit c) == (c.isAlphanum || c == '_') &&
    (if 65 ≤ unit c ∧ unit c ≤ 90 then unit c + 32 else unit c) == unit c.toLower &&
    isBare c.toLower

theorem bareFacts_of_isBare {c : Char} (h : isBare c = true) : bareFacts c = true :=
  of_isBare (by decide +kernel) h

theorem unit_isBare {c : Char} (h : isBare c = true) :
    unit c ≠ unit '"' ∧ unit c ≠ unit '\'' ∧ unit c ≠ unit ' ' ∧ isSpace (unit c) = false := by
  have hfacts := bareFacts_of_isBare h
  simp only [bareFacts, Bool.and_eq_true, bne_iff_ne, Bool.not_eq_true'] at hfacts
  obtain ⟨⟨⟨⟨⟨⟨⟨hdouble, hsingle⟩, hspace⟩, hwhite⟩, -⟩, -⟩, -⟩, -⟩ := hfacts
  exact ⟨hdouble, hsingle, hspace, hwhite⟩

theorem splitArguments_bare {text : List Char} (h : ∀ c ∈ text, isBare c = true)
    (current rest : Utf16) :
    splitArguments none current (units text ++ rest) =
      splitArguments none (current ++ units text) rest := by
  induction text generalizing current with
  | nil => rw [units, List.map_nil, List.nil_append, List.append_nil]
  | cons c text ih =>
      obtain ⟨hdouble, hsingle, hspace, -⟩ := unit_isBare (h c List.mem_cons_self)
      rw [units_cons, List.cons_append, splitArguments, if_neg (by simp [hdouble, hsingle]),
        if_neg hspace, ih fun d hd => h d (List.mem_cons_of_mem c hd), List.append_assoc]
      rfl

theorem splitArguments_quoted {text : List Char}
    (h : ∀ c ∈ text, isBare c = true ∨ c = ' ') (current rest : Utf16) :
    splitArguments (some (unit '\'')) current (units text ++ unit '\'' :: rest) =
      splitArguments none (current ++ units text ++ [unit '\'']) rest := by
  induction text generalizing current with
  | nil => simp [splitArguments, units]
  | cons c text ih =>
      have hne : unit c ≠ unit '\'' := by
        rcases h c List.mem_cons_self with hc | rfl
        · exact (unit_isBare hc).2.1
        · decide
      rw [units_cons, List.cons_append, splitArguments, if_neg hne,
        ih fun d hd => h d (List.mem_cons_of_mem c hd), List.append_assoc current]
      rfl

/-- By induction on the parts: a word is put to what has been read of it. -/
theorem splitArguments_word {word : Word Char} (h : ∀ piece ∈ word, IsPart piece)
    (current rest : Utf16) :
    splitArguments none current (units (word.raw '\'') ++ rest) =
      splitArguments none (current ++ units (word.raw '\'')) rest := by
  induction word generalizing current with
  | nil => simp [Word.raw, units]
  | cons piece word ih =>
      have ih := ih fun other hother => h other (List.mem_cons_of_mem piece hother)
      have hpart := h piece List.mem_cons_self
      rw [Word.raw, List.flatMap_cons, ← Word.raw, units_append, List.append_assoc]
      cases piece with
      | bare text => rw [Piece.raw, splitArguments_bare hpart, ih, List.append_assoc]
      | quoted text =>
          rw [Piece.raw, units_cons, units_append, units_cons, units_nil, List.cons_append,
            List.append_assoc, List.singleton_append, splitArguments, if_pos (.inr rfl),
            splitArguments_quoted hpart, ih]
          simp

/-! ## The ends of a word -/

/-- Neither end is white space. -/
structure TightEnds (cs : List Char) : Prop where
  head : ∀ c, cs.head? = some c → isSpace (unit c) = false
  last : ∀ c, cs.getLast? = some c → isSpace (unit c) = false

theorem TightEnds.append {cs ds : List Char} (hcs : TightEnds cs) (hds : TightEnds ds) :
    TightEnds (cs ++ ds) := by
  cases cs with
  | nil => exact hds
  | cons c cs =>
      refine ⟨fun d hd => hcs.head d hd, fun d hd => ?_⟩
      cases ds with
      | nil => exact hcs.last d (by simpa using hd)
      | cons e ds =>
          rw [List.getLast?_append_cons] at hd
          exact hds.last d hd

theorem tightEnds_piece {piece : Piece Char} (h : IsPart piece) : TightEnds (piece.raw '\'') := by
  cases piece with
  | bare text =>
      exact ⟨fun c hc => (unit_isBare (h c (List.mem_of_mem_head? hc))).2.2.2,
        fun c hc => (unit_isBare (h c (List.mem_of_mem_getLast? hc))).2.2.2⟩
  | quoted text =>
      refine ⟨fun c hc => ?_, fun c hc => ?_⟩
      · rw [Piece.raw, List.head?_cons, Option.some.injEq] at hc
        rw [← hc]
        rfl
      · rw [Piece.raw, ← List.cons_append, List.getLast?_concat, Option.some.injEq] at hc
        rw [← hc]
        rfl

theorem tightEnds_bare {text : List Char} (h : ∀ c ∈ text, isBare c = true) : TightEnds text :=
  @tightEnds_piece (.bare text) h

theorem tightEnds_word {word : Word Char} (h : ∀ piece ∈ word, IsPart piece) :
    TightEnds (word.raw '\'') := by
  induction word with
  | nil => exact ⟨by simp [Word.raw], by simp [Word.raw]⟩
  | cons piece word ih =>
      rw [Word.raw, List.flatMap_cons, ← Word.raw]
      exact (tightEnds_piece (h piece List.mem_cons_self)).append
        (ih fun other hother => h other (List.mem_cons_of_mem piece hother))

theorem trim_units {cs : List Char} (h : TightEnds cs) : Js.trim (units cs) = units cs := by
  refine trim_eq_self (fun u hu => ?_) fun u hu => ?_
  · rw [units, List.head?_map, Option.map_eq_some_iff] at hu
    obtain ⟨c, hc, rfl⟩ := hu
    exact h.head c hc
  · rw [units, List.getLast?_map, Option.map_eq_some_iff] at hu
    obtain ⟨c, hc, rfl⟩ := hu
    exact h.last c hc

theorem units_ne_nil {cs : List Char} (h : cs ≠ []) : (units cs).isEmpty = false := by
  simpa [units] using h

/-- The words with spaces between them are read as the words. -/
theorem splitArguments_words {words : List (Word Char)} (h : ∀ word ∈ words, IsWord word)
    {last : Word Char} (hlast : IsWord last) :
    splitArguments none [] (units (Word.spaced ' ' '\'' words ++ last.raw '\'')) =
      (words ++ [last]).map fun word => units (word.raw '\'') := by
  induction words with
  | nil =>
      rw [spaced_nil, List.nil_append, ← List.append_nil (units _), splitArguments_word hlast.parts,
        List.nil_append, splitArguments, trim_units (tightEnds_word hlast.parts),
        units_ne_nil hlast.ne_nil]
      rfl
  | cons word words ih =>
      have hword := h word List.mem_cons_self
      rw [spaced_cons, List.append_assoc, List.cons_append, units_append, units_cons,
        splitArguments_word hword.parts, List.nil_append, splitArguments, if_neg (by decide),
        if_pos rfl, trim_units (tightEnds_word hword.parts), units_ne_nil hword.ne_nil,
        ih fun other hother => h other (List.mem_cons_of_mem word hother)]
      rfl

/-! ## Quotes -/

theorem unquote_append {quote : UInt16} {s : Utf16} (h : quote ∉ s) (rest : Utf16) :
    Js.unquote quote none (s ++ rest) = s ++ Js.unquote quote none rest := by
  induction s with
  | nil => rfl
  | cons u us ih =>
      rw [List.mem_cons, not_or] at h
      rw [List.cons_append, Js.unquote, if_neg (Ne.symm h.1), ih h.2]
      rfl

/-- What has been read of a quoted text stands in reverse. -/
theorem unquote_opened {quote : UInt16} {s : Utf16} (h : quote ∉ s) (opened rest : Utf16) :
    Js.unquote quote (some opened) (s ++ quote :: rest) =
      opened.reverse ++ s ++ Js.unquote quote none rest := by
  induction s generalizing opened with
  | nil => rw [List.nil_append, Js.unquote, if_pos rfl, List.append_nil]
  | cons u us ih =>
      rw [List.mem_cons, not_or] at h
      rw [List.cons_append, Js.unquote, if_neg (Ne.symm h.1), ih h.2]
      simp

theorem notMem_units {cs : List Char} {c : Char} (h : ∀ d ∈ cs, unit d ≠ unit c) :
    unit c ∉ units cs := fun hc =>
  let ⟨d, hd, heq⟩ := List.mem_map.1 hc
  h d hd heq

theorem unit_of_part {piece : Piece Char} (h : IsPart piece) :
    ∀ c ∈ piece.value, unit c ≠ unit '"' ∧ unit c ≠ unit '\'' := by
  cases piece with
  | bare text => exact fun c hc => ⟨(unit_isBare (h c hc)).1, (unit_isBare (h c hc)).2.1⟩
  | quoted text =>
      intro c hc
      rcases h c hc with hbare | rfl
      · exact ⟨(unit_isBare hbare).1, (unit_isBare hbare).2.1⟩
      · decide

theorem unquote_word {word : Word Char} (h : ∀ piece ∈ word, IsPart piece) :
    Js.unquote (unit '\'') none (units (word.raw '\'')) = units word.value := by
  induction word with
  | nil => rfl
  | cons piece word ih =>
      have ih := ih fun other hother => h other (List.mem_cons_of_mem piece hother)
      have hnot : unit '\'' ∉ units piece.value :=
        notMem_units fun c hc => (unit_of_part (h piece List.mem_cons_self) c hc).2
      rw [Word.raw, List.flatMap_cons, ← Word.raw, Word.value, List.flatMap_cons, ← Word.value,
        units_append, units_append]
      cases piece with
      | bare text =>
          rw [Piece.value] at hnot ⊢
          rw [Piece.raw, unquote_append hnot, ih]
      | quoted text =>
          rw [Piece.value] at hnot ⊢
          rw [Piece.raw, units_cons, units_append, units_cons, units_nil, List.cons_append,
            List.append_assoc, List.singleton_append, Js.unquote, if_pos rfl, unquote_opened hnot,
            ih]
          rfl

/-- A word is normalised to what the shell makes of it. -/
theorem normalizeShellArgument_word {word : Word Char} (h : ∀ piece ∈ word, IsPart piece) :
    normalizeShellArgument (units (word.raw '\'')) = units word.value := by
  have hnot : unit '"' ∉ units word.value := notMem_units fun c hc =>
    let ⟨piece, hpiece, hc⟩ := List.mem_flatMap.1 hc
    (unit_of_part (h piece hpiece) c hc).1
  have hdouble := unquote_append hnot []
  rw [List.append_nil] at hdouble
  rw [normalizeShellArgument, unquote_word h, hdouble]
  exact List.append_nil _

/-! ## Where the arguments are -/

theorem sshCommandMatch_skip {s : Utf16} (h : unit 's' ∉ s) (rest : Utf16) :
    sshCommandMatch (s ++ rest) = sshCommandMatch rest := by
  induction s with
  | nil => rfl
  | cons u us ih =>
      rw [List.mem_cons, not_or] at h
      have hno : (text "ssh ").isPrefixOf (u :: (us ++ rest)) = false := by
        refine eq_false_of_ne_true fun hfront => h.1 ?_
        exact (List.cons_prefix_cons.1 (List.isPrefixOf_iff_prefix.1 hfront)).1
      rw [List.cons_append, sshCommandMatch, hno]
      exact ih h.2

/-- The words of a text that begin and end like the name of a shell in quotes. -/
def shellWord : List Char := "'bash".toList

/-- In a text without the word `'bash` the command for the other side begins nowhere. -/
theorem not_prefix_of_notMem_pieces {cs : List Char} (h : shellWord ∉ pieces ' ' cs)
    {before behind : List Char} (hcs : cs = before ++ behind) (hne : behind ≠ []) :
    ¬ " 'bash -se'".toList <+: behind ++ " 'bash -se'".toList := by
  intro hstart
  have hneedle : " 'bash -se'".toList = ' ' :: (shellWord ++ ' ' :: "-se'".toList) := by
    rw [shellWord]
    simp
  obtain ⟨c, behind, rfl⟩ := List.exists_cons_of_ne_nil hne
  rw [hneedle, List.cons_append, List.cons_prefix_cons] at hstart
  obtain ⟨rfl, more, hmore⟩ := hstart
  -- the word behind the space ends at the next space
  have hword : pieces ' ' (shellWord ++ ' ' :: ("-se'".toList ++ more)) =
      pieces ' ' (behind ++ ' ' :: (shellWord ++ ' ' :: "-se'".toList)) := by
    rw [← hmore]
    simp
  rw [pieces_append_sep, pieces_append_sep, pieces_of_notMem (a := shellWord) (by decide)] at hword
  obtain ⟨first, rest, hfirst⟩ := List.exists_cons_of_ne_nil (pieces_ne_nil ' ' behind)
  rw [hfirst, List.singleton_append, List.cons_append] at hword
  refine h ?_
  rw [hcs, pieces_append_sep, hfirst, ← (List.cons.inj hword).1]
  simp

/-- Characters of the printed words, with their quotes and the spaces between them. -/
def IsLine (cs : List Char) : Prop := ∀ c ∈ cs, isBare c = true ∨ c = ' ' ∨ c = '\''

theorem IsLine.isAscii {cs : List Char} (h : IsLine cs) : ∀ c ∈ cs, isAscii c = true := by
  intro c hc
  rcases h c hc with hbare | rfl | rfl
  · exact isAscii_of_isBare hbare
  · rfl
  · rfl

theorem IsLine.append {cs ds : List Char} (hcs : IsLine cs) (hds : IsLine ds) :
    IsLine (cs ++ ds) := fun c hc => (List.mem_append.1 hc).elim (hcs c) (hds c)

theorem isLine_word {word : Word Char} (h : IsWord word) : IsLine (word.raw '\'') := by
  intro c hc
  obtain ⟨piece, hpiece, hc⟩ := List.mem_flatMap.1 hc
  have hpart := h.parts piece hpiece
  cases piece with
  | bare text => exact .inl (hpart c hc)
  | quoted text =>
      rw [Piece.raw, List.mem_cons, List.mem_append, List.mem_singleton] at hc
      rcases hc with hc | hc | hc
      · exact .inr (.inr hc)
      · exact (hpart c hc).imp_right .inl
      · exact .inr (.inr hc)

theorem isLine_spaced {words : List (Word Char)} (h : ∀ word ∈ words, IsWord word) :
    IsLine (Word.spaced ' ' '\'' words) := by
  intro c hc
  obtain ⟨word, hword, hc⟩ := List.mem_flatMap.1 hc
  rw [List.mem_append, List.mem_singleton] at hc
  rcases hc with hc | hc
  · exact isLine_word (h word hword) c hc
  · exact .inr (.inl hc)

theorem isLineTerminator_units {cs : List Char} (h : IsLine cs) :
    (units cs).any isLineTerminator = false := by
  rw [List.any_eq_false]
  intro u hu
  obtain ⟨c, hc, rfl⟩ := List.mem_map.1 hu
  rcases h c hc with hbare | rfl | rfl
  · intro hend
    have hspace := (unit_isBare hbare).2.2.2
    simp only [isLineTerminator, Bool.or_eq_true, beq_iff_eq] at hend
    rcases hend with ((hend | hend) | hend) | hend <;> rw [hend] at hspace <;>
      exact absurd hspace (by decide)
  · decide
  · decide

theorem units_eq_encode {cs : List Char} (h : ∀ c ∈ cs, isAscii c = true) :
    units cs = encode cs := (encode_ascii h).symm

/-- The arguments end at the command for the other side. -/
theorem upToShell_units {cs : List Char} (hne : cs ≠ []) (hline : IsLine cs)
    (hword : shellWord ∉ pieces ' ' cs) (rest : Utf16) :
    upToShell (units cs ++ (text " 'bash -se'" ++ rest)) = some (units cs) := by
  obtain ⟨c, cs, rfl⟩ := List.exists_cons_of_ne_nil hne
  have hsplit : splitAt? (text " 'bash -se'") (units cs ++ (text " 'bash -se'" ++ rest)) =
      some (units cs, text " 'bash -se'" ++ rest) := by
    rw [splitAt?_append, splitAt?_here (by decide), Option.map_some, List.append_nil]
    intro x y hxy hy hstart
    obtain ⟨before, behind, rfl, rfl, rfl⟩ := List.map_eq_append_iff.1 hxy
    have hbehind : behind ≠ [] := fun hnil => hy (by rw [hnil]; rfl)
    have hshort : text " 'bash -se'" <+: units behind ++ text " 'bash -se'" :=
      List.prefix_of_prefix_length_le hstart
        (by rw [← List.append_assoc]; exact List.prefix_append _ _) (by simp)
    have hascii : ∀ d ∈ " 'bash -se'".toList, isAscii d = true := List.all_eq_true.1 rfl
    have hall : ∀ d ∈ behind ++ " 'bash -se'".toList, isAscii d = true := fun d hd =>
      (List.mem_append.1 hd).elim
        (fun hd => hline.isAscii d (List.mem_cons_of_mem c (List.mem_append_right before hd)))
        (hascii d)
    rw [text_eq, ← units, ← units_append, units_eq_encode hall] at hshort
    exact not_prefix_of_notMem_pieces hword (List.cons_append ..).symm hbehind
      (prefix_of_prefix_encode hascii hshort)
  rw [units_cons, List.cons_append, upToShell, hsplit]
  dsimp only
  rw [← units_cons, isLineTerminator_units hline]
  rfl

/-- The arguments of the first `ssh`. -/
theorem sshCommandMatch_units {before cs : List Char} (hbefore : 's' ∉ before)
    (hascii : IsLine before) (hne : cs ≠ []) (hline : IsLine cs)
    (hword : shellWord ∉ pieces ' ' cs) (rest : Utf16) :
    sshCommandMatch (units before ++ (text "ssh " ++ (units cs ++ (text " 'bash -se'" ++ rest)))) =
      some (units cs) := by
  have hno : unit 's' ∉ units before := notMem_units fun c hc heq => by
    have hc' : c = 's' :=
      unit_inj (toNat_unit_of_ascii (hascii.isAscii c hc)).2 (by decide) heq
    exact hbefore (hc' ▸ hc)
  have hssh : ∀ s : Utf16, text "ssh " ++ s = unit 's' :: unit 's' :: unit 'h' :: unit ' ' :: s :=
    fun _ => rfl
  rw [sshCommandMatch_skip hno, hssh, sshCommandMatch, ← hssh,
    if_pos (List.isPrefixOf_iff_prefix.2 (List.prefix_append ..))]
  have hdrop : (text "ssh " ++ (units cs ++ (text " 'bash -se'" ++ rest))).drop 4 =
      units cs ++ (text " 'bash -se'" ++ rest) := rfl
  rw [hdrop, upToShell_units hne hline hword]

/-! ## No word looks like the shell -/

theorem mem_of_mem_pieces {c d : Char} {s p : List Char} (hp : p ∈ pieces c s) (hd : d ∈ p) :
    d ∈ s := by
  induction s generalizing p with
  | nil =>
      rw [pieces, List.mem_singleton] at hp
      rwa [hp] at hd
  | cons x xs ih =>
      rw [pieces] at hp
      split at hp
      · rcases List.mem_cons.1 hp with rfl | hp
        · cases hd
        · exact List.mem_cons_of_mem x (ih hp hd)
      · cases hps : pieces c xs with
        | nil => exact absurd hps (pieces_ne_nil c xs)
        | cons q qs =>
            rw [hps] at hp ih
            rcases List.mem_cons.1 hp with rfl | hp
            · rcases List.mem_cons.1 hd with rfl | hd
              · exact List.mem_cons_self
              · exact List.mem_cons_of_mem x (ih List.mem_cons_self hd)
            · exact List.mem_cons_of_mem x (ih (List.mem_cons_of_mem q hp) hd)

/-- A word that holds no quote, or no space and a quote at its end, has no part that is the
beginning of the command for the other side. -/
theorem shellWord_notMem {raw : List Char}
    (h : '\'' ∉ raw ∨ ' ' ∉ raw ∧ raw.getLast? = some '\'') : shellWord ∉ pieces ' ' raw := by
  intro hmem
  rcases h with hquote | ⟨hspace, hlast⟩
  · exact hquote (mem_of_mem_pieces hmem (by decide))
  · rw [pieces_of_notMem hspace, List.mem_singleton] at hmem
    rw [← hmem] at hlast
    exact absurd hlast (by decide)

theorem shellWord_notMem_bare {text : List Char} (h : ∀ c ∈ text, isBare c = true) :
    shellWord ∉ pieces ' ' (Word.raw '\'' [.bare text]) := by
  refine shellWord_notMem (.inl fun hc => notMem_of_isBare (c := '\'') h rfl ?_)
  simpa [Word.raw, Piece.raw] using hc

theorem shellWord_notMem_spaced {words : List (Word Char)} {raw : List Char}
    (h : ∀ word ∈ words, shellWord ∉ pieces ' ' (word.raw '\''))
    (hraw : shellWord ∉ pieces ' ' raw) :
    shellWord ∉ pieces ' ' (Word.spaced ' ' '\'' words ++ raw) := by
  induction words with
  | nil => exact hraw
  | cons word words ih =>
      rw [spaced_cons, List.append_assoc, List.cons_append, pieces_append_sep, List.mem_append,
        not_or]
      exact ⟨h word List.mem_cons_self,
        ih fun other hother => h other (List.mem_cons_of_mem word hother)⟩

theorem shellWord_notMem_words {s : Setting} (h : s.IsPrinted)
    (hvalue : (∃ text, s.value = .bare text) ∨ s ∈ tunnelSettings) :
    ∀ word ∈ s.words, shellWord ∉ pieces ' ' (word.raw '\'') := by
  simp only [Setting.words, List.forall_mem_cons]
  refine ⟨shellWord_notMem_bare (List.all_eq_true.1 rfl), ?_, List.forall_mem_nil _⟩
  rcases hvalue with ⟨text, hvalue⟩ | hmem
  · refine shellWord_notMem (.inl fun hc => ?_)
    have hall : ∀ c ∈ s.name.toList ++ ['='] ++ text, isBare c = true := by
      refine isBare_append (isBare_append h.name (List.all_eq_true.1 rfl)) ?_
      have htext := h.value
      rwa [hvalue] at htext
    refine notMem_of_isBare (c := '\'') hall rfl ?_
    simpa [hvalue, Word.raw, Piece.raw] using hc
  · rw [tunnelSettings, List.mem_singleton] at hmem
    subst hmem
    decide +kernel

section Command

variable (config : SshConfig) (world : SshWorld) (server : SshServer) (disableMultiplexing : Bool)

/-- The arguments before the destination. -/
def optionWords : List (Word Char) :=
  (firstSettings config world server disableMultiplexing).flatMap Setting.words ++
    [[.bare "-i".toList], [.bare (keyLocation server).toList]] ++
    (commonSettings config server).flatMap Setting.words ++
    [[.bare "-p".toList], [.quoted (Nat.toDigits 10 server.port)]]

/-- What stands between `ssh` and the command for the other side. -/
def argumentLine : List Char :=
  Word.spaced ' ' '\'' (optionWords config world server disableMultiplexing) ++
    (destination server).raw '\''

end Command

section Command

variable {config : SshConfig} {world : SshWorld} {server : SshServer} {disableMultiplexing : Bool}

theorem sshArguments_eq :
    sshArguments config world server disableMultiplexing =
      optionWords config world server disableMultiplexing ++ [destination server] := by
  simp [sshArguments, optionWords]

theorem isWord_optionWords :
    ∀ word ∈ optionWords config world server disableMultiplexing, IsWord word := fun word hword =>
  isWord_sshArguments disableMultiplexing word
    (by rw [sshArguments_eq]; exact List.mem_append_left _ hword)

theorem isLine_argumentLine : IsLine (argumentLine config world server disableMultiplexing) :=
  (isLine_spaced isWord_optionWords).append (isLine_word isWord_destination)

theorem bare_or_tunnel_first {s : Setting}
    (h : s ∈ firstSettings config world server disableMultiplexing) :
    (∃ text, s.value = .bare text) ∨ s ∈ tunnelSettings := by
  rw [firstSettings, List.mem_append] at h
  rcases h with h | h
  · split at h
    · simp only [multiplexingSettings, List.mem_cons, List.not_mem_nil, or_false] at h
      rcases h with rfl | rfl | rfl
      · exact .inl ⟨_, rfl⟩
      · exact .inl ⟨_, rfl⟩
      · exact .inl ⟨_, rfl⟩
    · cases h
  · split at h
    · exact .inr h
    · cases h

theorem bare_common {s : Setting} (h : s ∈ commonSettings config server) :
    ∃ text, s.value = .bare text := by
  simp only [commonSettings, List.mem_cons, List.not_mem_nil, or_false] at h
  rcases h with rfl | rfl | rfl | rfl | rfl | rfl | rfl <;> exact ⟨_, rfl⟩

theorem shellWord_notMem_settings {settings : List Setting} (h : ∀ s ∈ settings, s.IsPrinted)
    (hvalue : ∀ s ∈ settings, (∃ text, s.value = .bare text) ∨ s ∈ tunnelSettings) :
    ∀ word ∈ settings.flatMap Setting.words, shellWord ∉ pieces ' ' (word.raw '\'') :=
  fun word hword =>
    let ⟨s, hs, hword⟩ := List.mem_flatMap.1 hword
    shellWord_notMem_words (h s hs) (hvalue s hs) word hword

theorem getLast?_quoted (word : Word Char) (text : List Char) :
    (Word.raw '\'' (word ++ [.quoted text])).getLast? = some '\'' := by
  rw [Word.raw, List.flatMap_append, List.flatMap_singleton, Piece.raw, ← List.cons_append,
    ← List.append_assoc, List.getLast?_concat]

theorem shellWord_notMem_port :
    shellWord ∉ pieces ' ' (Word.raw '\'' [.quoted (Nat.toDigits 10 server.port)]) := by
  refine shellWord_notMem (.inr ⟨?_, getLast?_quoted [] _⟩)
  have hdigits : ' ' ∉ Nat.toDigits 10 server.port.val := notMem_toDigits rfl
  simpa [Word.raw, Piece.raw] using hdigits

theorem shellWord_notMem_destination :
    shellWord ∉ pieces ' ' ((destination server).raw '\'') := by
  refine shellWord_notMem (.inr ⟨?_, getLast?_quoted [.quoted _, .bare _] _⟩)
  have huser : ' ' ∉ server.user.val.toList := notMem_of_isBare (fun c => isBare_user) rfl
  have hip : ' ' ∉ server.ip.val.toList := notMem_of_isBare (fun c => isBare_ip) rfl
  simpa [destination, Word.raw, Piece.raw] using ⟨huser, hip⟩

theorem shellWord_notMem_argumentLine :
    shellWord ∉ pieces ' ' (argumentLine config world server disableMultiplexing) := by
  refine shellWord_notMem_spaced ?_ shellWord_notMem_destination
  simp only [optionWords, List.forall_mem_append, List.forall_mem_cons]
  exact ⟨⟨⟨shellWord_notMem_settings (isPrinted_first disableMultiplexing)
      fun s hs => bare_or_tunnel_first hs,
    shellWord_notMem_bare (List.all_eq_true.1 rfl), shellWord_notMem_bare isBare_keyLocation,
    List.forall_mem_nil _⟩,
    shellWord_notMem_settings isPrinted_common fun s hs => .inl (bare_common hs)⟩,
    shellWord_notMem_bare (List.all_eq_true.1 rfl), shellWord_notMem_port, List.forall_mem_nil _⟩

variable (config world server disableMultiplexing) in
theorem spaced_lineWords (commandTimeout : Option Int) :
    Word.spaced ' ' '\'' (lineWords config world server disableMultiplexing commandTimeout) =
      Word.spaced ' ' '\'' (timeoutWords config commandTimeout) ++ ("ssh ".toList ++
        (argumentLine config world server disableMultiplexing ++
          (" 'bash -se'".toList ++ [' ']))) := by
  have hssh : Word.spaced ' ' '\'' [[.bare "ssh".toList]] = "ssh ".toList := by
    simp [spaced_cons, Word.raw, Piece.raw]
  have hshell : Word.spaced ' ' '\'' [[.quoted "bash -se".toList]] = "'bash -se' ".toList := by
    simp [spaced_cons, Word.raw, Piece.raw]
  have hline : Word.spaced ' ' '\'' (sshArguments config world server disableMultiplexing) =
      argumentLine config world server disableMultiplexing ++ [' '] := by
    rw [sshArguments_eq, spaced_append, spaced_cons, spaced_nil, argumentLine, List.append_assoc]
  have hspaces : [' '] ++ "'bash -se' ".toList = " 'bash -se'".toList ++ [' '] := by simp
  rw [lineWords, spaced_append, spaced_append, spaced_append, hssh, hshell, hline,
    List.append_assoc, List.append_assoc, List.append_assoc, hspaces]

/-! ## The text that the terminal gets -/

theorem joinLines_append (s t : Utf16) : joinLines (s ++ t) = joinLines s ++ joinLines t :=
  List.map_append

theorem joinLines_units {cs : List Char} (hascii : ∀ c ∈ cs, isAscii c = true)
    (h : '\n' ∉ cs) : joinLines (units cs) = units cs := by
  refine List.map_congr_left (g := id) (fun u hu => ?_) |>.trans (List.map_id _)
  obtain ⟨c, hc, rfl⟩ := List.mem_map.1 hu
  refine if_neg fun heq => h ?_
  have hc' : c = '\n' := unit_inj (toNat_unit_of_ascii (hascii c hc)).2 (by decide) heq
  exact hc' ▸ hc

theorem IsLine.joinLines_eq {cs : List Char} (h : IsLine cs) :
    joinLines (units cs) = units cs := by
  refine joinLines_units h.isAscii fun hc => ?_
  rcases h _ hc with hbare | hspace | hquote
  · cases hbare
  · cases hspace
  · cases hquote

/-- The command in one line, as it is given to the reader. -/
def commandString (printed : String) : Utf16 := joinLines (encode printed.toList)

/-- The here-document in it. -/
def hereDocument (world : SshWorld) (command : String) : Utf16 :=
  text "<< \\" ++ (units (delimiter world command).toList ++
    (unit ' ' :: joinLines (encode command.toList) ++
      unit ' ' :: units (delimiter world command).toList))

theorem commandString_eq {command printed : String} {commandTimeout : Option Int}
    (h : generateSshCommand config world server command disableMultiplexing commandTimeout =
      .ok printed)
    (hdelimiter : ¬ (delimiter world command).toList <:+: command.toList) :
    commandString printed =
      units (Word.spaced ' ' '\'' (timeoutWords config commandTimeout)) ++ (text "ssh " ++
        (units (argumentLine config world server disableMultiplexing) ++
          (text " 'bash -se'" ++ (unit ' ' :: hereDocument world command)))) := by
  have hd : IsLine (delimiter world command).toList := fun c hc =>
    .inl (isBare_delimiter command c hc)
  have hline : IsLine (Word.spaced ' ' '\''
      (lineWords config world server disableMultiplexing commandTimeout)) :=
    isLine_spaced (isWord_lineWords config world server disableMultiplexing commandTimeout)
  have hnewline : encodeChar '\n' = [10] := by decide
  have hencode : encode printed.toList =
      units (Word.spaced ' ' '\''
          (lineWords config world server disableMultiplexing commandTimeout)) ++
        (text "<< \\" ++ (units (delimiter world command).toList ++
          (10 :: (encode command.toList ++ 10 :: units (delimiter world command).toList)))) := by
    rw [generateSshCommand_toList h hdelimiter, units_eq_encode hline.isAscii,
      units_eq_encode hd.isAscii]
    have hopen : encode "<< \\".toList = text "<< \\" := by decide
    have hcons : ∀ cs, encode ('\n' :: cs) = 10 :: encode cs := fun cs => by
      rw [encode, List.flatMap_cons, hnewline]
      rfl
    simp only [encode_append, hopen, hcons, List.append_assoc]
  have hspaced := congrArg units (spaced_lineWords config world server disableMultiplexing
    commandTimeout)
  rw [commandString, hencode, joinLines_append, hline.joinLines_eq, hspaced, joinLines_append,
    joinLines_append, hd.joinLines_eq]
  have htext : joinLines (text "<< \\") = text "<< \\" := by decide
  have hcons : ∀ s, joinLines (10 :: s) = unit ' ' :: joinLines s := fun _ => rfl
  have hunits : ∀ s : String, units s.toList = text s := fun _ => rfl
  rw [htext, hcons, joinLines_append, hcons, hd.joinLines_eq, hereDocument]
  simp only [units_append, hunits, units_cons, units_nil, List.append_assoc, List.cons_append,
    List.nil_append]

/-! ## The arguments -/

theorem notMem_timeoutWords {commandTimeout : Option Int} :
    's' ∉ Word.spaced ' ' '\'' (timeoutWords config commandTimeout) := by
  unfold timeoutWords
  dsimp only
  split
  · simp [spaced_cons, Word.raw, Piece.raw, notMem_toDigits (c := 's') rfl]
  · simp

theorem argumentLine_ne_nil : argumentLine config world server disableMultiplexing ≠ [] := by
  rw [argumentLine]
  exact List.append_ne_nil_of_right_ne_nil _ isWord_destination.ne_nil

/-- The tty that a command does without is asked for. -/
def withTty (arg : Utf16) : Utf16 :=
  if arg = text "RequestTTY=no" then text "RequestTTY=yes" else arg

/-- What is read are the words of the shell. -/
theorem extractSshArgs_eq {command printed : String} {commandTimeout : Option Int}
    (h : generateSshCommand config world server command disableMultiplexing commandTimeout =
      .ok printed)
    (hdelimiter : ¬ (delimiter world command).toList <:+: command.toList) :
    extractSshArgs (commandString printed) =
      (sshArguments config world server disableMultiplexing).map fun word =>
        withTty (units word.value) := by
  have hmatch : sshCommandMatch (commandString printed) =
      some (units (argumentLine config world server disableMultiplexing)) := by
    rw [commandString_eq h hdelimiter]
    exact sshCommandMatch_units notMem_timeoutWords (isLine_spaced (isWord_timeoutWords _))
      argumentLine_ne_nil isLine_argumentLine shellWord_notMem_argumentLine _
  have hwords : (splitArguments none []
        (units (argumentLine config world server disableMultiplexing))).map normalizeShellArgument =
      (sshArguments config world server disableMultiplexing).map fun word => units word.value := by
    rw [argumentLine, splitArguments_words isWord_optionWords isWord_destination, List.map_map,
      ← sshArguments_eq]
    exact List.map_congr_left fun word hword =>
      normalizeShellArgument_word (isWord_sshArguments disableMultiplexing word hword).parts
  have htty : ∃ word ∈ sshArguments config world server disableMultiplexing,
      withTty (units word.value) = text "RequestTTY=yes" := by
    refine ⟨[.bare ("RequestTTY".toList ++ ['=']), .bare "no".toList], ?_, by decide⟩
    simp [sshArguments, commonSettings, Setting.words]
  rw [extractSshArgs, hmatch]
  dsimp only
  rw [hwords, List.map_map]
  refine if_neg fun hcond => ?_
  obtain ⟨word, hword, heq⟩ := htty
  have hmem : text "RequestTTY=yes" ∈
      (sshArguments config world server disableMultiplexing).map
        ((fun arg => if arg = text "RequestTTY=no" then text "RequestTTY=yes" else arg) ∘
          fun word => units word.value) := List.mem_map.2 ⟨word, hword, heq⟩
  rw [Bool.and_eq_true, Bool.not_eq_true'] at hcond
  exact absurd (hcond.1.symm.trans (List.contains_iff_mem.2 hmem)) (by decide)

/-! ## The here-document -/

theorem hereDocDelimiter_skip {s : Utf16} (h : unit '<' ∉ s) (rest : Utf16) :
    hereDocDelimiter (s ++ rest) = hereDocDelimiter rest := by
  induction s with
  | nil => rfl
  | cons u us ih =>
      rw [List.mem_cons, not_or] at h
      have hno : (text "<< ").isPrefixOf (u :: (us ++ rest)) = false := by
        refine eq_false_of_ne_true fun hfront => h.1 ?_
        exact (List.cons_prefix_cons.1 (List.isPrefixOf_iff_prefix.1 hfront)).1
      rw [List.cons_append, hereDocDelimiter, hno]
      exact ih h.2

theorem hereDocBetween_skip {delimiter s : Utf16} (h : unit '<' ∉ s) (rest : Utf16) :
    hereDocBetween delimiter (s ++ rest) = hereDocBetween delimiter rest := by
  induction s with
  | nil => rfl
  | cons u us ih =>
      rw [List.mem_cons, not_or] at h
      have hno : ¬ (text "<< \\" ++ delimiter).isPrefixOf (u :: (us ++ rest)) = true := by
        refine fun hfront => h.1 ?_
        exact (List.cons_prefix_cons.1 (List.isPrefixOf_iff_prefix.1 hfront)).1
      rw [List.cons_append, hereDocBetween, if_neg hno]
      exact ih h.2

theorem notMem_units_of_isLine {cs : List Char} (h : IsLine cs) {c : Char}
    (hc : isAscii c = true) (hno : isBare c = false) (hspace : c ≠ ' ') (hquote : c ≠ '\'') :
    unit c ∉ units cs := notMem_units fun d hd heq => by
  have hdc : d = c := unit_inj (toNat_unit_of_ascii (h.isAscii d hd)).2 (toNat_unit_of_ascii hc).2 heq
  rcases h d hd with hbare | hd | hd
  · rw [hdc, hno] at hbare
    cases hbare
  · exact hspace (hdc.symm.trans hd)
  · exact hquote (hdc.symm.trans hd)

/-- A text without spaces that stands in the joined lines stands in the lines. -/
theorem infix_of_infix_joinLines {needle s : Utf16} (hspace : unit ' ' ∉ needle)
    (h : needle <:+: joinLines s) : needle <:+: s := by
  obtain ⟨x, y, hxy⟩ := h
  obtain ⟨xy, y', hs, hxy', rfl⟩ := List.map_eq_append_iff.1 hxy.symm
  obtain ⟨x', n', rfl, rfl, hn⟩ := List.map_eq_append_iff.1 hxy'
  refine ⟨x', y', ?_⟩
  have hsame : n'.map (fun u => if u = 10 then 32 else u) = n' := by
    refine List.map_congr_left (g := id) (fun u hu => ?_) |>.trans (List.map_id _)
    refine if_neg fun hten => hspace ?_
    rw [← hn]
    exact List.mem_map.2 ⟨u, hu, by rw [hten]; rfl⟩
  rw [hs, ← hn, hsame]

theorem tightEnds_delimiter (command : String) : TightEnds (delimiter world command).toList :=
  tightEnds_bare (isBare_delimiter command)

variable (world) in
theorem unit_notMem_delimiter (command : String) :
    unit ' ' ∉ units (delimiter world command).toList :=
  notMem_units fun c hc => (unit_isBare (isBare_delimiter command c hc)).2.2.1

theorem hereDocDelimiter_hereDocument {command : String} :
    hereDocDelimiter (hereDocument world command) =
      some (unit '\\' :: units (delimiter world command).toList) := by
  have hopen : ∀ s : Utf16, text "<< \\" ++ s = unit '<' :: unit '<' :: unit ' ' :: unit '\\' :: s :=
    fun _ => rfl
  have hword : ((hereDocument world command).drop 3).takeWhile (fun c => !isSpace c) =
      unit '\\' :: units (delimiter world command).toList := by
    rw [hereDocument, hopen]
    refine @takeWhile_append_cons _ _ (unit '\\' :: units _) _ _ (fun u hu => ?_) (by decide)
    rcases List.mem_cons.1 hu with rfl | hu
    · decide
    · obtain ⟨c, hc, rfl⟩ := List.mem_map.1 hu
      rw [(unit_isBare (isBare_delimiter command c hc)).2.2.2]
      rfl
  rw [hereDocument, hopen] at hword ⊢
  rw [hereDocDelimiter, hword]
  rfl

theorem hereDocBetween_hereDocument {command : String}
    (hdelimiter : ¬ (delimiter world command).toList <:+: command.toList) :
    hereDocBetween (units (delimiter world command).toList) (hereDocument world command) =
      some (unit ' ' :: joinLines (encode command.toList) ++ [unit ' ']) := by
  have hascii : ∀ c ∈ (delimiter world command).toList, isAscii c = true := fun c hc =>
    isAscii_of_isBare (isBare_delimiter command c hc)
  have hno : ¬ units (delimiter world command).toList <:+:
      unit ' ' :: joinLines (encode command.toList) := by
    rw [List.infix_cons_iff]
    rintro (hstart | hpart)
    · rcases List.prefix_cons_iff.1 hstart with hnil | ⟨t, hcons, -⟩
      · exact delimiter_ne_nil command (List.map_eq_nil_iff.1 hnil)
      · refine unit_notMem_delimiter world command ?_
        rw [hcons]
        exact List.mem_cons_self
    · exact hdelimiter (infix_of_infix_encode hascii
        (infix_of_infix_joinLines (unit_notMem_delimiter world command) hpart))
  have hsplit : splitAt? (units (delimiter world command).toList)
      (unit ' ' :: joinLines (encode command.toList) ++
        unit ' ' :: units (delimiter world command).toList) =
      some (unit ' ' :: joinLines (encode command.toList) ++ [unit ' '],
        units (delimiter world command).toList) := by
    have hfound := splitAt?_of_not_infix
      (fun hnil => delimiter_ne_nil command (List.map_eq_nil_iff.1 hnil))
      (unit_notMem_delimiter world command) hno []
    rwa [List.append_nil] at hfound
  have hstart : (text "<< \\" ++ units (delimiter world command).toList).isPrefixOf
      (hereDocument world command) = true := by
    rw [List.isPrefixOf_iff_prefix, hereDocument, ← List.append_assoc]
    exact List.prefix_append _ _
  have hdrop : (hereDocument world command).drop
      (text "<< \\" ++ units (delimiter world command).toList).length =
      unit ' ' :: joinLines (encode command.toList) ++
        unit ' ' :: units (delimiter world command).toList := by
    rw [hereDocument, ← List.append_assoc, List.drop_left]
  obtain ⟨u, us, hcons⟩ : ∃ u us, hereDocument world command = u :: us := ⟨_, _, rfl⟩
  rw [hcons, hereDocBetween, ← hcons, if_pos hstart, hdrop, hsplit]

/-- The here-document is the text of the command in one line, between spaces. -/
theorem extractHereDocContent_eq {command printed : String} {commandTimeout : Option Int}
    (h : generateSshCommand config world server command disableMultiplexing commandTimeout =
      .ok printed)
    (hdelimiter : ¬ (delimiter world command).toList <:+: command.toList) :
    extractHereDocContent (commandString printed) =
      unit ' ' :: joinLines (encode command.toList) ++ [unit ' '] := by
  have hd : IsLine (delimiter world command).toList := fun c hc =>
    .inl (isBare_delimiter command c hc)
  have hbefore : ∃ before, unit '<' ∉ before ∧
      commandString printed = before ++ hereDocument world command := by
    refine ⟨units (Word.spaced ' ' '\'' (timeoutWords config commandTimeout)) ++ (text "ssh " ++
      (units (argumentLine config world server disableMultiplexing) ++
        (text " 'bash -se'" ++ [unit ' ']))), ?_, ?_⟩
    · simp only [List.mem_append, not_or]
      exact ⟨notMem_units_of_isLine (isLine_spaced (isWord_timeoutWords _)) rfl rfl (by decide)
        (by decide), by decide, notMem_units_of_isLine isLine_argumentLine rfl rfl (by decide)
        (by decide), by decide, by decide⟩
    · rw [commandString_eq h hdelimiter]
      simp
  obtain ⟨before, hno, heq⟩ := hbefore
  rw [extractHereDocContent, heq, hereDocDelimiter_skip hno, hereDocDelimiter_hereDocument]
  dsimp only
  rw [List.tail_cons, trim_units (tightEnds_delimiter command), units_ne_nil
    (delimiter_ne_nil command), hereDocBetween_skip hno, hereDocBetween_hereDocument hdelimiter]
  rfl

end Command

end SshCommand

end OnePloy
