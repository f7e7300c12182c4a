import OnePloy.SudoReplacing

/-!
# What the rewriting leaves of a line

The three passes in turn: a line that is clean keeps its commands, operators and
arguments apart from `sudo` words and the ownership changes, and a line that is
wrapped in `bash -c` is given back by the quotes as it was.
-/

namespace OnePloy

open Php Shell

/-! ## The third pass -/

/-- What the third pass replaces. -/
def sudoPlaces (complex : Bool) : List SudoPlace :=
  if complex then [.substitution] else [.substitution, .orIf, .andIf, .pipe]

/-- The third pass wraps the line in `bash -c`. -/
def isWrapped (line : String) : Bool := isComplexPipeCommand line && strStartsWith line "sudo "

theorem replaceIf_eq (place : SudoPlace) {search replace : String}
    (hsearch : search.toList = place.text) (hreplace : replace.toList = place.text ++ place.more)
    (line : String) :
    (if strContains line search then strReplace search replace line else line) =
      String.ofList (place.replace line.toList) := by
  split
  · rw [strReplace, hsearch, hreplace]
    rfl
  · next h =>
      rw [strContains_iff, hsearch] at h
      rw [SudoPlace.replace, replaceChars_of_not_infix _ h, String.ofList_toList]

theorem sudoInside_eq {line : String} (h : isWrapped line = false) :
    sudoInside line = String.ofList
      ((sudoPlaces (isComplexPipeCommand line)).foldl (fun cs place => place.replace cs)
        line.toList) := by
  unfold isWrapped at h
  unfold sudoInside
  dsimp only
  rw [h, if_neg Bool.false_ne_true, replaceIf_eq .substitution rfl rfl]
  cases isComplexPipeCommand line with
  | true => rfl
  | false =>
      simp only [Bool.not_false, Bool.true_and]
      rw [replaceIf_eq .pipe rfl rfl, replaceIf_eq .andIf rfl rfl, replaceIf_eq .orIf rfl rfl,
        String.toList_ofList, String.toList_ofList, String.toList_ofList]
      rfl

/-! ## The first pass -/

theorem isPatternSpace_code {c : Char} (h : isPatternSpace c = true) : c.toNat ≤ 32 := by
  simp only [isPatternSpace, Bool.or_eq_true, beq_iff_eq] at h
  rcases h with ((((rfl | rfl) | rfl) | rfl) | rfl) | rfl <;> decide

/-- Spaces in front of a line say nothing. -/
theorem reads_dropSpaces {p : Char → Bool} (hp : ∀ c, p c = true → c.toNat ≤ 32)
    {depth : Nat} {cs : List Char} {marks : List Mark} (h : Reads false false depth cs marks) :
    (∀ c ∈ cs.takeWhile p, isBlank c = true) ∧ Reads false false depth (cs.dropWhile p) marks := by
  induction cs generalizing marks with
  | nil => exact ⟨nofun, h⟩
  | cons c cs ih =>
      by_cases hc : p c = true
      · obtain ⟨hblank, marks', hread, rfl⟩ := h.of_space (hp c hc)
        obtain ⟨hblanks, hrest⟩ := ih hread
        rw [List.takeWhile_cons_of_pos hc, List.dropWhile_cons_of_pos hc]
        refine ⟨fun d hd => ?_, hrest⟩
        rcases List.mem_cons.mp hd with rfl | hd
        · exact hblank
        · exact hblanks d hd
      · rw [List.takeWhile_cons_of_neg hc, List.dropWhile_cons_of_neg hc]
        exact ⟨nofun, h⟩

theorem reads_blanks {depth : Nat} {blanks cs : List Char} {marks : List Mark}
    (hblanks : ∀ c ∈ blanks, isBlank c = true) (h : Reads false false depth cs marks) :
    Reads false false depth (blanks ++ cs) marks := by
  induction blanks with
  | nil => exact h
  | cons c blanks ih =>
      exact .blank (hblanks c (List.mem_cons_self ..))
        (ih fun d hd => hblanks d (List.mem_cons_of_mem _ hd))

theorem isClean_dropWhile {places : List SudoPlace} {p : Char → Bool} (hp : p '\'' = false)
    {cs : List Char} (h : isClean places false cs = true) :
    isClean places false (cs.dropWhile p) = true := by
  induction cs with
  | nil => exact h
  | cons c cs ih =>
      by_cases hc : p c = true
      · rw [List.dropWhile_cons_of_pos hc]
        refine ih (isClean_tail (fun heq => ?_) h)
        rw [heq, hp] at hc
        cases hc
      · rwa [List.dropWhile_cons_of_neg hc]

theorem blank_plain {c : Char} (h : isBlank c = true) : c ≠ '|' ∧ c ≠ '&' ∧ c ≠ '\'' := by
  simp only [isBlank, Bool.or_eq_true, beq_iff_eq] at h
  rcases h with rfl | rfl <;> decide

/-- What a `sudo` behind the reserved word makes of a line. -/
theorem reads_sudoAfterIf {places : List SudoPlace} {line : String} {marks : List Mark}
    (h : Reads false false 0 line.toList marks) (hclean : isClean places false line.toList = true) :
    ∃ out, Reads false false 0 (sudoAfterIf line).toList out ∧ SudoAdded true out marks ∧
      isClean places false (sudoAfterIf line).toList = true := by
  unfold sudoAfterIf
  dsimp only
  split
  · next c cs hdrop =>
      split
      · next hc =>
          obtain ⟨hblanks, hrest⟩ := reads_dropSpaces (fun _ => isPatternSpace_code) h
          have htail := isClean_dropWhile (p := isPatternSpace) (by decide) hclean
          rw [hdrop] at hrest htail
          obtain ⟨marks', hword, rfl⟩ := Reads.of_word ['i', 'f'] (by simp)
            (List.all_eq_true.mp (by decide)) hrest
          obtain ⟨-, marks'', hspace, rfl⟩ := hword.of_space (isPatternSpace_code hc)
          obtain ⟨-, hread⟩ := reads_dropSpaces (fun _ => isPatternSpace_code) hspace
          have hcode : c ≠ '\'' := fun heq => by
            rw [heq] at hc
            exact absurd hc (by decide)
          have htail' := isClean_dropWhile (p := isPatternSpace) (by decide)
            (isClean_tail hcode (isClean_tail (by decide) (isClean_tail (by decide) htail)))
          have htext : (String.ofList (line.toList.takeWhile isPatternSpace ++ "if sudo ".toList ++
              cs.dropWhile isPatternSpace)).toList = line.toList.takeWhile isPatternSpace ++
              (['i', 'f', ' ', 's', 'u', 'd', 'o', ' '] ++ cs.dropWhile isPatternSpace) := by
            rw [String.toList_ofList, List.append_assoc]
            rfl
          rw [htext]
          refine ⟨ifWord ++ (sudoWord ++ marks''), reads_blanks hblanks ?_,
            .reserved (.added (.refl _ _)), isClean_word _ (fun d hd => blank_plain (hblanks d hd))
              (isClean_word _ (by simp) htail')⟩
          exact .word_blank ['i', 'f'] (by simp) (List.all_eq_true.mp (by decide))
            (reads_sudo_blank hread)
      · exact ⟨marks, h, .refl _ _, hclean⟩
  · exact ⟨marks, h, .refl _ _, hclean⟩

theorem reads_sudoInFront {places : List SudoPlace} {line : String} {marks : List Mark}
    (h : Reads false false 0 line.toList marks) (hclean : isClean places false line.toList = true) :
    ∃ out, Reads false false 0 (sudoInFront line).toList out ∧ SudoAdded true out marks ∧
      isClean places false (sudoInFront line).toList = true := by
  rcases sudoInFront_cases line with heq | heq | heq
  · rw [heq]
    exact ⟨marks, h, .refl _ _, hclean⟩
  · rw [heq]
    exact reads_sudoAfterIf h hclean
  · have htext : (sudoInFront line).toList = ['s', 'u', 'd', 'o', ' '] ++ line.toList := by
      rw [heq, String.toList_append]
      rfl
    rw [htext]
    exact ⟨_, reads_sudo_blank h, .added (.refl _ _), isClean_word _ (by simp) hclean⟩

/-! ## The second pass -/

/-- The line with what the second pass appends to it. -/
def ownershipAdded (user : ServerUsername) (line : String) : String :=
  (ownershipCommands user line).foldl (fun text command => text ++ " && sudo " ++ command) line

theorem ownershipCommands_cases (user : ServerUsername) (line : String) :
    ownershipCommands user line = [] ∨
      strStartsWith line "mkdir -p" = true ∧
        let path := trim (strAfter line "mkdir -p")
        (strStartsWith path "/data/coolify" || strStartsWith path "/tmp/coolify") = true ∧
          ownershipCommands user line = [chownCommand user path, chmodCommand path] := by
  unfold ownershipCommands
  rw [startsWith_sudoInFront]
  split
  · next h =>
      rw [strAfter_sudoInFront h]
      dsimp only
      rw [shouldChangeOwnership_eq (trim_trim _)]
      split
      · next hstart => exact .inr ⟨h, hstart, rfl⟩
      · exact .inl rfl
  · exact .inl rfl

theorem changeOwnership_sudoInFront (user : ServerUsername) (line : String) :
    changeOwnership user (sudoInFront line) = sudoInFront (ownershipAdded user line) := by
  rw [changeOwnership_eq, ownershipAdded]
  rcases ownershipCommands_cases user line with hnone | ⟨hmkdir, -, hcommands⟩
  · rw [hnone, List.foldl_nil, List.foldl_nil]
  · rw [hcommands]
    obtain ⟨cs, rfl⟩ := ofList_of_startsWith hmkdir
    simp only [List.foldl_cons, List.foldl_nil]
    generalize chownCommand user _ = chown
    generalize chmodCommand _ = chmod
    have htarget : String.ofList ("mkdir -p".toList ++ cs) ++ " && sudo " ++ chown ++ " && sudo " ++
        chmod = String.ofList ("mkdir -p".toList ++
          (cs ++ (" && sudo " ++ chown ++ " && sudo " ++ chmod).toList)) := by
      simp only [← List.append_assoc, String.ofList_append, String.ofList_toList,
        String.append_assoc]
    rw [htarget, sudoInFront_mkdir, sudoInFront_mkdir, ← htarget]
    simp only [String.append_assoc]

/-! ## Lines with commands behind them -/

theorem quote_mem_of_reads {inWord : Bool} {depth : Nat} {cs : List Char} {marks : List Mark}
    (h : Reads true inWord depth cs marks) : '\'' ∈ cs := by
  generalize hquoted : true = quoted at h
  induction h with
  | closeQuote _ _ => exact List.mem_cons_self ..
  | quoted _ _ ih => exact List.mem_cons_of_mem _ (ih rfl)
  | _ => cases hquoted

theorem clashes_append {place : SudoPlace} {quoted : Bool} {cs : List Char} {c : Char}
    (hc : isBlank c = true) (more : List Char) (hcs : quoted = true → '\'' ∈ cs) (hne : cs ≠ [])
    (h : place.clashes quoted cs = false) : place.clashes quoted (cs ++ c :: more) = false := by
  cases quoted with
  | true =>
      -- a text in quotes ends before the line does
      rw [SudoPlace.clashes, if_pos rfl] at h ⊢
      refine eq_false_of_ne_true fun hfront => ?_
      have hlong := List.isPrefixOf_iff_prefix.mp hfront
      rcases List.prefix_or_prefix_of_prefix hlong (List.prefix_append cs (c :: more)) with
        hshort | hshort
      · rw [List.isPrefixOf_iff_prefix.mpr hshort] at h
        cases h
      · exact place.quote_notMem_text (hshort.subset (hcs rfl))
  | false =>
      obtain ⟨d, ds, rfl⟩ := List.exists_cons_of_ne_nil hne
      have hends : endsWord c = true := by rw [endsWord, hc]; rfl
      have hbar : c ≠ '|' ∧ c ≠ '&' := ⟨(blank_plain hc).1, (blank_plain hc).2.1⟩
      cases ds with
      | nil =>
          cases place <;>
            simp [SudoPlace.clashes, SudoPlace.glued, SudoPlace.text, hbar.1.symm, hbar.2.symm]
      | cons e ds =>
          cases ds with
          | nil => cases place <;> simp [SudoPlace.clashes, SudoPlace.glued, hends]
          | cons f ds =>
              have hsame : place.clashes false (d :: e :: f :: ds ++ c :: more) =
                  place.clashes false (d :: e :: f :: ds) := clashes_congr rfl
              exact hsame.trans h

theorem isClean_append {places : List SudoPlace} {quoted inWord : Bool} {depth : Nat}
    {cs : List Char} {marks : List Mark} (h : Reads quoted inWord depth cs marks)
    (hclean : isClean places quoted cs = true) {c : Char} (hc : isBlank c = true)
    {more : List Char} (hmore : isClean places false more = true) :
    isClean places quoted (cs ++ c :: more) = true := by
  have hblank : isClean places false (c :: more) = true :=
    isClean_word [c] (fun d hd => by
      rw [List.mem_singleton.mp hd]
      exact blank_plain hc) hmore
  have hstep : ∀ {quoted : Bool} {d : Char} {ds : List Char}, d ≠ '\'' →
      isClean places quoted (d :: ds) = true → (quoted = true → '\'' ∈ ds) →
      isClean places quoted (ds ++ c :: more) = true →
        isClean places quoted (d :: ds ++ c :: more) = true := by
    intro quoted d ds hd hclean hquote hrest
    refine (isClean_cons_iff hd).mpr ⟨fun place hplace => ?_, hrest⟩
    exact clashes_append hc more (fun hq => List.mem_cons_of_mem _ (hquote hq)) (by simp)
      (((isClean_cons_iff hd).mp hclean).1 place hplace)
  have hbare : ∀ {d : Char} {ds : List Char}, d ≠ '\'' →
      isClean places false (d :: ds) = true → isClean places false (ds ++ c :: more) = true →
        isClean places false (d :: ds ++ c :: more) = true := fun hd hclean hrest =>
    hstep hd hclean (fun hq => absurd hq Bool.false_ne_true) hrest
  induction h with
  | nil inWord => exact hblank
  | openQuote _ ih => exact ih hclean
  | closeQuote _ ih => exact ih hclean
  | quoted hd hread ih =>
      exact hstep hd hclean (fun _ => quote_mem_of_reads hread) (ih (isClean_tail hd hclean))
  | blank hd _ ih =>
      have hquote := ne_quote_of_isBlank hd
      exact hbare hquote hclean (ih (isClean_tail hquote hclean))
  | char hd _ ih =>
      have hquote := (isWordChar_ne hd).1
      exact hbare hquote hclean (ih (isClean_tail hquote hclean))
  | dollar _ _ ih =>
      exact hbare (by decide) hclean (ih (isClean_tail (by decide) hclean))
  | pipe _ _ ih =>
      exact hbare (by decide) hclean (ih (isClean_tail (by decide) hclean))
  | closes _ ih =>
      exact hbare (by decide) hclean (ih (isClean_tail (by decide) hclean))
  | andIf _ ih =>
      have htail := isClean_tail (by decide) hclean
      exact hbare (by decide) hclean
        (hbare (by decide) htail (ih (isClean_tail (by decide) htail)))
  | orIf _ ih =>
      have htail := isClean_tail (by decide) hclean
      exact hbare (by decide) hclean
        (hbare (by decide) htail (ih (isClean_tail (by decide) htail)))
  | opens _ ih =>
      have htail := isClean_tail (by decide) hclean
      exact hbare (by decide) hclean
        (hbare (by decide) htail (ih (isClean_tail (by decide) htail)))

/-- A text that can be read and is clean for the replacements. -/
def IsReadable (places : List SudoPlace) (text : String) : Prop :=
  (∃ marks, Reads false false 0 text.toList marks) ∧ isClean places false text.toList = true

theorem IsReadable.and_sudo {places : List SudoPlace} {text command : String}
    (htext : IsReadable places text) (hcommand : IsReadable places command) :
    IsReadable places (text ++ " && sudo " ++ command) := by
  obtain ⟨⟨marks, hread⟩, hclean⟩ := htext
  obtain ⟨⟨marks', hread'⟩, hclean'⟩ := hcommand
  have hlist : (text ++ " && sudo " ++ command).toList = text.toList ++
      ' ' :: ('&' :: '&' :: ' ' :: (['s', 'u', 'd', 'o', ' '] ++ command.toList)) := by
    simp [String.toList_append]
  rw [IsReadable, hlist]
  exact ⟨⟨_, hread.append rfl (.andIf (.blank rfl (reads_sudo_blank hread')))⟩,
    isClean_append hread hclean rfl
      (isClean_operator (.inr rfl) (isClean_word [' ', 's', 'u', 'd', 'o', ' ']
        (by simp) hclean')).2⟩

theorem isTrimmed_code {c : Char} (h : isTrimmed c = true) : c.toNat ≤ 32 := by
  simp only [isTrimmed, Bool.or_eq_true, beq_iff_eq] at h
  rcases h with ((((rfl | rfl) | rfl) | rfl) | rfl) | rfl <;> decide

/-- What is trimmed at the end, and the text before it. -/
theorem exists_dropEnd (p : Char → Bool) (cs : List Char) :
    ∃ spaces, cs = (cs.reverse.dropWhile p).reverse ++ spaces ∧ ∀ c ∈ spaces, p c = true := by
  refine ⟨(cs.reverse.takeWhile p).reverse, ?_, fun c hc => ?_⟩
  · rw [← List.reverse_append, List.takeWhile_append_dropWhile, List.reverse_reverse]
  · exact List.all_eq_true.mp List.all_takeWhile c (List.mem_reverse.mp hc)

theorem clashes_of_append {place : SudoPlace} {quoted : Bool} {cs more : List Char}
    (h : place.clashes quoted (cs ++ more) = false) : place.clashes quoted cs = false := by
  refine eq_false_of_ne_true fun hclash => ?_
  cases quoted with
  | true =>
      rw [SudoPlace.clashes, if_pos rfl, List.isPrefixOf_iff_prefix] at hclash
      rw [SudoPlace.clashes, if_pos rfl, List.isPrefixOf_iff_prefix.mpr
        (hclash.trans (List.prefix_append cs more))] at h
      cases h
  | false =>
      have hlong : 3 ≤ cs.length := by
        by_contra hshort
        have hnone : cs[2]? = none := List.getElem?_eq_none (by omega)
        simp [SudoPlace.clashes, SudoPlace.glued, hnone] at hclash
      have hsame : place.clashes false (cs ++ more) = place.clashes false cs :=
        clashes_congr (List.take_append_of_le_length hlong)
      rw [hsame, hclash] at h
      cases h

theorem isClean_of_append_right {places : List SudoPlace} {quoted : Bool} {cs spaces : List Char}
    (h : isClean places quoted (cs ++ spaces) = true) : isClean places quoted cs = true := by
  induction cs generalizing quoted with
  | nil => rfl
  | cons c cs ih =>
      by_cases hc : c = '\''
      · subst hc
        have htail : isClean places (!quoted) (cs ++ spaces) = true := h
        exact ih htail
      · obtain ⟨hlocal, htail⟩ := (isClean_cons_iff hc).mp h
        refine (isClean_cons_iff hc).mpr ⟨fun place hplace => ?_, ih htail⟩
        have hlong : place.clashes quoted ((c :: cs) ++ spaces) = false := hlocal place hplace
        exact clashes_of_append hlong

/-- The path of a line that makes directories can be read as well. -/
theorem IsReadable.path {places : List SudoPlace} {line : String} (h : IsReadable places line)
    (hmkdir : strStartsWith line "mkdir -p" = true)
    (hpath : (strStartsWith (trim (strAfter line "mkdir -p")) "/data/coolify" ||
      strStartsWith (trim (strAfter line "mkdir -p")) "/tmp/coolify") = true) :
    IsReadable places (trim (strAfter line "mkdir -p")) := by
  obtain ⟨cs, rfl⟩ := ofList_of_startsWith hmkdir
  rw [strAfter_append (by decide)] at hpath ⊢
  obtain ⟨⟨marks, hread⟩, hclean⟩ := h
  rw [String.toList_ofList] at hread hclean
  have hlist : "mkdir -p".toList ++ cs =
      ['m', 'k', 'd', 'i', 'r'] ++ (' ' :: (['-', 'p'] ++ cs)) := rfl
  rw [hlist] at hread hclean
  have hrest : isClean places false cs = true :=
    isClean_of_append ['m', 'k', 'd', 'i', 'r', ' ', '-', 'p'] (by decide) hclean
  obtain ⟨marks', hblank, -⟩ := Reads.of_word _ (by simp) (List.all_eq_true.mp (by decide)) hread
  obtain ⟨-, _, hoption, -⟩ := hblank.of_space (by decide)
  obtain ⟨marks'', hcs, -⟩ := Reads.of_word _ (by simp) (List.all_eq_true.mp (by decide)) hoption
  have hfront : ∃ inWord marks, Reads false inWord 0 (cs.dropWhile isTrimmed) marks := by
    cases cs with
    | nil => exact ⟨_, _, hcs⟩
    | cons c cs =>
        by_cases hc : isTrimmed c = true
        · obtain ⟨-, m, htail, -⟩ := hcs.of_space (isTrimmed_code hc)
          rw [List.dropWhile_cons_of_pos hc]
          exact ⟨_, _, (reads_dropSpaces (fun _ => isTrimmed_code) htail).2⟩
        · rw [List.dropWhile_cons_of_neg hc]
          exact ⟨_, _, hcs⟩
  obtain ⟨inWord, m, hfront⟩ := hfront
  obtain ⟨spaces, hspaces, hall⟩ := exists_dropEnd isTrimmed (cs.dropWhile isTrimmed)
  have hclean' := isClean_dropWhile (p := isTrimmed) (by decide) hrest
  have htrim : (trim (String.ofList cs)).toList =
      ((cs.dropWhile isTrimmed).reverse.dropWhile isTrimmed).reverse := by
    rw [trim, String.toList_ofList, String.toList_ofList]
  rw [← htrim] at hspaces
  rw [hspaces] at hfront hclean'
  have hpathread := Reads.of_append_spaces (fun c hc => isTrimmed_code (hall c hc)) hfront
  refine ⟨?_, isClean_of_append_right hclean'⟩
  -- the path begins with a slash, which is read in a word and in front of one
  obtain ⟨rest, hslash⟩ : ∃ rest, (trim (String.ofList cs)).toList = '/' :: rest := by
    rcases Bool.or_eq_true_iff.mp hpath with hdata | htmp
    · obtain ⟨rest, hrest⟩ := strStartsWith_iff.mp hdata
      exact ⟨_, hrest.symm⟩
    · obtain ⟨rest, hrest⟩ := strStartsWith_iff.mp htmp
      exact ⟨_, hrest.symm⟩
  rw [hslash] at hpathread ⊢
  obtain ⟨m', htail, -⟩ := Reads.of_char (by decide) hpathread
  exact ⟨_, .char (by decide) htail⟩

theorem isWordChar_of_isServerUsername {c : Char}
    (h : (c.isAlphanum || c == '.' || c == '_' || c == '-') = true) :
    isWordChar false c = true := by
  have hcode : 31 < c.toNat := by
    unfold Char.isAlphanum Char.isAlpha Char.isUpper Char.isLower at h
    simp only [Char.isDigit, Bool.or_eq_true, Bool.and_eq_true, decide_eq_true_eq, beq_iff_eq, UInt32.le_iff_toNat_le,
      ge_iff_le] at h
    rcases h with ((((h | h) | h) | rfl) | rfl) | rfl
    · exact lt_of_lt_of_le (by decide) h.1
    · exact lt_of_lt_of_le (by decide) h.1
    · exact lt_of_lt_of_le (by decide) h.1
    all_goals decide
  rw [isWordChar, isPlain_of_isServerUsername h, decide_eq_true hcode]
  rfl

theorem IsReadable.word {places : List SudoPlace} {text : String} (word : List Char)
    (hne : word ≠ []) (hword : ∀ c ∈ word, isWordChar false c = true)
    (h : IsReadable places text) :
    IsReadable places (String.ofList (word ++ ' ' :: text.toList)) := by
  obtain ⟨⟨marks, hread⟩, hclean⟩ := h
  rw [IsReadable, String.toList_ofList]
  refine ⟨⟨_, .word_blank word hne hword hread⟩, isClean_word _ (fun c hc => ?_)
    (isClean_word [' '] (by simp) hclean)⟩
  obtain ⟨hquote, -, hand, hbar, -, -⟩ := isWordChar_ne (hword c hc)
  exact ⟨hbar, hand, hquote⟩

theorem IsReadable.chown {places : List SudoPlace} (user : ServerUsername) {path : String}
    (h : IsReadable places path) : IsReadable places (chownCommand user path) := by
  have huser := user.2
  rw [isServerUsername, Bool.and_eq_true, List.all_eq_true] at huser
  have howner : ∀ c ∈ user.val.toList ++ ':' :: user.val.toList, isWordChar false c = true := by
    intro c hc
    rcases List.mem_append.mp hc with hc | hc
    · exact isWordChar_of_isServerUsername (huser.2 c hc)
    · rcases List.mem_cons.mp hc with rfl | hc
      · decide
      · exact isWordChar_of_isServerUsername (huser.2 c hc)
  have hread := ((h.word _ (by simp) howner).word "-R".toList (by decide)
    (List.all_eq_true.mp rfl)).word "chown".toList (by decide) (List.all_eq_true.mp rfl)
  simp only [String.toList_ofList] at hread
  have htext : (chownCommand user path).toList = "chown".toList ++ ' ' :: ("-R".toList ++
      ' ' :: ((user.val.toList ++ ':' :: user.val.toList) ++ ' ' :: path.toList)) := by
    simp [chownCommand, String.toList_append]
  rwa [← htext, String.ofList_toList] at hread

theorem IsReadable.chmod {places : List SudoPlace} {path : String}
    (h : IsReadable places path) : IsReadable places (chmodCommand path) := by
  have hread := ((h.word "o-rwx".toList (by decide) (List.all_eq_true.mp rfl)).word
    "-R".toList (by decide) (List.all_eq_true.mp rfl)).word
    "chmod".toList (by decide) (List.all_eq_true.mp rfl)
  simp only [String.toList_ofList] at hread
  have htext : (chmodCommand path).toList = "chmod".toList ++ ' ' :: ("-R".toList ++
      ' ' :: ("o-rwx".toList ++ ' ' :: path.toList)) := by
    simp [chmodCommand, String.toList_append]
  rwa [← htext, String.ofList_toList] at hread

/-- The line with its ownership changes can be read if the line can. -/
theorem IsReadable.ownershipAdded {places : List SudoPlace} (user : ServerUsername)
    {line : String} (h : IsReadable places line) :
    IsReadable places (ownershipAdded user line) := by
  rw [OnePloy.ownershipAdded]
  rcases ownershipCommands_cases user line with hnone | ⟨hmkdir, hpath, hcommands⟩
  · rwa [hnone]
  · have hread := h.path hmkdir hpath
    rw [hcommands, List.foldl_cons, List.foldl_cons, List.foldl_nil]
    exact (h.and_sudo (hread.chown user)).and_sudo hread.chmod

/-! ## Lines that are wrapped -/

theorem escapedCommand_eq (command : String) :
    (escapedCommand command).toList = escapeQuotes command.toList := by
  rw [escapedCommand, strReplace, String.toList_ofList]
  generalize command.toList = cs
  have hsearch : "'".toList = ['\''] := rfl
  rw [hsearch]
  induction cs with
  | nil => rfl
  | cons c cs ih =>
      rw [escapeQuotes, List.flatMap_cons, ← escapeQuotes, ← ih]
      by_cases hc : c = '\''
      · subst hc
        exact replaceChars_hit (show ['\''] ≠ [] by simp) _ cs
      · rw [if_neg hc, replaceChars_miss _ (by simpa using Ne.symm hc)]
        rfl

theorem sudoInFront_of_sudo {line : String}
    (h : strStartsWith (sudoInFront line) "sudo " = true) :
    sudoInFront line = "sudo " ++ line := by
  have hfront : ∀ text, strStartsWith text "sudo " = true → sudoInFront text = "sudo " ++ text := by
    intro text htext
    obtain ⟨cs, rfl⟩ := ofList_of_startsWith htext
    have hlist : "sudo ".toList ++ cs = ['s', 'u', 'd', 'o'] ++ (' ' :: cs) := rfl
    rw [hlist]
    exact sudoInFront_of_prefix _ (a := 's') (b := 'u') ['d', 'o'] 'o' rfl (by decide) (by decide)
      (by decide) (by decide) (by decide +kernel)
  rcases sudoInFront_cases line with heq | heq | heq
  · rw [heq] at h
    exact hfront line h
  · rcases sudoAfterIf_cases line with hsame | ⟨c, hc, hkind⟩
    · rw [heq, hsame] at h
      exact hfront line h
    · rw [heq] at h
      obtain ⟨cs, hcs⟩ := strStartsWith_iff.mp h
      rw [← hcs] at hc
      obtain rfl : 's' = c := by simpa using hc
      exact absurd hkind (by decide)
  · exact heq

theorem sudoInside_wrapped {line : String} (h : isWrapped (sudoInFront line) = true) :
    sudoInside (sudoInFront line) =
      "sudo bash -c '" ++ escapedCommand line ++ "'" := by
  have hsudo : strStartsWith (sudoInFront line) "sudo " = true := by
    rw [isWrapped, Bool.and_eq_true] at h
    exact h.2
  have hafter : strAfter ("sudo " ++ line) "sudo " = line := by
    have happend := strAfter_append (show "sudo ".toList ≠ [] by decide) line.toList
    rwa [String.ofList_append, String.ofList_toList, String.ofList_toList] at happend
  unfold isWrapped at h
  unfold sudoInside
  dsimp only
  rw [if_pos h, sudoInFront_of_sudo hsudo, hafter]

/-- The shell gets the line back as the one argument of `bash -c`. -/
theorem arguments_wrapped (line : String) :
    Shell.arguments ("sudo bash -c '" ++ escapedCommand line ++ "'").toList =
      ["sudo".toList, "bash".toList, "-c".toList, quoteWord line.toList] := by
  have htext : ("sudo bash -c '" ++ escapedCommand line ++ "'").toList = "sudo".toList ++ ' ' ::
      ("bash".toList ++ ' ' :: ("-c".toList ++ ' ' :: quoteWord line.toList)) := by
    simp [String.toList_append, escapedCommand_eq, quoteWord]
  rw [htext, Shell.arguments_cons (by decide) (List.all_eq_true.mp rfl),
    Shell.arguments_cons (by decide) (List.all_eq_true.mp rfl),
    Shell.arguments_cons (by decide) (List.all_eq_true.mp rfl),
    Shell.arguments, tokens_quoteWord]
  rfl

/-- A line of words, quoted strings and operators keeps its reading apart from `sudo` words
and the ownership changes; a line that is wrapped keeps its text. -/
theorem rewriting_keeps_line (user : ServerUsername) (line : String) :
    ∃ rewritten, parseCommandsByLineForSudo [line] user = [rewritten] ∧
      (isWrapped (sudoInFront (ownershipAdded user line)) = true →
        ∃ argument, Shell.arguments rewritten.toList =
            ["sudo".toList, "bash".toList, "-c".toList, argument] ∧
          unquote false argument = some (ownershipAdded user line).toList) ∧
      (isWrapped (sudoInFront (ownershipAdded user line)) = false →
        ∀ marks, readLine line.toList = some marks →
          isClean (sudoPlaces (isComplexPipeCommand (sudoInFront (ownershipAdded user line)))) false
            line.toList = true →
          ∃ target out, readLine (ownershipAdded user line).toList = some target ∧
            readLine rewritten.toList = some out ∧ SudoAdded true out target) := by
  refine ⟨sudoInside (sudoInFront (ownershipAdded user line)), ?_, fun hwrapped => ?_,
    fun hwrapped marks hmarks hclean => ?_⟩
  · rw [parseCommandsByLineForSudo, List.map_singleton, List.map_singleton, List.map_singleton,
      changeOwnership_sudoInFront]
  · rw [sudoInside_wrapped hwrapped]
    exact ⟨_, arguments_wrapped _, unquote_quoteWord _⟩
  · have hreadable := IsReadable.ownershipAdded user
      ⟨⟨marks, readLine_eq_some_iff.mp hmarks⟩, hclean⟩
    obtain ⟨⟨target, htarget⟩, hclean'⟩ := hreadable
    obtain ⟨between, hbetween, hadded, hclean''⟩ := reads_sudoInFront htarget hclean'
    obtain ⟨out, hout, hrest⟩ := reads_replaceAll _ (fun _ h => h) hbetween hclean''
    refine ⟨target, out, readLine_eq_some_iff.mpr htarget, readLine_eq_some_iff.mpr ?_,
      hrest.trans hadded⟩
    rwa [sudoInside_eq hwrapped, String.toList_ofList]

theorem rewriting_keeps_docker :
    ∃ rewritten target out,
      parseCommandsByLineForSudo ["docker ps && echo 'a b'"] ⟨"ubuntu", by decide +kernel⟩ =
        [rewritten] ∧
      readLine "docker ps && echo 'a b'".toList = some target ∧
        readLine rewritten.toList = some out ∧ SudoAdded true out target := by
  obtain ⟨rewritten, hparse, -, hread⟩ :=
    rewriting_keeps_line ⟨"ubuntu", by decide +kernel⟩ "docker ps && echo 'a b'"
  have htarget : ownershipAdded ⟨"ubuntu", by decide +kernel⟩ "docker ps && echo 'a b'" =
      "docker ps && echo 'a b'" := by decide +kernel
  rw [htarget] at hread
  obtain ⟨marks, hmarks⟩ := Option.isSome_iff_exists.mp
    (show (readLine "docker ps && echo 'a b'".toList).isSome = true by decide +kernel)
  obtain ⟨target, out, htarget, hout, hadded⟩ := hread (by decide +kernel) marks hmarks
    (by decide +kernel)
  exact ⟨rewritten, target, out, hparse, htarget, hout, hadded⟩

/-- A directory of the platform is handed over to the user by two further commands. -/
theorem rewriting_adds_commands :
    ¬ ∀ (user : ServerUsername) (line : String) (marks : List Mark),
      readLine line.toList = some marks →
        ∃ rewritten, parseCommandsByLineForSudo [line] user = [rewritten] ∧
          ((∃ argument, Shell.arguments rewritten.toList =
              ["sudo".toList, "bash".toList, "-c".toList, argument] ∧
            unquote false argument = some line.toList) ∨
          ∃ out, readLine rewritten.toList = some out ∧ SudoAdded true out marks) := by
  intro h
  let user : ServerUsername := ⟨"ubuntu", by decide +kernel⟩
  let text := "sudo mkdir -p /data/coolify/logs && sudo sudo chown -R ubuntu:ubuntu " ++
    "/data/coolify/logs && sudo sudo chmod -R o-rwx /data/coolify/logs"
  have hline : parseCommandsByLineForSudo ["mkdir -p /data/coolify/logs"] user = [text] := by
    decide +kernel
  obtain ⟨marks, hmarks⟩ := Option.isSome_iff_exists.mp
    (show (readLine "mkdir -p /data/coolify/logs".toList).isSome = true by decide +kernel)
  obtain ⟨rewritten, hrewritten, hkept⟩ := h user _ marks hmarks
  rw [hline] at hrewritten
  obtain rfl := (List.cons.inj hrewritten).1
  rcases hkept with ⟨argument, harguments, -⟩ | ⟨out, hout, hadded⟩
  · have hread : (Shell.arguments text.toList).take 2 = ["sudo".toList, "mkdir".toList] := by
      decide +kernel
    rw [harguments] at hread
    exact absurd (List.cons.inj (List.cons.inj hread).2).1 (by decide +kernel)
  · have hcount := hadded.count_eq (show Mark.andIf.opensCommand = true from rfl)
    have hnone : (readLine "mkdir -p /data/coolify/logs".toList).map (List.count .andIf) =
        some 0 := by decide +kernel
    have htwo : (readLine text.toList).map (List.count .andIf) = some 2 := by decide +kernel
    rw [hmarks, Option.map_some, ← hcount] at hnone
    rw [hout, Option.map_some, Option.some.inj hnone] at htwo
    cases htwo

end OnePloy
