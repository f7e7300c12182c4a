import OnePloy.SudoLines
import OnePloy.Lib.ShellWords

/-!
# What the ownership changes apply to

The second pass appends `chown -R` and `chmod -R` with the whole text behind
`mkdir -p`, so they apply to whatever that `mkdir` makes. `shouldChangeOwnership`
looks at the beginning of the text only.
-/

namespace OnePloy

open Php PathWalk

/-! ## The commands -/

/-- The commands that the second pass appends to a line. -/
def ownershipCommands (user : ServerUsername) (line : String) : List String :=
  if strStartsWith (sudoInFront line) "sudo mkdir -p" then
    let path := trim (strAfter (sudoInFront line) "sudo mkdir -p")
    if shouldChangeOwnership path then [chownCommand user path, chmodCommand path] else []
  else []

theorem changeOwnership_eq (user : ServerUsername) (line : String) :
    changeOwnership user (sudoInFront line) =
      (ownershipCommands user line).foldl (fun text command => text ++ " && sudo " ++ command)
        (sudoInFront line) := by
  unfold changeOwnership ownershipCommands
  split
  · dsimp only
    split
    · rw [List.foldl_cons, List.foldl_cons, List.foldl_nil]
    · rw [List.foldl_nil]
  · rw [List.foldl_nil]

theorem parseCommandsByLineForSudo_eq (commands : List String) (user : ServerUsername) :
    parseCommandsByLineForSudo commands user =
      commands.map fun line =>
        sudoInside ((ownershipCommands user line).foldl
          (fun text command => text ++ " && sudo " ++ command) (sudoInFront line)) := by
  rw [parseCommandsByLineForSudo, List.map_map, List.map_map]
  refine List.map_congr_left fun line _ => ?_
  rw [Function.comp_apply, Function.comp_apply, changeOwnership_eq]

/-! ## In the line -/

def andSudo : List Shell.Token := [.operator '&', .operator '&', .word "sudo".toList]

theorem tokens_andSudo {text : String} (h : (Shell.scan text.toList).Settled) (command : String)
    (hcommand : (Shell.scan command.toList).Settled) :
    Shell.tokens (text ++ " && sudo " ++ command).toList =
        Shell.tokens text.toList ++ andSudo ++ Shell.tokens command.toList ∧
      (Shell.scan (text ++ " && sudo " ++ command).toList).Settled := by
  have htext : (text ++ " && sudo " ++ command).toList =
      text.toList ++ ' ' :: ("&& sudo".toList ++ ' ' :: command.toList) := by
    simp [String.toList_append]
  have hand : (Shell.scan "&& sudo".toList).Settled :=
    ⟨by decide +kernel, by decide +kernel, by decide +kernel, by decide +kernel⟩
  have hread : Shell.tokens "&& sudo".toList = andSudo := rfl
  rw [htext, Shell.tokens_append h rfl, Shell.tokens_append hand rfl, hread, List.append_assoc]
  exact ⟨rfl, Shell.settled_append h rfl (Shell.settled_append hand rfl hcommand)⟩

/-- Behind a complete line, complete commands are read as they stand. -/
theorem tokens_changeOwnership {user : ServerUsername} {line : String}
    (h : (Shell.scan (sudoInFront line).toList).Settled)
    (hcommands : ∀ command ∈ ownershipCommands user line, (Shell.scan command.toList).Settled) :
    Shell.tokens (changeOwnership user (sudoInFront line)).toList =
      Shell.tokens (sudoInFront line).toList ++
        (ownershipCommands user line).flatMap fun command =>
          andSudo ++ Shell.tokens command.toList := by
  rw [changeOwnership_eq]
  generalize sudoInFront line = text at h
  generalize ownershipCommands user line = commands at hcommands
  induction commands generalizing text with
  | nil => simp
  | cons command commands ih =>
      obtain ⟨hread, hsettled⟩ :=
        tokens_andSudo h command (hcommands command (List.mem_cons_self ..))
      rw [List.foldl_cons, ih _ hsettled fun c hc => hcommands c (List.mem_cons_of_mem _ hc),
        hread, List.flatMap_cons, List.append_assoc, List.append_assoc, List.append_assoc]

/-! ## Lines that make directories -/

/-- A text is led by no keyword whose first letters it does not have. -/
theorem find?_keyword_eq_none {trimmedLine : String} {a b : Char} {rest : List Char}
    (h : trimmedLine.toList = a :: b :: rest)
    (hnot : [a, b] ∉ bashKeywords.map fun keyword => keyword.toList.take 2) :
    (bashKeywords.find? fun keyword => isLedBy keyword trimmedLine) = none := by
  refine List.find?_eq_none.mpr fun keyword hkeyword hled => hnot ?_
  have hfront : keyword.toList <+: trimmedLine.toList := by
    rw [isLedBy, Bool.and_eq_true] at hled
    exact strStartsWith_iff.mp hled.1
  have hlong : ∀ k ∈ bashKeywords, 2 ≤ k.toList.length := by decide +kernel
  obtain ⟨more, hmore⟩ := hfront
  refine List.mem_map.mpr ⟨keyword, hkeyword, ?_⟩
  have htake := congrArg (List.take 2) (hmore.trans h)
  rwa [List.take_append_of_le_length (hlong keyword hkeyword)] at htake

theorem sudoInFront_of_prefix {front : List Char} (cs : List Char) {a b : Char}
    (rest : List Char) (last : Char) (hfront : front = a :: b :: rest)
    (hlast : front.getLast? = some last) (ha : isTrimmed a = false)
    (hlast' : isTrimmed last = false) (hhash : a ≠ '#')
    (hnot : [a, b] ∉ bashKeywords.map fun keyword => keyword.toList.take 2) :
    sudoInFront (String.ofList (front ++ cs)) = "sudo " ++ String.ofList (front ++ cs) := by
  obtain ⟨more, htrim⟩ := trim_prefix cs (by rw [hfront]; rfl) hlast ha hlast'
  rw [hfront, List.cons_append, List.cons_append] at htrim
  have hcomment : strStartsWith (trim (String.ofList (front ++ cs))) "#" = false := by
    rw [hfront, strStartsWith, List.cons_append, List.cons_append, htrim]
    simp [hhash.symm, List.isPrefixOf]
  unfold sudoInFront
  dsimp only
  rw [hcomment, if_neg Bool.false_ne_true,
    find?_keyword_eq_none (by rw [hfront]; exact htrim) hnot]

theorem strAfter_append {search : String} (hne : search.toList ≠ []) (cs : List Char) :
    strAfter (String.ofList (search.toList ++ cs)) search = String.ofList cs := by
  have hcut : cut search.toList (search.toList ++ cs) = some ([], cs) := by
    obtain ⟨c, rest, heq⟩ := List.exists_cons_of_ne_nil hne
    rw [heq, List.cons_append, cut, if_pos, ← List.cons_append, List.drop_left]
    rw [← List.cons_append]
    exact List.isPrefixOf_iff_prefix.mpr (List.prefix_append ..)
  rw [strAfter, String.toList_ofList, hcut]

theorem sudoInFront_mkdir (cs : List Char) :
    sudoInFront (String.ofList ("mkdir -p".toList ++ cs)) =
      "sudo " ++ String.ofList ("mkdir -p".toList ++ cs) :=
  sudoInFront_of_prefix cs (a := 'm') (b := 'k') "dir -p".toList 'p' rfl rfl
    (by decide) (by decide) (by decide) (by decide +kernel)

theorem sudo_append (cs : List Char) :
    "sudo " ++ String.ofList ("mkdir -p".toList ++ cs) =
      String.ofList ("sudo mkdir -p".toList ++ cs) := by
  have hfront : "sudo mkdir -p".toList = "sudo ".toList ++ "mkdir -p".toList := rfl
  rw [hfront, List.append_assoc]
  simp only [String.ofList_append, String.ofList_toList]

theorem sudoInFront_sudo (cs : List Char) :
    sudoInFront (String.ofList ("sudo mkdir -p".toList ++ cs)) =
      "sudo " ++ String.ofList ("sudo mkdir -p".toList ++ cs) :=
  sudoInFront_of_prefix cs (a := 's') (b := 'u') "do mkdir -p".toList 'p' rfl rfl
    (by decide) (by decide) (by decide) (by decide +kernel)

theorem sudoAfterIf_cases (line : String) :
    sudoAfterIf line = line ∨
      ∃ c, (sudoAfterIf line).toList.head? = some c ∧ (isPatternSpace c = true ∨ c = 'i') := by
  unfold sudoAfterIf
  dsimp only
  split
  · next c cs hdrop =>
      split
      · refine .inr ?_
        rw [String.toList_ofList]
        cases htake : line.toList.takeWhile isPatternSpace with
        | nil => exact ⟨'i', by simp, .inr rfl⟩
        | cons d ds =>
            have hall := List.all_eq_true.mp (List.all_takeWhile (p := isPatternSpace)
              (l := line.toList))
            rw [htake] at hall
            exact ⟨d, rfl, .inl (hall d (List.mem_cons_self ..))⟩
      · exact .inl rfl
  · exact .inl rfl

theorem sudoInFront_cases (line : String) :
    sudoInFront line = line ∨ sudoInFront line = sudoAfterIf line ∨
      sudoInFront line = "sudo " ++ line := by
  unfold sudoInFront
  dsimp only
  split
  · exact .inl rfl
  · split
    · split
      · exact .inr (.inl rfl)
      · exact .inl rfl
    · exact .inr (.inr rfl)

theorem ofList_of_startsWith {line front : String} (h : strStartsWith line front = true) :
    ∃ cs, line = String.ofList (front.toList ++ cs) := by
  obtain ⟨cs, hcs⟩ := strStartsWith_iff.mp h
  exact ⟨cs, by rw [hcs, String.ofList_toList]⟩

/-- The second pass sees the lines that begin with `mkdir -p`. -/
theorem startsWith_sudoInFront (line : String) :
    strStartsWith (sudoInFront line) "sudo mkdir -p" = strStartsWith line "mkdir -p" := by
  rw [Bool.eq_iff_iff]
  constructor
  · intro h
    have hline : sudoInFront line ≠ line := fun heq => by
      rw [heq] at h
      obtain ⟨cs, rfl⟩ := ofList_of_startsWith h
      rw [sudoInFront_sudo] at heq
      have hlen := congrArg (fun s => s.toList.length) heq
      simp only [String.toList_append, List.length_append] at hlen
      exact absurd hlen (by have : 0 < "sudo ".toList.length := by decide
                            omega)
    rcases sudoInFront_cases line with heq | heq | heq
    · exact absurd heq hline
    · rcases sudoAfterIf_cases line with hsame | ⟨c, hc, hkind⟩
      · exact absurd (heq.trans hsame) hline
      · rw [heq] at h
        obtain ⟨cs, hcs⟩ := strStartsWith_iff.mp h
        rw [← hcs] at hc
        obtain rfl : 's' = c := by simpa using hc
        rcases hkind with hspace | hi
        · exact absurd hspace (by decide)
        · exact absurd hi (by decide)
    · rw [heq] at h
      obtain ⟨cs, hcs⟩ := strStartsWith_iff.mp h
      refine strStartsWith_iff.mpr ⟨cs, ?_⟩
      rw [String.toList_append] at hcs
      exact (List.append_right_inj "sudo ".toList).mp hcs
  · intro h
    obtain ⟨cs, rfl⟩ := ofList_of_startsWith h
    rw [sudoInFront_mkdir, sudo_append]
    exact strStartsWith_iff.mpr ⟨cs, String.toList_ofList.symm⟩

theorem strAfter_sudoInFront {line : String} (h : strStartsWith line "mkdir -p" = true) :
    strAfter (sudoInFront line) "sudo mkdir -p" = strAfter line "mkdir -p" := by
  obtain ⟨cs, rfl⟩ := ofList_of_startsWith h
  rw [sudoInFront_mkdir, sudo_append, strAfter_append (by decide), strAfter_append (by decide)]

/-! ## Paths -/

/-- Where a path leads after `.` and `..` are resolved. -/
def lexicalPlace (path : String) : List String := follow [] (turns path)

theorem lexicalPlace_eq {path : String} {place : List String}
    (h : Resolves (turns path) place) : lexicalPlace path = place :=
  follow_of_walk (walk_of_resolves h)

/-- The path is one of the platform's directories, or below. -/
def IsInside (path : String) : Prop :=
  strStartsWith path "/" = true ∧
    (["data", "coolify"] <+: lexicalPlace path ∨ ["tmp", "coolify"] <+: lexicalPlace path)

instance (path : String) : Decidable (IsInside path) :=
  inferInstanceAs (Decidable (_ ∧ (_ ∨ _)))

theorem not_systemPath {path front : String} (hfront : strStartsWith path front = true)
    (h : ∀ systemPath ∈ systemPaths, ¬ front.toList <+: systemPath.toList ++ ['/'] ∧
      ¬ systemPath.toList ++ ['/'] <+: front.toList) :
    (systemPaths.any fun systemPath =>
      path == systemPath || strStartsWith path (systemPath ++ "/")) = false := by
  refine List.any_eq_false.mpr fun systemPath hmem hor => ?_
  obtain ⟨hnot, hnot'⟩ := h systemPath hmem
  have hpath := strStartsWith_iff.mp hfront
  rw [Bool.or_eq_true, beq_iff_eq, strStartsWith_iff, String.toList_append] at hor
  rcases hor with rfl | hbelow
  · exact hnot (hpath.trans (List.prefix_append ..))
  · exact (List.prefix_or_prefix_of_prefix hpath hbelow).elim hnot hnot'

/-- A trimmed text is looked at from its beginning only. -/
theorem shouldChangeOwnership_eq {path : String} (h : trim path = path) :
    shouldChangeOwnership path =
      (strStartsWith path "/data/coolify" || strStartsWith path "/tmp/coolify") := by
  unfold shouldChangeOwnership
  rw [h]
  dsimp only
  split
  · next hsystem =>
      refine (eq_false_of_ne_true fun hstart => ?_).symm
      rcases Bool.or_eq_true _ _ ▸ hstart with hdata | htmp
      · rw [not_systemPath hdata (by decide +kernel)] at hsystem
        cases hsystem
      · rw [not_systemPath htmp (by decide +kernel)] at hsystem
        cases hsystem
  · rfl

theorem turn_coolify (p : List Char) :
    turn (String.ofList ("coolify".toList ++ p)) =
      .down (String.ofList ("coolify".toList ++ p)) := by
  have hlong : ∀ s : String, s.toList.length < 7 →
      String.ofList ("coolify".toList ++ p) ≠ s := by
    intro s hs heq
    have hlen := congrArg (fun s => s.toList.length) heq
    have hseven : "coolify".toList.length = 7 := by decide
    simp only [String.toList_ofList, List.length_append] at hlen
    omega
  rw [turn, if_neg (not_or.mpr ⟨hlong "" (by decide), hlong "." (by decide)⟩),
    if_neg (hlong ".." (by decide))]

theorem nil_piece_iff {c : Char} {rest p : List Char} {ps : List (List Char)}
    (hp : pieces c rest = p :: ps) : p = [] ↔ rest = [] ∨ rest.head? = some c := by
  cases rest with
  | nil =>
      rw [pieces] at hp
      simp [(List.cons.inj hp).1.symm]
  | cons d rest =>
      rw [pieces] at hp
      by_cases hd : d = c
      · rw [if_pos hd] at hp
        simp [hd, (List.cons.inj hp).1.symm]
      · rw [if_neg hd] at hp
        obtain ⟨q, qs, hq⟩ := List.exists_cons_of_ne_nil (pieces_ne_nil c rest)
        rw [hq] at hp
        simp [hd, (List.cons.inj hp).1.symm]

/-- Without `..`, a text that begins like one of the platform's directories is inside if
and only if the name ends there. -/
theorem isInside_iff_of_noParent {top : String} (htop : top = "data" ∨ top = "tmp")
    {rest : List Char} (h : ".." ∉ explode '/' (String.ofList rest)) :
    IsInside (String.ofList ('/' :: top.toList ++ '/' :: "coolify".toList ++ rest)) ↔
      rest = [] ∨ rest.head? = some '/' := by
  have hslash : '/' ∉ top.toList ∧ turn top = .down top := by
    rcases htop with rfl | rfl <;> decide +kernel
  obtain ⟨p, ps, hp⟩ := List.exists_cons_of_ne_nil (pieces_ne_nil '/' rest)
  have hcoolify : pieces '/' ("coolify".toList ++ rest) = ("coolify".toList ++ p) :: ps :=
    pieces_append (by decide) hp
  have hpieces : pieces '/' ('/' :: top.toList ++ '/' :: "coolify".toList ++ rest) =
      [] :: top.toList :: ("coolify".toList ++ p) :: ps := by
    rw [List.append_assoc, List.cons_append, List.cons_append, pieces, if_pos rfl,
      pieces_append_sep, pieces_of_notMem hslash.1, hcoolify]
    rfl
  have hplace : lexicalPlace
      (String.ofList ('/' :: top.toList ++ '/' :: "coolify".toList ++ rest)) =
        follow [top, String.ofList ("coolify".toList ++ p)]
          (ps.map fun segment => turn (String.ofList segment)) := by
    rw [lexicalPlace, turns, explode, String.toList_ofList, hpieces, List.map_map, List.map_cons,
      List.map_cons, List.map_cons, Function.comp_apply, Function.comp_apply, Function.comp_apply,
      turn_coolify, String.ofList_toList, hslash.2]
    rfl
  have hstays : .up ∉ ps.map fun segment => turn (String.ofList segment) := by
    intro hmem
    obtain ⟨segment, hsegment, hup⟩ := List.mem_map.mp hmem
    refine h (List.mem_map.mpr ⟨segment, ?_, ?_⟩)
    · rw [String.toList_ofList, hp]
      exact List.mem_cons_of_mem _ hsegment
    · unfold turn at hup
      split at hup
      · cases hup
      · split at hup
        · next hparent => exact hparent
        · cases hup
  have hreached := follow_prefix [top, String.ofList ("coolify".toList ++ p)] hstays
  have hfirst : ∀ name : String, [name, "coolify"] <+: lexicalPlace
      (String.ofList ('/' :: top.toList ++ '/' :: "coolify".toList ++ rest)) ↔
        name = top ∧ p = [] := by
    intro name
    rw [hplace]
    constructor
    · intro hfront
      have hsame := List.prefix_of_prefix_length_le hfront hreached (le_refl 2)
      obtain ⟨htop, hcoolify⟩ := List.cons.inj (hsame.eq_of_length rfl)
      have hlist := congrArg String.toList (List.cons.inj hcoolify).1
      rw [String.toList_ofList] at hlist
      exact ⟨htop, by simpa using hlist⟩
    · rintro ⟨rfl, rfl⟩
      rwa [List.append_nil, String.ofList_toList] at hreached ⊢
  have habsolute : strStartsWith
      (String.ofList ('/' :: top.toList ++ '/' :: "coolify".toList ++ rest)) "/" = true :=
    strStartsWith_iff.mpr ⟨_, String.toList_ofList.symm⟩
  rw [IsInside, and_iff_right habsolute, hfirst, hfirst, ← or_and_right, ← nil_piece_iff hp]
  exact and_iff_right (htop.imp Eq.symm Eq.symm)

/-! ## What is read -/

section

/- What the shell makes of a word: its expansions, without the quotes. -/
variable (expand : List Char → List String) (user : ServerUsername)

/-- The operands that the words of a text come to. -/
def operandsOf (words : List (List Char)) : List String := Shell.operands (words.flatMap expand)

/-- What an ownership command applies to: the operands behind the owner or the mode. -/
def appliesTo (command : String) : List String :=
  operandsOf expand ((Shell.arguments command.toList).drop 3)

theorem isPlain_of_isServerUsername {c : Char}
    (h : (c.isAlphanum || c == '.' || c == '_' || c == '-') = true) : Shell.isPlain c = true := by
  by_contra hnot
  simp only [Shell.isPlain, Shell.isBlank, Shell.isOperator, Bool.not_eq_true', Bool.not_eq_false,
    Bool.or_eq_true, beq_iff_eq] at hnot
  rcases hnot with ((((((hblank | hoperator) | rfl) | rfl) | rfl) | rfl) | rfl) | rfl
  · rcases hblank with rfl | rfl <;> exact absurd h (by decide)
  · rcases hoperator with ((((((rfl | rfl) | rfl) | rfl) | rfl) | rfl) | rfl) | rfl <;>
      exact absurd h (by decide)
  all_goals exact absurd h (by decide)

theorem isPlain_owner {c : Char} (h : c ∈ user.val.toList ++ ':' :: user.val.toList) :
    Shell.isPlain c = true := by
  have huser := user.2
  rw [isServerUsername, Bool.and_eq_true, List.all_eq_true] at huser
  rcases List.mem_append.mp h with hc | hc
  · exact isPlain_of_isServerUsername (huser.2 c hc)
  · rcases List.mem_cons.mp hc with rfl | hc
    · decide
    · exact isPlain_of_isServerUsername (huser.2 c hc)

theorem appliesTo_chown (path : String) :
    appliesTo expand (chownCommand user path) =
      operandsOf expand (Shell.arguments path.toList) := by
  have htext : (chownCommand user path).toList = "chown".toList ++ ' ' :: ("-R".toList ++
      ' ' :: ((user.val.toList ++ ':' :: user.val.toList) ++ ' ' :: path.toList)) := by
    simp [chownCommand, String.toList_append]
  rw [appliesTo, htext, Shell.arguments_cons (by decide) (List.all_eq_true.mp rfl),
    Shell.arguments_cons (by decide) (List.all_eq_true.mp rfl),
    Shell.arguments_cons (by simp) fun c hc => isPlain_owner user hc]
  rfl

theorem appliesTo_chmod (path : String) :
    appliesTo expand (chmodCommand path) = operandsOf expand (Shell.arguments path.toList) := by
  have htext : (chmodCommand path).toList = "chmod".toList ++ ' ' :: ("-R".toList ++
      ' ' :: ("o-rwx".toList ++ ' ' :: path.toList)) := by
    simp [chmodCommand, String.toList_append]
  rw [appliesTo, htext, Shell.arguments_cons (by decide) (List.all_eq_true.mp rfl),
    Shell.arguments_cons (by decide) (List.all_eq_true.mp rfl),
    Shell.arguments_cons (by decide) (List.all_eq_true.mp rfl)]
  rfl

/-- The ownership commands stay inside the platform's directories if and only if every
`mkdir -p` whose text begins like one of them does. -/
theorem ownership_inside_iff (commands : List String) :
    (∀ line ∈ commands, ∀ command ∈ ownershipCommands user line,
        ∀ path ∈ appliesTo expand command, IsInside path) ↔
      ∀ line ∈ commands, strStartsWith line "mkdir -p" = true →
        let text := trim (strAfter line "mkdir -p")
        (strStartsWith text "/data/coolify" || strStartsWith text "/tmp/coolify") = true →
          ∀ path ∈ operandsOf expand (Shell.arguments text.toList), IsInside path := by
  refine forall₂_congr fun line _ => ?_
  unfold ownershipCommands
  rw [startsWith_sudoInFront]
  by_cases hmkdir : strStartsWith line "mkdir -p" = true
  · rw [if_pos hmkdir, strAfter_sudoInFront hmkdir]
    dsimp only
    rw [shouldChangeOwnership_eq (trim_trim _), forall_prop_of_true hmkdir]
    split
    · next hstart =>
        rw [forall_prop_of_true hstart]
        simp [appliesTo_chown, appliesTo_chmod]
    · next hstart => exact iff_of_true nofun fun h => absurd h hstart
  · rw [if_neg hmkdir]
    exact iff_of_true nofun fun h => absurd h hmkdir

end

/-- Two turns up lead from the platform's directory to any other. -/
theorem ownership_leaves_platform :
    ¬ ∀ (user : ServerUsername) (commands : List String), ∀ line ∈ commands,
      ∀ command ∈ ownershipCommands user line,
        ∀ path ∈ appliesTo (fun raw => [String.ofList raw]) command, IsInside path := by
  intro h
  have hinside := h ⟨"ubuntu", by decide +kernel⟩ ["mkdir -p /data/coolify/../../etc"] _
    (List.mem_cons_self ..) "chown -R ubuntu:ubuntu /data/coolify/../../etc" (by decide +kernel)
    "/data/coolify/../../etc" (by decide +kernel)
  exact absurd hinside (by decide +kernel)

end OnePloy
