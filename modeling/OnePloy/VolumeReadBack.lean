import OnePloy.ComposeShort
import OnePloy.Lib.Words
import Mathlib.Data.List.DropRight

/-!
# Short volumes, read back

What `parseDockerVolumeString` makes of `source:target[:options]`, for the kinds of
source it knows. Options are looked up as a whole among the modes: a list of several is
none of them, nor is `nocopy`, and stays with the target.
-/

namespace OnePloy

open Conc Php

namespace ShortVolume

/-! ## Volumes -/

/-- The name of a volume, or a path: not just a letter. -/
structure IsPlace (text : List Char) : Prop where
  ne_nil : text ≠ []
  colon : ':' ∉ text
  brace : '{' ∉ text ∧ '}' ∉ text
  letter : isLetter text = false
  head : ∀ c, text.head? = some c → isTrimmed c = false

inductive Source
  | place (text : List Char) (h : IsPlace text)
  /-- `${name}`. -/
  | reference (name : List Char) (h : isName name = true)
  /-- `${name:-default}`. -/
  | defaulted (name default : List Char) (hname : isName name = true) (hdefault : IsPlace default)
  /-- `C:\path`. -/
  | drive (letter : Char) (path : List Char) (hletter : letter.isAlpha = true)
      (hpath : ':' ∉ path)

def Source.chars : Source → List Char
  | place text _ => text
  | reference name _ => '$' :: '{' :: name ++ ['}']
  | defaulted name default _ _ => '$' :: '{' :: (name ++ ':' :: '-' :: default) ++ ['}']
  | drive letter path _ _ => letter :: ':' :: path

/-- The source that is meant. -/
def Source.meant : Source → List Char
  | defaulted _ default _ _ => default
  | source => source.chars

inductive VolumeOption
  | ro | rw | z | privateLabel | nocopy
  | shared | slave | propagatePrivate | rshared | rslave | rprivate
  deriving DecidableEq

def VolumeOption.chars : VolumeOption → List Char
  | ro => ['r', 'o']
  | rw => ['r', 'w']
  | z => ['z']
  | privateLabel => ['Z']
  | nocopy => ['n', 'o', 'c', 'o', 'p', 'y']
  | shared => ['s', 'h', 'a', 'r', 'e', 'd']
  | slave => ['s', 'l', 'a', 'v', 'e']
  | propagatePrivate => ['p', 'r', 'i', 'v', 'a', 't', 'e']
  | rshared => ['r', 's', 'h', 'a', 'r', 'e', 'd']
  | rslave => ['r', 's', 'l', 'a', 'v', 'e']
  | rprivate => ['r', 'p', 'r', 'i', 'v', 'a', 't', 'e']

/-- The options as they are written, if there are any. -/
def optionsText (options : List VolumeOption) : Option (List Char) :=
  if options = [] then none else some ([','].intercalate (options.map VolumeOption.chars))

/-- `source:target[:options]`. -/
def render (source : Source) (target : List Char) (options : List VolumeOption) : String :=
  String.ofList (Entry.shortText source.chars target (optionsText options))

/-- `validateShellSafePath` forbids nothing of it. -/
def IsSafe (text : List Char) : Prop :=
  ∀ c ∈ dangerousChars, strContains (String.ofList text) c.1 = false

def Source.Safe : Source → Prop
  | reference _ _ => True
  | source => IsSafe source.meant

/-! ## Splitting -/

theorem not_mem_options (o : VolumeOption) : ':' ∉ o.chars ∧ ',' ∉ o.chars := by
  cases o <;> simp [VolumeOption.chars]

theorem not_mem_intercalate {c sep : Char} (hc : c ≠ sep) {ls : List (List Char)}
    (h : ∀ l ∈ ls, c ∉ l) : c ∉ [sep].intercalate ls := by
  induction ls with
  | nil => simp
  | cons l ls ih =>
      have ih := ih fun m hm => h m (List.mem_cons_of_mem _ hm)
      cases ls with
      | nil =>
          have hself : [sep].intercalate [l] = l := by simp
          rw [hself]
          exact h l (List.mem_cons_self ..)
      | cons m ls =>
          rw [intercalate_cons_cons, List.mem_append, List.mem_cons, not_or, not_or]
          exact ⟨h l (List.mem_cons_self ..), hc, ih⟩

theorem not_mem_optionsText {options : List VolumeOption} {text : List Char}
    (h : optionsText options = some text) : ':' ∉ text := by
  rw [optionsText] at h
  split at h
  · cases h
  · rw [← Option.some.inj h]
    refine not_mem_intercalate (by decide) fun l hl => ?_
    obtain ⟨o, -, rfl⟩ := List.mem_map.mp hl
    exact (not_mem_options o).1

theorem IsPlace.isPlain {text : List Char} (h : IsPlace text) : IsPlain text where
  ne_nil := h.ne_nil
  colon := h.colon
  closed hfront := absurd (hfront.subset (List.mem_cons_of_mem _ (List.mem_cons_self ..)))
    h.brace.1

theorem isPlain_reference {name : List Char} (h : isName name = true) :
    IsPlain ('$' :: '{' :: name ++ ['}']) where
  ne_nil := List.cons_ne_nil _ _
  colon := by
    have := not_mem_name h
    simp [this]
  closed _ := by simp

/-- Behind the letter of a drive, the second colon separates. -/
theorem splitVolume_drive {letter : Char} {path target : List Char}
    {options : Option (List Char)} (hletter : letter.isAlpha = true) (hpath : ':' ∉ path)
    (ht : ':' ∉ target) (ho : ∀ o, options = some o → ':' ∉ o) :
    splitVolume (Entry.shortText (letter :: ':' :: path) target options) =
      ⟨letter :: ':' :: path, some (splitOptions target options).1,
        (splitOptions target options).2⟩ := by
  have hne : letter ≠ '$' := by
    rintro rfl
    cases hletter
  have hcolon : ':' ≠ letter := by
    rintro rfl
    cases hletter
  have henv : ∀ rest, envVarWithDefault? (letter :: rest) = none := by
    intro rest
    have href : reference? (letter :: rest) = none := by
      unfold reference?
      split
      · next heq => exact absurd (List.cons.inj heq).1 hne
      · rfl
    rw [envVarWithDefault?, href]
    rfl
  have hcount : path.count ':' = 0 := List.count_eq_zero.mpr hpath
  have htarget : target.count ':' = 0 := List.count_eq_zero.mpr ht
  have hwindows : ∀ rest, isWindowsPath (letter :: ':' :: rest) = true := fun _ => hletter
  cases options with
  | none =>
      have htwo : (letter :: ':' :: (path ++ ':' :: target)).count ':' = 2 := by
        rw [List.count_cons_of_ne hcolon.symm, List.count_cons_self, List.count_append,
          List.count_cons_self, hcount, htarget]
      rw [Entry.shortText, Option.elim_none, List.append_nil, List.cons_append, List.cons_append,
        splitVolume, henv, htwo]
      show splitAtColons _ 2 = _
      rw [splitAtColons, hwindows, if_pos rfl, splitWindows]
      dsimp only [List.take, List.drop]
      rw [beforeColon_append hpath, afterColon_append hpath]
      rfl
  | some o =>
      have hoptions := ho o rfl
      have hthree : (letter :: ':' :: (path ++ ':' :: (target ++ ':' :: o))).count ':' = 3 := by
        rw [List.count_cons_of_ne hcolon.symm, List.count_cons_self, List.count_append,
          List.count_cons_self, List.count_append, List.count_cons_self, hcount, htarget,
          List.count_eq_zero.mpr hoptions]
      rw [Entry.shortText, Option.elim_some, List.append_assoc, List.cons_append, List.cons_append,
        List.cons_append, splitVolume, henv, hthree]
      show splitAtColons _ 3 = _
      rw [splitAtColons, hwindows, if_pos rfl, splitWindows]
      dsimp only [List.take, List.drop]
      rw [beforeColon_append hpath, afterColon_append hpath, splitMode_append hoptions]
      rfl

theorem splitVolume_render (source : Source) {target : List Char}
    {options : Option (List Char)} (ht : ':' ∉ target)
    (ho : ∀ o, options = some o → ':' ∉ o) :
    splitVolume (Entry.shortText source.chars target options) =
      ⟨source.chars, some (splitOptions target options).1, (splitOptions target options).2⟩ := by
  cases source with
  | place text h => exact splitVolume_plain h.isPlain h.letter ht ho
  | reference name h => exact splitVolume_plain (isPlain_reference h) rfl ht ho
  | defaulted name default hname hdefault =>
      exact splitVolume_defaulted hname hdefault.brace.2 (fun h => nomatch h) ht ho
  | drive letter path hletter hpath => exact splitVolume_drive hletter hpath ht ho

theorem expandDefault_chars (source : Source) : expandDefault source.chars = source.meant := by
  cases source with
  | place text h => exact expandDefault_of_plain h.isPlain
  | reference name h => exact expandDefault_of_plain (isPlain_reference h)
  | defaulted name default hname hdefault =>
      have hfront := @expandDefault_front (.defaulted name default [])
        ⟨hname, ⟨hdefault.colon, hdefault.brace.2⟩, List.not_mem_nil⟩
      rw [MountSource.found, if_neg hdefault.ne_nil] at hfront
      exact hfront
  | drive letter path hletter hpath =>
      have href : reference? (letter :: ':' :: path) = none := by
        unfold reference?
        split
        · next heq =>
          have := (List.cons.inj (List.cons.inj heq).2).1
          cases this
        · rfl
      rw [Source.chars, expandDefault, href]
      rfl

/-! ## Trimming -/

theorem Source.head_not_trimmed (source : Source) :
    ∃ c cs, source.chars = c :: cs ∧ isTrimmed c = false := by
  cases source with
  | place text h =>
      obtain ⟨c, cs, rfl⟩ := List.exists_cons_of_ne_nil h.ne_nil
      exact ⟨c, cs, rfl, h.head c rfl⟩
  | reference name h => exact ⟨'$', _, rfl, rfl⟩
  | defaulted name default hname hdefault => exact ⟨'$', _, rfl, rfl⟩
  | drive letter path hletter hpath =>
      refine ⟨letter, _, rfl, ?_⟩
      rw [← Bool.not_eq_true]
      intro htrim
      simp only [isTrimmed, Bool.or_eq_true, beq_iff_eq] at htrim
      rcases htrim with ((((rfl | rfl) | rfl) | rfl) | rfl) | rfl <;> cases hletter

/-- Blanks at the end of a target without options are cut. -/
theorem trim_target (source : Source) (target : List Char) :
    trim (String.ofList (source.chars ++ ':' :: target)) =
      String.ofList (source.chars ++ ':' :: target.rdropWhile isTrimmed) := by
  obtain ⟨c, cs, hchars, hc⟩ := source.head_not_trimmed
  have hfront : (source.chars ++ ':' :: target).dropWhile isTrimmed =
      source.chars ++ ':' :: target := by
    rw [hchars, List.cons_append, List.dropWhile_cons, hc, if_neg Bool.false_ne_true]
  rw [trim, String.toList_ofList, hfront]
  congr 1
  have hback : (target.reverse ++ ':' :: source.chars.reverse).dropWhile isTrimmed =
      target.reverse.dropWhile isTrimmed ++ ':' :: source.chars.reverse := by
    rw [List.dropWhile_append]
    split
    · next hempty =>
      rw [List.isEmpty_iff.mp hempty]
      rfl
    · rfl
  rw [List.reverse_append, List.reverse_cons, List.append_assoc, List.singleton_append, hback,
    List.rdropWhile]
  simp

theorem isTrim_render (source : Source) {target : List Char} {o : List Char} (hne : o ≠ [])
    (hlast : ∀ c, o.getLast? = some c → isTrimmed c = false) :
    trim (String.ofList (source.chars ++ ':' :: (target ++ ':' :: o))) =
      String.ofList (source.chars ++ ':' :: (target ++ ':' :: o)) := by
  rw [trim_target]
  congr 3
  rw [List.rdropWhile_eq_self_iff]
  intro hl
  rw [List.getLast_append_of_right_ne_nil _ _ (List.cons_ne_nil _ _), List.getLast_cons hne,
    hlast _ (List.getLast?_eq_some_getLast hne)]
  exact Bool.false_ne_true

theorem optionsText_last {options : List VolumeOption} {text : List Char}
    (h : optionsText options = some text) :
    text ≠ [] ∧ ∀ c, text.getLast? = some c → isTrimmed c = false := by
  rw [optionsText] at h
  split at h
  · cases h
  · next hne =>
    obtain ⟨front, last, rfl⟩ := (List.eq_nil_or_concat options).resolve_left hne
    rw [List.concat_eq_append, List.map_append, List.map_singleton] at h
    obtain ⟨before, hbefore⟩ : ∃ before,
        [','].intercalate (front.map VolumeOption.chars ++ [last.chars]) =
          before ++ last.chars := by
      cases hfront : front.map VolumeOption.chars with
      | nil => exact ⟨[], by simp⟩
      | cons l ls =>
          rw [intercalate_concat ',' (List.cons_ne_nil _ _)]
          exact ⟨[','].intercalate (l :: ls) ++ [','], by rw [List.append_assoc]; rfl⟩
    rw [← Option.some.inj h, hbefore]
    cases last <;> simp [VolumeOption.chars, isTrimmed]

/-! ## Modes -/

/-- One option, other than `nocopy`. -/
def IsOneMode (options : List VolumeOption) : Prop := ∃ o, options = [o] ∧ o ≠ .nocopy

theorem isMode_iff {options : List VolumeOption} {text : List Char}
    (h : optionsText options = some text) : isMode text = true ↔ IsOneMode options := by
  rw [optionsText] at h
  split at h
  · cases h
  · next hne =>
    rw [← Option.some.inj h]
    match options with
    | [] => exact absurd rfl hne
    | [o] =>
        have hself : [','].intercalate ([o].map VolumeOption.chars) = o.chars := by simp
        have hone : IsOneMode [o] ↔ o ≠ .nocopy := by
          constructor
          · rintro ⟨o', heq, ho'⟩
            rwa [List.singleton_inj.mp heq]
          · exact fun ho => ⟨o, rfl, ho⟩
        rw [hself, hone]
        cases o <;> decide +kernel
    | o :: o' :: rest =>
        have hcomma : ',' ∈ [','].intercalate ((o :: o' :: rest).map VolumeOption.chars) := by
          rw [List.map_cons, List.map_cons, intercalate_cons_cons]
          exact List.mem_append_right _ (List.mem_cons_self ..)
        have hplain : validModes.all (fun mode => !mode.toList.contains ',') = true := by
          decide +kernel
        constructor
        · intro hmode
          have hnone := List.all_eq_true.mp hplain _ (List.contains_iff_mem.mp hmode)
          rw [String.toList_ofList, Bool.not_eq_true', ← Bool.not_eq_true] at hnone
          exact absurd (List.contains_iff_mem.mpr hcomma) hnone
        · rintro ⟨o'', heq, -⟩
          cases heq

/-! ## Reading back -/

theorem validateShellSafePath_of_safe {text : List Char} (h : IsSafe text) (context : String) :
    validateShellSafePath (String.ofList text) context = .ok () := by
  have hnone : (dangerousChars.find? fun c => strContains (String.ofList text) c.1) = none := by
    rw [List.find?_eq_none]
    exact fun c hc => by rw [h c hc]; exact Bool.false_ne_true
  rw [validateShellSafePath, hnone]

theorem checkSource_of_safe {source : Source} (h : source.Safe) :
    checkSource "" (isSimpleEnvVar source.meant || isEnvVarWithPath source.meant)
      (String.ofList source.meant) = .ok () := by
  have hchecked : IsSafe source.meant → checkSource ""
      (isSimpleEnvVar source.meant || isEnvVarWithPath source.meant)
      (String.ofList source.meant) = .ok () := by
    intro hsafe
    rw [checkSource, validateShellSafePath_of_safe hsafe]
    split <;> rfl
  cases source with
  | reference name hname =>
      have hbrace : '}' ∉ name := by
        intro hmem
        rw [isName, Bool.and_eq_true] at hname
        cases List.all_eq_true.mp hname.2 _ hmem
      have href : reference? ('$' :: '{' :: name ++ ['}']) = some (name, []) :=
        reference?_iff.mpr ⟨rfl, hbrace⟩
      have hsimple : isSimpleEnvVar (Source.reference name hname).meant = true := by
        show isSimpleEnvVar ('$' :: '{' :: name ++ ['}']) = true
        rw [isSimpleEnvVar, href]
        exact (Bool.and_eq_true ..).mpr ⟨hname, rfl⟩
      rw [checkSource, hsimple, Bool.true_or, if_pos rfl]
  | place text htext => exact hchecked h
  | defaulted name default hname hdefault => exact hchecked h
  | drive letter path hletter hpath => exact hchecked h

/-- A short form whose parts pass the checks. -/
theorem parseDockerVolumeString_of_safe {volumeString : String} {parts : VolumeParts}
    {source : List Char} (hparts : splitVolume (trim volumeString).toList = parts)
    (hsource : expandDefault parts.source = source)
    (hchecked : checkSource "" (isSimpleEnvVar source || isEnvVarWithPath source)
      (String.ofList source) = .ok ())
    {target : List Char} (htarget : parts.target = some target) (hsafe : IsSafe target) :
    parseDockerVolumeString volumeString =
      .ok ⟨String.ofList source, some (String.ofList target), parts.mode.map String.ofList⟩ := by
  have htargetChecked : (some (String.ofList target)).forM (checkTarget "") = .ok () := by
    show checkTarget "" (String.ofList target) = .ok ()
    rw [checkTarget, validateShellSafePath_of_safe hsafe]
    rfl
  unfold parseDockerVolumeString
  dsimp only
  rw [hparts, hsource, hchecked, htarget, Option.map_some, htargetChecked]
  rfl

/-- A volume is read back exactly with no options, or with one other than `nocopy`. Blanks at
the end of a target without options are lost. -/
theorem read_back_iff (source : Source) {target : List Char} (options : List VolumeOption)
    (ht : ':' ∉ target) (hsource : source.Safe) (htarget : IsSafe target) :
    parseDockerVolumeString (render source target options) =
        .ok ⟨String.ofList source.meant, some (String.ofList target),
          (optionsText options).map String.ofList⟩ ↔
      (options = [] ∧ ∀ c, target.getLast? = some c → isTrimmed c = false) ∨
        IsOneMode options := by
  cases htext : optionsText options with
  | none =>
      have hnil : options = [] := by
        by_contra hne
        rw [optionsText, if_neg hne] at htext
        cases htext
      have hlast : (∀ c, target.getLast? = some c → isTrimmed c = false) ↔
          target.rdropWhile isTrimmed = target := by
        rw [List.rdropWhile_eq_self_iff]
        constructor
        · intro h hl
          rw [h _ (List.getLast?_eq_some_getLast hl)]
          exact Bool.false_ne_true
        · intro h c hc
          have hne : target ≠ [] := by
            rintro rfl
            cases hc
          rw [List.getLast?_eq_some_getLast hne] at hc
          rw [← Option.some.inj hc, ← Bool.not_eq_true]
          exact h hne
      have hone : ¬ IsOneMode options := by
        rw [hnil]
        rintro ⟨o, heq, -⟩
        cases heq
      have hparts : splitVolume (trim (render source target options)).toList =
          ⟨source.chars, some (target.rdropWhile isTrimmed), none⟩ := by
        have hcolon : ':' ∉ target.rdropWhile isTrimmed := fun hmem =>
          ht ((List.rdropWhile_prefix _ _).subset hmem)
        have hsplit := @splitVolume_render source _ none hcolon nofun
        rw [Entry.shortText, Option.elim_none, List.append_nil] at hsplit
        rw [render, htext, Entry.shortText, Option.elim_none, List.append_nil, trim_target,
          String.toList_ofList, hsplit]
        rfl
      rw [hlast]
      constructor
      · intro h
        obtain ⟨hv, -, -⟩ := parseDockerVolumeString_ok h
        rw [hparts] at hv
        have heq := Option.some.inj (congrArg DockerVolume.target hv)
        exact .inl ⟨hnil, (String.ofList_injective heq).symm⟩
      · intro h
        obtain ⟨-, hself⟩ := h.resolve_right hone
        rw [hself] at hparts
        exact parseDockerVolumeString_of_safe hparts (expandDefault_chars source)
          (checkSource_of_safe hsource) rfl htarget
  | some text =>
      obtain ⟨hne, hlast⟩ := optionsText_last htext
      have hparts : splitVolume (trim (render source target options)).toList =
          ⟨source.chars, some (splitOptions target (some text)).1,
            (splitOptions target (some text)).2⟩ := by
        have hsplit := @splitVolume_render source target (some text) ht
          (fun o ho => Option.some.inj ho ▸ not_mem_optionsText htext)
        rw [Entry.shortText, Option.elim_some, List.append_assoc, List.cons_append] at hsplit
        rw [render, htext, Entry.shortText, Option.elim_some, List.append_assoc, List.cons_append,
          isTrim_render source hne hlast, String.toList_ofList, hsplit]
      have hnil : options ≠ [] := by
        rintro rfl
        cases htext
      rw [← isMode_iff htext]
      constructor
      · intro h
        obtain ⟨hv, -, -⟩ := parseDockerVolumeString_ok h
        rw [hparts] at hv
        have hmode := congrArg DockerVolume.mode hv
        by_contra hno
        rw [not_or] at hno
        rw [splitOptions, if_neg hno.2] at hmode
        cases hmode
      · intro h
        have hmode := h.resolve_left fun hempty => hnil hempty.1
        rw [splitOptions, if_pos hmode] at hparts
        exact parseDockerVolumeString_of_safe hparts (expandDefault_chars source)
          (checkSource_of_safe hsource) rfl htarget

/-- `${D:-./d}`. -/
def dataSource : Source :=
  .defaulted ['D'] ['.', '/', 'd'] rfl ⟨nofun, by simp, by simp, rfl, by simp [isTrimmed]⟩

theorem data_read_back :
    parseDockerVolumeString (render dataSource ['/', 'd'] [.ro]) =
      .ok ⟨"./d", some "/d", some "ro"⟩ := by
  have hsafe : ∀ text : List Char, (dangerousChars.all fun c =>
      !strContains (String.ofList text) c.1) = true → IsSafe text := by
    intro text h c hc
    have hno := List.all_eq_true.mp h c hc
    rwa [Bool.not_eq_true'] at hno
  exact (read_back_iff dataSource [.ro] (by simp) (hsafe ['.', '/', 'd'] (by decide +kernel))
    (hsafe _ (by decide +kernel))).mpr (.inr ⟨.ro, rfl, by decide⟩)

/-- `gitea`. -/
def giteaSource : Source :=
  .place ['g', 'i', 't', 'e', 'a'] ⟨nofun, by simp, by simp, rfl, by simp [isTrimmed]⟩

theorem option_list_not_read_back :
    render giteaSource ['/', 'd', 'a', 't', 'a'] [.ro, .z] = "gitea:/data:ro,z" ∧
      parseDockerVolumeString "gitea:/data:ro,z" =
        .ok ⟨"gitea", some "/data:ro,z", none⟩ := by
  constructor
  · rfl
  · decide +kernel

end ShortVolume

end OnePloy
