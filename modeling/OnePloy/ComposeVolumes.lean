import OnePloy.Lib.Attempt
import OnePloy.Lib.PhpText

/-!
# Volumes in a compose file, and the check for command text

A volume is written short, as one text with colons, or long, as a mapping.
`parseDockerVolumeString` takes the short form apart and checks what it has
found; `validateDockerComposeForInjection` calls it for the short ones and has
a check of its own for the long ones.

Either lets references to variables through without looking for shell
metacharacters, and recognizes them with patterns that end in a dollar sign,
which in PHP also matches in front of a line break at the end of the text. The
check of the long form lets a reference through whatever its default is, as
what it calls is thought to check that.
-/

namespace OnePloy

open Conc Php

/-! ## validateShellSafePath -/

def dangerousChars : List (String × String) :=
  [("`", "backtick (command substitution)"), ("$(", "command substitution"),
    ("$\x7b", "variable substitution with potential command injection"), ("|", "pipe operator"),
    ("&", "background/AND operator"), (";", "command separator"),
    ("\n", "newline (command separator)"), ("\r", "carriage return"),
    ("\t", "tab (token separator)"), (">", "output redirection"), ("<", "input redirection")]

def validateShellSafePath (input context : String) : Except String Unit :=
  match dangerousChars.find? fun c => strContains input c.1 with
  | some (char, description) =>
      .error ("Invalid " ++ context ++ ": contains forbidden character '" ++ char ++ "' (" ++
        description ++ "). Shell metacharacters are not allowed for security reasons.")
  | none => .ok ()

/-! ## Patterns -/

/-- The text before and after the first occurrence of `sep`. -/
def cut (sep : List Char) : List Char → Option (List Char × List Char)
  | [] => none
  | c :: cs =>
      if sep.isPrefixOf (c :: cs) then some ([], (c :: cs).drop sep.length)
      else (cut sep cs).map fun p => (c :: p.1, p.2)

/-- The text before and after the last occurrence of `c`. -/
def cutLast (c : Char) (cs : List Char) : Option (List Char × List Char) :=
  (cut [c] cs.reverse).map fun p => (p.2.reverse, p.1.reverse)

/-- A dollar sign at the end of a pattern. -/
def atEnd (cs : List Char) : Bool := cs == [] || cs == ['\n']

/-- What stands in the braces a text begins with, and what follows them. -/
def reference? : List Char → Option (List Char × List Char)
  | '$' :: '{' :: rest =>
      match rest.dropWhile (· != '}') with
      | _ :: after => some (rest.takeWhile (· != '}'), after)
      | [] => none
  | _ => none

/-- `[^}]+:-[^}]*`, in braces. -/
def hasDefault (content : List Char) : Bool := (cut [':', '-'] content.tail).isSome

def isNameStart (c : Char) : Bool := c.isAlpha || c == '_'

def isNameChar (c : Char) : Bool := c.isAlphanum || c == '_'

/-- `[a-zA-Z_][a-zA-Z0-9_]*`. -/
def isName (cs : List Char) : Bool := cs.head?.any isNameStart && cs.all isNameChar

/-- `[\/\w\.\-]`. -/
def isPathChar (c : Char) : Bool := isNameChar c || c == '/' || c == '.' || c == '-'

def isSimpleEnvVar (cs : List Char) : Bool :=
  (reference? cs).any fun (content, after) => isName content && atEnd after

def isEnvVarWithDefault (cs : List Char) : Bool :=
  (reference? cs).any fun (content, after) => hasDefault content && atEnd after

def isEnvVarWithPath (cs : List Char) : Bool :=
  (reference? cs).any fun (content, after) => isName content && atEnd (after.dropWhile isPathChar)

/-! ## parseDockerVolumeString -/

structure DockerVolume where
  source : String
  target : Option String
  mode : Option String
  deriving DecidableEq, Repr

def validModes : List String :=
  ["ro", "rw", "z", "Z", "rslave", "rprivate", "rshared", "slave", "private", "shared", "cached",
    "delegated", "consistent"]

/-- The reference with a default that the text begins with, and the rest. -/
def envVarWithDefault? (cs : List Char) : Option (List Char × List Char) :=
  (reference? cs).bind fun (content, after) =>
    if hasDefault content then some ('$' :: '{' :: content ++ ['}'], after) else none

/-- `/^[A-Za-z]:/`. -/
def isWindowsPath : List Char → Bool
  | c :: ':' :: _ => c.isAlpha
  | _ => false

def beforeColon (cs : List Char) : List Char := cs.takeWhile (· != ':')

def afterColon (cs : List Char) : List Char := (cs.dropWhile (· != ':')).tail

/-- A target with the mode at its end, if there is one. -/
def splitMode (remaining : List Char) : List Char × Option (List Char) :=
  match cutLast ':' remaining with
  | some (target, possibleMode) =>
      if validModes.contains (String.ofList possibleMode) then (target, some possibleMode)
      else (remaining, none)
  | none => (remaining, none)

/-- Source, target and mode as they stand in the text. -/
structure VolumeParts where
  source : List Char
  target : Option (List Char)
  mode : Option (List Char)

/-- The text behind a reference with a default. -/
def splitAfterEnvVar (volume source remaining : List Char) : VolumeParts :=
  match remaining.count ':' with
  | 0 => ⟨volume, some volume, none⟩
  | 1 => ⟨source, some (if remaining.head? = some ':' then remaining.tail else remaining), none⟩
  | _ =>
      if remaining.head? = some ':' then
        ⟨source, some (splitMode remaining.tail).1, (splitMode remaining.tail).2⟩
      else ⟨source, none, none⟩

/-- A path that begins with the letter of a drive: the second colon separates. -/
def splitWindows (volume : List Char) (withMode : Bool) : VolumeParts :=
  let source := volume.take 2 ++ beforeColon (volume.drop 2)
  let remaining := afterColon (volume.drop 2)
  if withMode then ⟨source, some (splitMode remaining).1, (splitMode remaining).2⟩
  else ⟨source, some remaining, none⟩

/-- Two colons or more. -/
def splitAtColons (volume : List Char) (colonCount : Nat) : VolumeParts :=
  if isWindowsPath volume then splitWindows volume (2 < colonCount)
  else
    ⟨beforeColon volume, some (splitMode (afterColon volume)).1, (splitMode (afterColon volume)).2⟩

def splitVolume (volume : List Char) : VolumeParts :=
  match envVarWithDefault? volume with
  | some (source, remaining) =>
      if remaining.count ':' ≤ 2 then splitAfterEnvVar volume source remaining
      else splitAtColons volume (remaining.count ':')
  | none =>
      match volume.count ':' with
      | 0 => ⟨volume, some volume, none⟩
      | 1 => ⟨beforeColon volume, some (afterColon volume), none⟩
      | colonCount => splitAtColons volume colonCount

/-- A reference alone gives way to its default, if that is not empty. -/
def expandDefault (source : List Char) : List Char :=
  match reference? source with
  | some (content, after) =>
      if content != [] && atEnd after then
        match cut [':', '-'] content with
        | some (name, default) => if default != [] then default else '$' :: '{' :: name ++ ['}']
        | none => source
      else source
  | none => source

def unsafeVolume (form message : String) : String :=
  "Invalid Docker volume definition" ++ form ++ ": " ++ message ++
    " Please use safe path names without shell metacharacters."

/-- A source, unless it passes as a reference. -/
def checkSource (form : String) (isReference : Bool) (source : String) : Except String Unit :=
  if isReference then .ok ()
  else (validateShellSafePath source "volume source").mapError (unsafeVolume form)

def checkTarget (form target : String) : Except String Unit :=
  (validateShellSafePath target "volume target").mapError (unsafeVolume form)

def parseDockerVolumeString (volumeString : String) : Except String DockerVolume := do
  let parts := splitVolume (trim volumeString).toList
  let source := expandDefault parts.source
  checkSource "" (isSimpleEnvVar source || isEnvVarWithPath source) (String.ofList source)
  let target := parts.target.map String.ofList
  target.forM (checkTarget "")
  return { source := String.ofList source, target := target, mode := parts.mode.map String.ofList }

/-! ## validateDockerComposeForInjection -/

/-- The keys and values of an array. -/
def entries : Value → List (String × Value)
  | .list items => items.zipIdx.map fun p => (toString p.2, p.1)
  | .map fields => fields
  | _ => []

/-- What the messages about the long form add. -/
def arraySyntax : String := " (array syntax)"

/-- The text under a key. -/
def textUnder (volume : Value) (key : String) : Option String :=
  (volume.child key).bind Value.asString

def validateLongVolume (volume : Value) : Except String Unit := do
  (textUnder volume "source").forM fun source =>
    let cs := source.toList
    checkSource arraySyntax (isSimpleEnvVar cs || isEnvVarWithDefault cs || isEnvVarWithPath cs)
      source
  (textUnder volume "target").forM (checkTarget arraySyntax)

def validateVolume : Value → Except String Unit
  | .string volume => (parseDockerVolumeString volume).map fun _ => ()
  | volume => if volume.isArray then validateLongVolume volume else .ok ()

/-- The volumes of a service. -/
def serviceVolumes (serviceConfig : Value) : List Value :=
  ((serviceConfig.child "volumes").map entries).getD [] |>.map Prod.snd

def validateService (serviceName : String) (serviceConfig : Value) : Except String Unit := do
  (validateShellSafePath serviceName "service name").mapError fun message =>
    "Invalid Docker Compose service name: " ++ message ++
      " Service names must not contain shell metacharacters."
  forM (serviceVolumes serviceConfig) validateVolume

/-- `parse` is `Yaml::parse`. -/
def validateDockerComposeForInjection (parse : String → Except String Value)
    (composeYaml : String) : Except String Unit := do
  let parsed ← (parse composeYaml).mapError ("Invalid YAML format: " ++ ·)
  match parsed.child "services" with
  | some services =>
      if services.isArray then
        forM (entries services) fun (serviceName, serviceConfig) =>
          validateService serviceName serviceConfig
      else throw "Docker Compose file must contain a \"services\" section"
  | none => throw "Docker Compose file must contain a \"services\" section"

/-! ## What should not get through -/

/-- What makes a command of a text. A reference to a variable is none of it. -/
def forbidden : List String := ["`", "$(", "|", "&", ";", "\n", "\r", "\t", ">", "<"]

def clean (text : String) : Prop := ∀ seq ∈ forbidden, strContains text seq = false

/-- The default of a source that is a reference with one and nothing else. -/
def default? (source : List Char) : Option (List Char) :=
  (reference? source).bind fun (content, after) =>
    if hasDefault content && after == [] then (cut [':', '-'] content).map Prod.snd else none

/-- A source as it will be read: a default takes the place of the reference. -/
def readSource (source : String) : String :=
  (default? source.toList).elim source String.ofList

/-- The volumes of all services. -/
def composeVolumes (compose : Value) : List Value :=
  ((compose.child "services").map entries).getD [] |>.flatMap fun service =>
    serviceVolumes service.2

/-- Source and target of a volume hold no command text. -/
def CleanVolume : Value → Prop
  | .string volume => ∀ v, parseDockerVolumeString volume = .ok v →
      clean v.source ∧ ∀ target, v.target = some target → clean target
  | volume =>
      (∀ source, textUnder volume "source" = some source → clean (readSource source)) ∧
        ∀ target, textUnder volume "target" = some target → clean target

def CleanCompose (compose : Value) : Prop := ∀ volume ∈ composeVolumes compose, CleanVolume volume

/-- A reference with a path, and a line break behind it. -/
def isBroken (cs : List Char) : Bool := isEnvVarWithPath cs && cs.getLast? == some '\n'

/-- Where the checks look: in the short form at no reference with a line break
behind it; in the long form at no default that is not clean, and no line break at
the end. -/
def NoGap : Value → Prop
  | .string volume => isBroken (beforeColon (trim volume).toList) = false
  | volume => ∀ source, textUnder volume "source" = some source →
      (default? source.toList).elim (source.toList.getLast? ≠ some '\n') fun default =>
        clean (String.ofList default)

/-! ## Texts that are clean -/

theorem clean_of_safe {text context : String} (h : validateShellSafePath text context = .ok ()) :
    clean text := by
  unfold validateShellSafePath at h
  split at h
  · cases h
  · next hfind =>
      intro seq hseq
      rw [List.find?_eq_none] at hfind
      have hlisted : ∃ c ∈ dangerousChars, c.1 = seq := by
        revert seq
        decide
      obtain ⟨c, hc, rfl⟩ := hlisted
      simpa using hfind c hc

theorem not_clean_of_newline {text : String} (h : '\n' ∈ text.toList) : ¬ clean text := by
  intro hclean
  have hcontains : strContains text "\n" = true := by
    rw [strContains_iff]
    exact (List.singleton_infix_iff _ _).mpr h
  rw [hclean "\n" (by decide)] at hcontains
  cases hcontains

/-- The characters of a reference with a path. -/
def isReferenceChar (c : Char) : Bool := isPathChar c || c == '$' || c == '{' || c == '}'

theorem clean_of_referenceChars {cs : List Char} (h : ∀ c ∈ cs, isReferenceChar c = true) :
    clean (String.ofList cs) := by
  intro seq hseq
  rw [← Bool.not_eq_true, strContains_iff, String.toList_ofList]
  intro hin
  have hbad : ∀ seq ∈ forbidden, (seq.toList.all isReferenceChar) = false := by decide
  have hall := List.all_eq_true.mpr fun c hc => h c (hin.subset hc)
  rw [hbad seq hseq] at hall
  cases hall

/-! ## References -/

theorem reference?_iff {cs content after : List Char} :
    reference? cs = some (content, after) ↔
      cs = '$' :: '{' :: content ++ '}' :: after ∧ '}' ∉ content := by
  constructor
  · intro h
    unfold reference? at h
    split at h
    · next rest =>
        split at h
        · next c after' hdrop =>
            simp only [Option.some.injEq, Prod.mk.injEq] at h
            obtain ⟨rfl, rfl⟩ := h
            obtain rfl : c = '}' := by
              have := List.head?_dropWhile_not (· != '}') rest
              rw [hdrop] at this
              simpa using this
            refine ⟨?_, fun hmem => ?_⟩
            · rw [List.cons_append, List.cons_append, ← hdrop, List.takeWhile_append_dropWhile]
            · have := List.all_takeWhile (p := (· != '}')) (l := rest)
              rw [List.all_eq_true] at this
              simpa using this _ hmem
        · cases h
    · cases h
  · rintro ⟨rfl, hcontent⟩
    have hall : ∀ c ∈ content, (c != '}') = true := by
      intro c hc
      rw [bne_iff_ne]
      rintro rfl
      exact hcontent hc
    simp only [List.cons_append, reference?]
    rw [List.dropWhile_append_of_pos hall, List.takeWhile_append_of_pos hall]
    simp

theorem atEnd_iff {cs : List Char} : atEnd cs = true ↔ cs = [] ∨ cs = ['\n'] := by
  simp [atEnd]

theorem isEnvVarWithPath_iff {cs : List Char} :
    isEnvVarWithPath cs = true ↔ ∃ name after, reference? cs = some (name, after) ∧
      isName name = true ∧ atEnd (after.dropWhile isPathChar) = true := by
  unfold isEnvVarWithPath
  rw [Option.any_eq_true]
  simp only [Bool.and_eq_true, Prod.exists]

theorem isEnvVarWithPath_of_simple {cs : List Char} (h : isSimpleEnvVar cs = true) :
    isEnvVarWithPath cs = true := by
  unfold isSimpleEnvVar at h
  rw [Option.any_eq_true] at h
  obtain ⟨⟨name, after⟩, href, hboth⟩ := h
  rw [Bool.and_eq_true] at hboth
  refine isEnvVarWithPath_iff.mpr ⟨name, after, href, hboth.1, ?_⟩
  rcases atEnd_iff.mp hboth.2 with rfl | rfl <;> rfl

/-- A reference with a path, piece by piece. -/
theorem envVarWithPath_shape {cs : List Char} (h : isEnvVarWithPath cs = true) :
    ∃ name path tail, cs = '$' :: '{' :: name ++ '}' :: (path ++ tail) ∧
      (∀ c ∈ name, isNameChar c = true) ∧ (∀ c ∈ path, isPathChar c = true) ∧
      (tail = [] ∨ tail = ['\n']) := by
  obtain ⟨name, after, href, hname, hend⟩ := isEnvVarWithPath_iff.mp h
  obtain ⟨rfl, -⟩ := reference?_iff.mp href
  rw [isName, Bool.and_eq_true, List.all_eq_true] at hname
  refine ⟨name, after.takeWhile isPathChar, after.dropWhile isPathChar, ?_, hname.2, ?_,
    atEnd_iff.mp hend⟩
  · rw [List.takeWhile_append_dropWhile]
  · exact List.all_eq_true.mp List.all_takeWhile

theorem isReferenceChar_of_isNameChar {c : Char} (h : isNameChar c = true) :
    isReferenceChar c = true := by
  simp [isReferenceChar, isPathChar, h]

theorem isReferenceChar_of_isPathChar {c : Char} (h : isPathChar c = true) :
    isReferenceChar c = true := by
  simp [isReferenceChar, h]

/-- What the checks let through as a reference is clean but for a line break. -/
theorem clean_reference_iff {cs : List Char} (h : isEnvVarWithPath cs = true) :
    clean (String.ofList cs) ↔ cs.getLast? ≠ some '\n' := by
  obtain ⟨name, path, tail, rfl, hname, hpath, htail⟩ := envVarWithPath_shape h
  rcases htail with rfl | rfl
  · have hchars : ∀ c ∈ '$' :: '{' :: name ++ '}' :: (path ++ []), isReferenceChar c = true := by
      intro c hc
      simp only [List.append_nil, List.cons_append, List.mem_cons, List.mem_append] at hc
      rcases hc with rfl | rfl | hc | rfl | hc
      · decide
      · decide
      · exact isReferenceChar_of_isNameChar (hname c hc)
      · decide
      · exact isReferenceChar_of_isPathChar (hpath c hc)
    refine iff_of_true (clean_of_referenceChars hchars) fun hlast => ?_
    have := hchars '\n' (List.mem_of_getLast? hlast)
    revert this
    decide
  · refine iff_of_false (not_clean_of_newline ?_) (not_not.mpr ?_)
    · simp
    · rw [← List.cons_append, ← List.append_assoc, List.getLast?_concat]

/-- A source that has passed. -/
theorem clean_source_iff {cs : List Char}
    (h : isEnvVarWithPath cs = false →
      validateShellSafePath (String.ofList cs) "volume source" = .ok ()) :
    clean (String.ofList cs) ↔ isBroken cs = false := by
  unfold isBroken
  cases hpath : isEnvVarWithPath cs with
  | false => exact iff_of_true (clean_of_safe (h hpath)) rfl
  | true =>
      rw [clean_reference_iff hpath, Bool.true_and]
      simp

/-! ## The short form -/

theorem isBroken_of_not_reference {cs : List Char} (h : reference? cs = none) :
    isBroken cs = false := by
  simp [isBroken, isEnvVarWithPath, h]

theorem isBroken_of_brace {cs : List Char} (h : cs.getLast? = some '}') : isBroken cs = false := by
  simp [isBroken, h]

theorem isBroken_of_not_isName {cs content after : List Char}
    (href : reference? cs = some (content, after)) (h : isName content = false) :
    isBroken cs = false := by
  simp [isBroken, isEnvVarWithPath, href, h]

theorem reference?_of_not_mem {cs : List Char} (h : '}' ∉ cs) : reference? cs = none := by
  cases href : reference? cs with
  | none => rfl
  | some p =>
      obtain ⟨rfl, -⟩ := reference?_iff.mp href
      exact absurd (by simp) h

theorem cut_eq {sep cs a b : List Char} (h : cut sep cs = some (a, b)) : cs = a ++ sep ++ b := by
  induction cs generalizing a with
  | nil => cases h
  | cons c cs ih =>
      rw [cut] at h
      split at h
      · next hpre =>
          simp only [Option.some.injEq, Prod.mk.injEq] at h
          obtain ⟨rfl, rfl⟩ := h
          rw [List.nil_append]
          exact (List.prefix_iff_eq_append.mp (List.isPrefixOf_iff_prefix.mp hpre)).symm
      · obtain ⟨⟨a', b'⟩, hcut, hp⟩ := Option.map_eq_some_iff.mp h
        simp only [Prod.mk.injEq] at hp
        obtain ⟨rfl, rfl⟩ := hp
        rw [ih hcut]
        rfl

/-- No name holds a colon. -/
theorem not_isName_of_colon {content : List Char} (h : ':' ∈ content) : isName content = false := by
  rw [← Bool.not_eq_true, isName, Bool.and_eq_true, List.all_eq_true]
  intro hname
  have := hname.2 ':' h
  revert this
  decide

theorem colon_mem_of_hasDefault {content : List Char} (h : hasDefault content = true) :
    ':' ∈ content := by
  obtain ⟨⟨a, b⟩, hcut⟩ := Option.isSome_iff_exists.mp h
  have htail : ':' ∈ content.tail := by
    rw [cut_eq hcut]
    simp
  exact List.mem_of_mem_tail htail

/-- Taking the default changes nothing about it. -/
theorem isBroken_expandDefault (source : List Char) :
    isBroken (expandDefault source) = isBroken source := by
  unfold expandDefault
  cases href : reference? source with
  | none => rfl
  | some p =>
      obtain ⟨content, after⟩ := p
      obtain ⟨-, hbrace⟩ := reference?_iff.mp href
      dsimp only
      split
      · split
        · next name default hcut =>
            have hcontent := cut_eq hcut
            have hcolon : ':' ∈ content := by simp [hcontent]
            rw [isBroken_of_not_isName href (not_isName_of_colon hcolon)]
            split
            · refine isBroken_of_not_reference (reference?_of_not_mem fun hmem => hbrace ?_)
              rw [hcontent]
              exact List.mem_append_right _ hmem
            · exact isBroken_of_brace List.getLast?_concat
        · rfl
      · rfl

theorem beforeColon_of_count {cs : List Char} (h : cs.count ':' = 0) : beforeColon cs = cs := by
  have hall : ∀ c ∈ cs, (c != ':') = true := by
    intro c hc
    rw [bne_iff_ne]
    rintro rfl
    exact absurd hc (List.count_eq_zero.mp h)
  rw [beforeColon, ← List.append_nil cs, List.takeWhile_append_of_pos hall, List.takeWhile_nil]

theorem isBroken_of_isWindowsPath {cs rest : List Char} (h : isWindowsPath cs = true) :
    isBroken (cs.take 2 ++ rest) = false ∧ isBroken (beforeColon cs) = false := by
  unfold isWindowsPath at h
  split at h
  · next c rest' =>
      constructor
      · refine isBroken_of_not_reference ?_
        rw [List.take_succ_cons, List.take_succ_cons, List.cons_append]
        unfold reference?
        split
        · next heq => cases heq
        · rfl
      · have hcolon : (c != ':') = true := by
          rw [bne_iff_ne]
          rintro rfl
          revert h
          decide
        refine isBroken_of_not_reference (reference?_of_not_mem ?_)
        rw [beforeColon, List.takeWhile_cons_of_pos (p := (· != ':')) hcolon,
          List.takeWhile_cons_of_neg (by simp), List.mem_singleton]
        rintro rfl
        revert h
        decide
  · cases h

theorem isBroken_splitAtColons (cs : List Char) (colonCount : Nat) :
    isBroken (splitAtColons cs colonCount).source = isBroken (beforeColon cs) := by
  unfold splitAtColons
  split
  · next hwindows =>
      obtain ⟨-, hbefore⟩ :
          isBroken (cs.take 2 ++ []) = false ∧ isBroken (beforeColon cs) = false :=
        isBroken_of_isWindowsPath hwindows
      rw [hbefore]
      unfold splitWindows
      dsimp only
      split
      · exact (isBroken_of_isWindowsPath hwindows).1
      · exact (isBroken_of_isWindowsPath hwindows).1
  · rfl

/-- Behind a reference with a default nothing is broken. -/
theorem isBroken_of_envVarWithDefault {cs source remaining : List Char}
    (h : envVarWithDefault? cs = some (source, remaining)) :
    isBroken cs = false ∧ isBroken source = false ∧ isBroken (beforeColon cs) = false := by
  obtain ⟨⟨content, after⟩, href, hp⟩ := Option.bind_eq_some_iff.mp h
  obtain ⟨hcs, hbrace⟩ := reference?_iff.mp href
  dsimp only at hp
  split at hp
  · next hdefault =>
      cases hp
      have hcolon := colon_mem_of_hasDefault hdefault
      refine ⟨isBroken_of_not_isName href (not_isName_of_colon hcolon),
        isBroken_of_brace List.getLast?_concat, ?_⟩
      refine isBroken_of_not_reference (reference?_of_not_mem ?_)
      -- the first colon stands in the braces
      have hshort : (content.takeWhile (· != ':')).length ≠ content.length := by
        intro hlen
        have hsame := List.IsPrefix.eq_of_length (List.takeWhile_prefix _) hlen
        have hall := List.all_takeWhile (p := (· != ':')) (l := content)
        rw [hsame, List.all_eq_true] at hall
        simpa using hall ':' hcolon
      have hbefore : beforeColon cs = '$' :: '{' :: content.takeWhile (· != ':') := by
        rw [hcs, beforeColon, List.cons_append, List.cons_append,
          List.takeWhile_cons_of_pos (by decide), List.takeWhile_cons_of_pos (by decide),
          List.takeWhile_append, if_neg hshort]
      rw [hbefore]
      simp only [List.mem_cons, not_or]
      exact ⟨by decide, by decide, fun hmem => hbrace ((List.takeWhile_prefix _).subset hmem)⟩
  · cases hp

/-- The source is broken where the text before the first colon is. -/
theorem isBroken_splitVolume (cs : List Char) :
    isBroken (splitVolume cs).source = isBroken (beforeColon cs) := by
  unfold splitVolume
  cases henv : envVarWithDefault? cs with
  | some p =>
      obtain ⟨source, remaining⟩ := p
      obtain ⟨hwhole, hsource, hbefore⟩ := isBroken_of_envVarWithDefault henv
      dsimp only
      split
      · rw [hbefore]
        unfold splitAfterEnvVar
        split
        · exact hwhole
        · exact hsource
        · split
          · exact hsource
          · exact hsource
      · exact isBroken_splitAtColons cs _
  | none =>
      dsimp only
      split
      · next hcount => rw [beforeColon_of_count hcount]
      · rfl
      · exact isBroken_splitAtColons cs _

theorem safe_of_checkSource {form source : String} {isReference : Bool}
    (h : checkSource form isReference source = .ok ()) (hreference : isReference = false) :
    validateShellSafePath source "volume source" = .ok () := by
  rw [checkSource, hreference, if_neg Bool.false_ne_true] at h
  exact mapError_eq_ok.mp h

theorem clean_of_checkTarget {form target : String} (h : checkTarget form target = .ok ()) :
    clean target :=
  clean_of_safe (mapError_eq_ok.mp h)

/-- What a short form has passed. -/
theorem parseDockerVolumeString_ok {volumeString : String} {v : DockerVolume}
    (h : parseDockerVolumeString volumeString = .ok v) :
    let parts := splitVolume (trim volumeString).toList
    let source := expandDefault parts.source
    v = ⟨String.ofList source, parts.target.map String.ofList, parts.mode.map String.ofList⟩ ∧
      checkSource "" (isSimpleEnvVar source || isEnvVarWithPath source) (String.ofList source) =
        .ok () ∧
      ∀ target, v.target = some target → checkTarget "" target = .ok () := by
  unfold parseDockerVolumeString at h
  generalize splitVolume (trim volumeString).toList = parts at h ⊢
  obtain ⟨_, hsource, h⟩ := bind_eq_ok.mp h
  obtain ⟨_, htarget, h⟩ := bind_eq_ok.mp h
  obtain rfl := Except.ok.inj h
  exact ⟨rfl, hsource, option_forM_eq_ok.mp htarget⟩

/-- A short form that is accepted is clean where it has no gap. -/
theorem cleanVolume_short {volumeString : String} {v : DockerVolume}
    (h : parseDockerVolumeString volumeString = .ok v) :
    CleanVolume (.string volumeString) ↔ NoGap (.string volumeString) := by
  obtain ⟨hv, hsource, htarget⟩ := parseDockerVolumeString_ok h
  have hclean : clean v.source ↔ NoGap (.string volumeString) := by
    rw [NoGap, congrArg DockerVolume.source hv, ← isBroken_splitVolume, ← isBroken_expandDefault]
    refine clean_source_iff fun hpath => safe_of_checkSource hsource ?_
    rw [hpath, Bool.or_false, ← Bool.not_eq_true]
    intro hsimple
    rw [isEnvVarWithPath_of_simple hsimple] at hpath
    cases hpath
  rw [← hclean]
  constructor
  · exact fun hvolume => (hvolume v h).1
  · intro hcleaned w hw
    obtain rfl : v = w := Except.ok.inj (h.symm.trans hw)
    exact ⟨hcleaned, fun target ht => clean_of_checkTarget (htarget target ht)⟩

/-! ## The long form -/

theorem isEnvVarWithDefault_iff {cs : List Char} :
    isEnvVarWithDefault cs = true ↔ ∃ content after, reference? cs = some (content, after) ∧
      hasDefault content = true ∧ atEnd after = true := by
  unfold isEnvVarWithDefault
  rw [Option.any_eq_true]
  simp only [Bool.and_eq_true, Prod.exists]

theorem cut_isSome_of_tail {sep content : List Char} (h : (cut sep content.tail).isSome = true) :
    (cut sep content).isSome = true := by
  cases content with
  | nil => cases h
  | cons c cs =>
      rw [cut]
      split
      · rfl
      · rwa [Option.isSome_map]

/-- A source of a long form that has passed. -/
theorem clean_readSource_iff {source : String}
    (h : isEnvVarWithDefault source.toList = false → isEnvVarWithPath source.toList = false →
      validateShellSafePath source "volume source" = .ok ()) :
    clean (readSource source) ↔
      (default? source.toList).elim (source.toList.getLast? ≠ some '\n') fun default =>
        clean (String.ofList default) := by
  rw [readSource]
  cases hdefault : default? source.toList with
  | some default => rfl
  | none =>
      rw [Option.elim_none, Option.elim_none]
      cases henv : isEnvVarWithDefault source.toList with
      | true =>
          obtain ⟨content, after, href, hcontent, hend⟩ := isEnvVarWithDefault_iff.mp henv
          -- without a line break behind it there would be a default
          have hafter : after = ['\n'] := by
            rcases atEnd_iff.mp hend with rfl | hnewline
            · have hcut := Option.map_eq_none_iff.mp (by
                simpa [default?, href, hcontent] using hdefault :
                  (cut [':', '-'] content).map Prod.snd = none)
              have := cut_isSome_of_tail hcontent
              rw [hcut] at this
              cases this
            · exact hnewline
          have hlast : source.toList.getLast? = some '\n' := by
            have hsplit : '$' :: '{' :: content ++ ['}', '\n'] =
                ('$' :: '{' :: content ++ ['}']) ++ ['\n'] := by simp
            rw [(reference?_iff.mp href).1, hafter, hsplit, List.getLast?_concat]
          exact iff_of_false (not_clean_of_newline (List.mem_of_getLast? hlast))
            (not_not.mpr hlast)
      | false =>
          cases hpath : isEnvVarWithPath source.toList with
          | true =>
              have := clean_reference_iff hpath
              rwa [String.ofList_toList] at this
          | false =>
              have hclean := clean_of_safe (h henv hpath)
              exact iff_of_true hclean fun hlast =>
                not_clean_of_newline (List.mem_of_getLast? hlast) hclean

/-- A long form that is accepted is clean where it has no gap. -/
theorem cleanVolume_long {volume : Value} (hform : volume.isArray = true)
    (h : validateLongVolume volume = .ok ()) : CleanVolume volume ↔ NoGap volume := by
  obtain ⟨_, hsource, htarget⟩ := bind_eq_ok.mp h
  rw [option_forM_eq_ok] at hsource htarget
  have hclean : (∀ source, textUnder volume "source" = some source → clean (readSource source)) ↔
      ∀ source, textUnder volume "source" = some source →
        (default? source.toList).elim (source.toList.getLast? ≠ some '\n') fun default =>
          clean (String.ofList default) := by
    refine forall₂_congr fun source hs => clean_readSource_iff fun henv hpath => ?_
    refine safe_of_checkSource (hsource source hs) ?_
    rw [henv, hpath, Bool.or_false, Bool.or_false, ← Bool.not_eq_true]
    intro hsimple
    rw [isEnvVarWithPath_of_simple hsimple] at hpath
    cases hpath
  have htargets : ∀ target, textUnder volume "target" = some target → clean target :=
    fun target ht => clean_of_checkTarget (htarget target ht)
  cases volume with
  | list items => exact (and_iff_left htargets).trans hclean
  | map fields => exact (and_iff_left htargets).trans hclean
  | null | bool b | int n | float text | string text => cases hform

/-! ## The document -/

theorem cleanVolume_iff {volume : Value} (h : validateVolume volume = .ok ()) :
    CleanVolume volume ↔ NoGap volume := by
  cases volume with
  | string text =>
      obtain ⟨v, hv⟩ : ∃ v, parseDockerVolumeString text = .ok v := by
        rw [validateVolume] at h
        cases hparse : parseDockerVolumeString text with
        | error e => rw [hparse] at h; cases h
        | ok v => exact ⟨v, rfl⟩
      exact cleanVolume_short hv
  | list items => exact cleanVolume_long rfl h
  | map fields => exact cleanVolume_long rfl h
  | null | bool b | int n | float text =>
      refine iff_of_true ⟨?_, ?_⟩ ?_ <;> (intro _ hs; cases hs)

/-- Every volume of an accepted document has been checked. -/
theorem validateVolume_of_accepted {parse : String → Except String Value} {composeYaml : String}
    {compose volume : Value}
    (h : validateDockerComposeForInjection parse composeYaml = .ok ())
    (hparse : parse composeYaml = .ok compose) (hvolume : volume ∈ composeVolumes compose) :
    validateVolume volume = .ok () := by
  obtain ⟨parsed, hparsed, h⟩ := bind_eq_ok.mp h
  obtain rfl : compose = parsed := Except.ok.inj (hparse.symm.trans (mapError_eq_ok.mp hparsed))
  unfold composeVolumes at hvolume
  cases hservices : compose.child "services" with
  | none => rw [hservices] at h; cases h
  | some services =>
      rw [hservices] at h hvolume
      dsimp only at h
      split at h
      · obtain ⟨service, hservice, hmem⟩ := List.mem_flatMap.mp hvolume
        obtain ⟨_, -, hvolumes⟩ := bind_eq_ok.mp (list_forM_eq_ok.mp h service hservice)
        exact list_forM_eq_ok.mp hvolumes volume hmem
      · cases h

/-- In a compose document that is accepted there is no command text exactly
where its volumes have no gap. -/
theorem accepted_compose_clean_iff {parse : String → Except String Value} {composeYaml : String}
    {compose : Value} (h : validateDockerComposeForInjection parse composeYaml = .ok ())
    (hparse : parse composeYaml = .ok compose) :
    CleanCompose compose ↔ ∀ volume ∈ composeVolumes compose, NoGap volume :=
  forall₂_congr fun _ hvolume => cleanVolume_iff (validateVolume_of_accepted h hparse hvolume)

/-! ### Two files -/

/-- A compose file with one service and one volume. -/
def composeWith (volume : Value) : Value :=
  .map [("services", .map [("app", .map [("volumes", .list [volume])])])]

def withVolume (volume : Value) : String → Except String Value := fun _ => .ok (composeWith volume)

/-- A reference with an ordinary default. -/
theorem plain_default_clean :
    CleanCompose (composeWith (.string "$\x7bDATA:-./data\x7d:/data:ro")) := by
  refine (@accepted_compose_clean_iff (withVolume _) "" _ (eq_ok_of_toOption (by decide +kernel))
    rfl).mpr ?_
  intro volume hvolume
  obtain rfl := List.mem_singleton.mp hvolume
  show isBroken _ = false
  decide +kernel

/-- A bind with a command in the default of its source. -/
def commandInDefault : Value :=
  .map [("type", .string "bind"), ("source", .string "$\x7bDATA:-/tmp;reboot\x7d"),
    ("target", .string "/data")]

/-- A line break behind a reference. -/
def lineBehindReference : Value := .string "$\x7bDATA\x7d\n:/data"

theorem command_text_accepted :
    (validateDockerComposeForInjection (withVolume commandInDefault) "" = .ok () ∧
      ¬ CleanCompose (composeWith commandInDefault)) ∧
    (validateDockerComposeForInjection (withVolume lineBehindReference) "" = .ok () ∧
      ¬ CleanCompose (composeWith lineBehindReference)) := by
  refine ⟨⟨eq_ok_of_toOption (by decide +kernel), fun h => ?_⟩,
    ⟨eq_ok_of_toOption (by decide +kernel), fun h => ?_⟩⟩
  · have hclean := (h commandInDefault (List.mem_singleton_self _)).1
      "$\x7bDATA:-/tmp;reboot\x7d" rfl ";" (by decide)
    revert hclean
    decide +kernel
  · have hclean := (h lineBehindReference (List.mem_singleton_self _)
      (DockerVolume.mk "$\x7bDATA\x7d\n" (some "/data") none)
      (eq_ok_of_toOption (by decide +kernel))).1 "\n" (by decide)
    revert hclean
    decide +kernel

end OnePloy
