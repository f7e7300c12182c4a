import OnePloy.ComposeParser
import Mathlib.Data.List.TakeWhile

/-!
# Volumes as they are written and as they are read

The entries under the volumes of a service, short and long, and what Docker
Compose reads in such a text: fields with colons between them, where a colon in a
reference or behind the letter of a drive ends none.

An entry is read as the mount it stands for (`Entry.readVolume_value`), and so is
every text in which another field has taken the place of the source; whatever the
parser puts there is one (`isField_replaceLocalSource`, `isField_volumeName`).
-/

namespace OnePloy

open Conc Php

/-! ## As Docker Compose reads them -/

structure Mount where
  target : List Char
  readOnly : Bool
  deriving DecidableEq

/-- What a field may begin with although there is a colon in it: a reference or
the letter of a drive. -/
def splitFront (cs : List Char) : List Char × List Char :=
  match reference? cs with
  | some (content, after) => ('$' :: '{' :: content ++ ['}'], after)
  | none => if isWindowsPath cs then (cs.take 2, cs.drop 2) else ([], cs)

/-- The first field, and the text behind the colon that ends it. -/
def field? (cs : List Char) : Option (List Char × Option (List Char)) :=
  let parts := splitFront cs
  let field := parts.1 ++ beforeColon parts.2
  if field = [] then none
  else some (field, if ':' ∈ parts.2 then some (afterColon parts.2) else none)

/-- The last of the options that says something about access. -/
def readsOnly (options : List Char) : Bool :=
  (pieces ',' options).foldl (fun readOnly option =>
    if option = ['r', 'o'] then true else if option = ['r', 'w'] then false else readOnly) false

/-- `target[:options]`. -/
def readTarget (text : List Char) : Option Mount :=
  match field? text with
  | none => none
  | some (target, none) => some ⟨target, false⟩
  | some (target, some rest) =>
      match field? rest with
      | some (options, none) => some ⟨target, readsOnly options⟩
      | _ => none

/-- `[source:]target[:options]`. -/
def readShort (text : List Char) : Option Mount :=
  match field? text with
  | none => none
  | some (target, none) => some ⟨target, false⟩
  | some (_, some rest) => readTarget rest

def readAccess : Option Value → Option Bool
  | none => some false
  | some (.bool readOnly) => some readOnly
  | some _ => none

def readVolume : Value → Option Mount
  | .string text => readShort text.toList
  | .map fields =>
      ((fields.lookup "target").bind Value.asString).bind fun target =>
        (readAccess (fields.lookup "read_only")).map fun readOnly => ⟨target.toList, readOnly⟩
  | _ => none

def readVolumes : Value → Option (List Mount)
  | .list volumes => volumes.mapM readVolume
  | _ => none

/-! ## As they are written -/

/-- The letter of a drive, where a colon follows. -/
def isLetter (cs : List Char) : Bool := cs.head?.any Char.isAlpha && cs.tail == []

/-- The letter of a drive, or its root. -/
def isDrive (cs : List Char) : Bool := isLetter cs || isLetter cs.dropLast && cs.tail == ['/']

/-- Text without a colon; a reference it begins with is closed. -/
structure IsPlain (cs : List Char) : Prop where
  ne_nil : cs ≠ []
  colon : ':' ∉ cs
  closed : ['$', '{'] <+: cs → '}' ∈ cs

/-- Nothing to trim on either side. -/
structure IsTrim (cs : List Char) : Prop where
  head : ∀ c, cs.head? = some c → isTrimmed c = false
  last : ∀ c, cs.getLast? = some c → isTrimmed c = false

inductive MountSource
  | plain (text : List Char)
  /-- `${name:-default}`, and what follows it. -/
  | defaulted (name default path : List Char)

namespace MountSource

def chars : MountSource → List Char
  | plain text => text
  | defaulted name default path => '$' :: '{' :: (name ++ ':' :: '-' :: default) ++ '}' :: path

def WellFormed : MountSource → Prop
  | plain text => IsPlain text ∧ isDrive text = false ∧ IsTrim text
  | defaulted name default path =>
      isName name = true ∧ (':' ∉ default ∧ '}' ∉ default) ∧ ':' ∉ path

/-- What stands behind a default. -/
def path : MountSource → List Char
  | plain _ => []
  | defaulted _ _ path => path

end MountSource

inductive Entry
  | anonymous (target : List Char)
  | short (source : MountSource) (target : List Char) (options : Option (List Char))
  | longBind (source : MountSource) (target : List Char) (readOnly : Option Bool)
      (others : List (String × Value))
  | longVolume (source : MountSource) (target : List Char) (readOnly : Option Bool)
      (others : List (String × Value))

namespace Entry

/-- `source:target[:options]`. -/
def shortText (source target : List Char) (options : Option (List Char)) : List Char :=
  source ++ ':' :: target ++ options.elim [] (':' :: ·)

def longFields (kind : String) (source target : List Char) (readOnly : Option Bool)
    (others : List (String × Value)) : List (String × Value) :=
  ("type", .string kind) :: ("source", .string (String.ofList source)) ::
    ("target", .string (String.ofList target)) ::
    (readOnly.toList.map fun readOnly => ("read_only", Value.bool readOnly)) ++ others

def value : Entry → Value
  | anonymous target => .string (String.ofList target)
  | short source target options => .string (String.ofList (shortText source.chars target options))
  | longBind source target readOnly others =>
      .map (longFields "bind" source.chars target readOnly others)
  | longVolume source target readOnly others =>
      .map (longFields "volume" source.chars target readOnly others)

def mount : Entry → Mount
  | anonymous target => ⟨target, false⟩
  | short _ target options => ⟨target, options.elim false readsOnly⟩
  | longBind _ target readOnly _ => ⟨target, readOnly.getD false⟩
  | longVolume _ target readOnly _ => ⟨target, readOnly.getD false⟩

/-- What is written in the place of a target. -/
def TargetFormed (target : List Char) : Prop :=
  IsPlain target ∧ isLetter target = false ∧ IsTrim target

def WellFormed : Entry → Prop
  | anonymous target => IsPlain target ∧ IsTrim target
  | short source target options => source.WellFormed ∧ TargetFormed target ∧
      ∀ o, options = some o → IsPlain o ∧ IsTrim o
  | longBind source target _ others | longVolume source target _ others =>
      source.WellFormed ∧ TargetFormed target ∧ ∀ field ∈ others, field.1 ≠ "read_only"

end Entry

/-! ## Fields -/

/-- A text that is read as one field where a colon follows. -/
def IsField (cs : List Char) : Prop := ∀ rest, field? (cs ++ ':' :: rest) = some (cs, some rest)

theorem beforeColon_append {cs : List Char} (h : ':' ∉ cs) (rest : List Char) :
    beforeColon (cs ++ ':' :: rest) = cs := by
  have hall : ∀ c ∈ cs, (c != ':') = true := by
    intro c hc
    rw [bne_iff_ne]
    rintro rfl
    exact h hc
  rw [beforeColon, List.takeWhile_append_of_pos hall, List.takeWhile_cons_of_neg (by simp),
    List.append_nil]

theorem afterColon_append {cs : List Char} (h : ':' ∉ cs) (rest : List Char) :
    afterColon (cs ++ ':' :: rest) = rest := by
  have hall : ∀ c ∈ cs, (c != ':') = true := by
    intro c hc
    rw [bne_iff_ne]
    rintro rfl
    exact h hc
  rw [afterColon, List.dropWhile_append_of_pos hall, List.dropWhile_cons_of_neg (by simp),
    List.tail_cons]

theorem reference?_none_of_not_closed {cs : List Char} (h : ¬ ['$', '{'] <+: cs) :
    reference? cs = none := by
  cases href : reference? cs with
  | none => rfl
  | some p =>
      obtain ⟨hcs, -⟩ := reference?_iff.mp href
      exact absurd ⟨_, hcs.symm⟩ h

/-- A colon behind plain text changes nothing about the reference in it. -/
theorem reference?_append {cs : List Char} (h : IsPlain cs) (rest : List Char) :
    reference? (cs ++ ':' :: rest) =
      (reference? cs).map fun p => (p.1, p.2 ++ ':' :: rest) := by
  cases href : reference? cs with
  | some p =>
      obtain ⟨content, after⟩ := p
      obtain ⟨rfl, hcontent⟩ := reference?_iff.mp href
      exact reference?_iff.mpr ⟨by simp, hcontent⟩
  | none =>
      refine reference?_none_of_not_closed fun hpre => ?_
      have hstart : ['$', '{'] <+: cs := by
        obtain ⟨t, ht⟩ := hpre
        match cs, h.ne_nil with
        | [c], _ => simp at ht
        | c :: d :: cs, _ =>
            simp only [List.cons_append, List.cons.injEq] at ht
            obtain ⟨rfl, rfl, -⟩ := ht
            exact ⟨cs, rfl⟩
      obtain ⟨after, rfl⟩ := hstart
      have hbrace : '}' ∈ after := by simpa using h.closed ⟨after, rfl⟩
      simp only [List.cons_append, List.nil_append, reference?] at href
      split at href
      · cases href
      · next hdrop =>
          rw [List.dropWhile_eq_nil_iff] at hdrop
          simpa using hdrop '}' hbrace

theorem field?_of_split {cs rest : List Char} (front back : List Char) (hcs : cs = front ++ back)
    (hne : cs ≠ []) (hcolon : ':' ∉ back)
    (hsplit : splitFront (cs ++ ':' :: rest) = (front, back ++ ':' :: rest)) :
    field? (cs ++ ':' :: rest) = some (cs, some rest) := by
  rw [field?, hsplit]
  dsimp only
  rw [beforeColon_append hcolon, afterColon_append hcolon, ← hcs, if_neg hne, if_pos (by simp)]

theorem isWindowsPath_append {cs : List Char} (hne : cs ≠ []) (hcolon : ':' ∉ cs)
    (hletter : isLetter cs = false) (rest : List Char) :
    isWindowsPath (cs ++ ':' :: rest) = false := by
  match cs, hne with
  | [c], _ => simpa [isWindowsPath, isLetter] using hletter
  | c :: d :: cs, _ =>
      have hd : d ≠ ':' := by
        rintro rfl
        simp at hcolon
      simp [isWindowsPath, hd]

theorem isField_of_plain {cs : List Char} (h : IsPlain cs) (hletter : isLetter cs = false) :
    IsField cs := by
  intro rest
  cases href : reference? cs with
  | some p =>
      obtain ⟨content, after⟩ := p
      have hcs := (reference?_iff.mp href).1
      refine field?_of_split ('$' :: '{' :: content ++ ['}']) after (by rw [hcs]; simp)
        h.ne_nil (fun hmem => h.colon ?_) ?_
      · rw [hcs]
        simp [hmem]
      · rw [splitFront, reference?_append h, href, Option.map_some]
  | none =>
      refine field?_of_split [] cs rfl h.ne_nil h.colon ?_
      rw [splitFront, reference?_append h, href, Option.map_none]
      dsimp only
      rw [isWindowsPath_append h.ne_nil h.colon hletter, if_neg Bool.false_ne_true]

/-- A reference with a default, and text without a colon. -/
theorem isField_of_reference {content path : List Char} (hcontent : '}' ∉ content)
    (hpath : ':' ∉ path) : IsField ('$' :: '{' :: content ++ '}' :: path) := by
  intro rest
  refine field?_of_split ('$' :: '{' :: content ++ ['}']) path (by simp) (by simp)
    hpath ?_
  have href : reference? ('$' :: '{' :: content ++ '}' :: path ++ ':' :: rest) =
      some (content, path ++ ':' :: rest) := reference?_iff.mpr ⟨by simp, hcontent⟩
  rw [splitFront, href]

/-- Plain text to the end. -/
theorem field?_end {cs : List Char} (h : IsPlain cs) : field? cs = some (cs, none) := by
  cases href : reference? cs with
  | some p =>
      obtain ⟨content, after⟩ := p
      have hcs := (reference?_iff.mp href).1
      have hafter : ':' ∉ after := by
        intro hmem
        refine h.colon ?_
        rw [hcs]
        simp [hmem]
      rw [field?, splitFront, href]
      dsimp only
      rw [beforeColon_of_count (List.count_eq_zero.mpr hafter), if_neg hafter]
      rw [hcs]
      simp
  | none =>
      have hwindows : isWindowsPath cs = false := by
        cases hw : isWindowsPath cs with
        | false => rfl
        | true =>
            unfold isWindowsPath at hw
            split at hw
            · exact absurd (by simp) h.colon
            · cases hw
      rw [field?, splitFront, href]
      dsimp only
      rw [hwindows, if_neg Bool.false_ne_true]
      dsimp only
      rw [beforeColon_of_count (List.count_eq_zero.mpr h.colon), if_neg h.colon, List.nil_append,
        if_neg h.ne_nil]

theorem readShort_one {target : List Char} (h : IsPlain target) :
    readShort target = some ⟨target, false⟩ := by
  rw [readShort, field?_end h]

theorem readShort_two {source target : List Char} (hs : IsField source) (ht : IsPlain target) :
    readShort (source ++ ':' :: target) = some ⟨target, false⟩ := by
  rw [readShort, hs target]
  dsimp only
  rw [readTarget, field?_end ht]

theorem readShort_three {source target options : List Char} (hs : IsField source)
    (ht : IsField target) (ho : IsPlain options) :
    readShort (source ++ ':' :: target ++ ':' :: options) =
      some ⟨target, readsOnly options⟩ := by
  rw [List.append_assoc, List.cons_append, readShort, hs]
  dsimp only
  rw [readTarget, ht]
  dsimp only
  rw [field?_end ho]

/-- `source:target[:options]` is read as it is written. -/
theorem readShort_shortText {source target : List Char} {options : Option (List Char)}
    (hs : IsField source) (ht : IsPlain target) (hletter : isLetter target = false)
    (ho : ∀ o, options = some o → IsPlain o) :
    readShort (Entry.shortText source target options) =
      some ⟨target, options.elim false readsOnly⟩ := by
  cases options with
  | none =>
      rw [Entry.shortText, Option.elim_none, List.append_nil]
      exact readShort_two hs ht
  | some o =>
      rw [Entry.shortText, Option.elim_some]
      exact readShort_three hs (isField_of_plain ht hletter) (ho o rfl)

/-! ## Sources that are written -/

theorem isLetter_of_isDrive {cs : List Char} (h : isDrive cs = false) : isLetter cs = false :=
  (Bool.or_eq_false_iff.mp h).1

theorem not_mem_reference {name default : List Char} (hname : isName name = true)
    (hdefault : '}' ∉ default) : '}' ∉ name ++ ':' :: '-' :: default := by
  intro hmem
  rcases List.mem_append.mp hmem with hn | hd
  · rw [isName, Bool.and_eq_true, List.all_eq_true] at hname
    have := hname.2 '}' hn
    revert this
    decide
  · simp only [List.mem_cons] at hd
    rcases hd with hd | hd | hd
    · cases hd
    · cases hd
    · exact hdefault hd

theorem isField_chars {source : MountSource} (h : source.WellFormed) : IsField source.chars := by
  cases source with
  | plain text => exact isField_of_plain h.1 (isLetter_of_isDrive h.2.1)
  | defaulted name default path =>
      exact isField_of_reference (not_mem_reference h.1 h.2.1.2) h.2.2

/-! ## Entries as they are written -/

theorem lookup_forgotten {fields : List (String × Value)} {key : String}
    (h : ["content", "is_directory", "isDirectory"].contains key = false) :
    (fields.filter fun field =>
      !(["content", "is_directory", "isDirectory"].contains field.1)).lookup key =
        fields.lookup key := by
  induction fields with
  | nil => rfl
  | cons field fields ih =>
      obtain ⟨name, value⟩ := field
      by_cases hname : key = name
      · subst hname
        rw [List.filter_cons_of_pos (by simpa using h), List.lookup_cons_self,
          List.lookup_cons_self]
      · have hne : (key == name) = false := beq_eq_false_iff_ne.mpr hname
        rw [List.lookup_cons, hne, ← ih, List.filter_cons]
        split
        · rw [List.lookup_cons, hne]
        · rfl

/-- What is forgotten is not read. -/
theorem readVolume_forgetContent (volume : Value) :
    readVolume (forgetContent volume) = readVolume volume := by
  cases volume with
  | map fields =>
      rw [forgetContent, readVolume, readVolume, lookup_forgotten (by decide),
        lookup_forgotten (by decide)]
  | null | bool _ | int _ | float _ | string _ | list _ => rfl

theorem lookup_putField (fields : List (String × Value)) (key key' : String) (value : Value) :
    (putField fields key value).lookup key' =
      if key' = key then some value else fields.lookup key' := by
  induction fields with
  | nil =>
      rw [putField, List.lookup_cons]
      split
      · next h => rw [if_pos (beq_iff_eq.mp h)]
      · next h => rw [if_neg (by simpa using h)]
  | cons field fields ih =>
      obtain ⟨name, old⟩ := field
      rw [putField]
      split
      · next hname =>
          obtain rfl : name = key := beq_iff_eq.mp hname
          rw [List.lookup_cons, List.lookup_cons]
          split
          · next h => rw [if_pos (beq_iff_eq.mp h)]
          · next h => rw [if_neg (by simpa using h)]
      · next hname =>
          have hne : name ≠ key := by simpa using hname
          rw [List.lookup_cons, List.lookup_cons, ih]
          split
          · next h =>
              obtain rfl : key' = name := beq_iff_eq.mp h
              rw [if_neg hne]
          · rfl

theorem readVolume_setField {fields : List (String × Value)} {source : Value} :
    readVolume (setField (.map fields) "source" source) = readVolume (.map fields) := by
  rw [setField, readVolume, readVolume, lookup_putField, lookup_putField,
    if_neg (by decide), if_neg (by decide)]

namespace Entry

theorem lookup_others {others : List (String × Value)} {key : String}
    (h : ∀ field ∈ others, field.1 ≠ key) : others.lookup key = none := by
  rw [List.lookup_eq_none_iff]
  intro field hfield
  exact bne_iff_ne.mpr (h field hfield).symm

theorem readVolume_longFields {kind : String} {source target : List Char}
    {readOnly : Option Bool} {others : List (String × Value)}
    (h : ∀ field ∈ others, field.1 ≠ "read_only") :
    readVolume (.map (longFields kind source target readOnly others)) =
      some ⟨target, readOnly.getD false⟩ := by
  have htarget : (longFields kind source target readOnly others).lookup "target" =
      some (.string (String.ofList target)) := rfl
  have haccess : (longFields kind source target readOnly others).lookup "read_only" =
      readOnly.map Value.bool := by
    cases readOnly with
    | none =>
        have hothers : others.lookup "read_only" = none := lookup_others h
        exact hothers
    | some readOnly => rfl
  rw [readVolume, htarget, haccess]
  cases readOnly <;> simp [Value.asString, readAccess]

/-- What Docker Compose reads in an entry is its mount. -/
theorem readVolume_value {entry : Entry} (h : entry.WellFormed) :
    readVolume entry.value = some entry.mount := by
  cases entry with
  | anonymous target =>
      rw [value, readVolume, String.toList_ofList]
      exact readShort_one h.1
  | short source target options =>
      obtain ⟨hsource, ⟨htarget, hletter, -⟩, hoptions⟩ := h
      rw [value, readVolume, String.toList_ofList]
      exact readShort_shortText (isField_chars hsource) htarget hletter
        fun o ho => (hoptions o ho).1
  | longBind source target readOnly others => exact readVolume_longFields h.2.2
  | longVolume source target readOnly others => exact readVolume_longFields h.2.2

end Entry

/-! ## Sources that are put in their place -/

theorem isPlain_of_head {c : Char} {cs : List Char} (hc : c ≠ '$') (h : ':' ∉ c :: cs) :
    IsPlain (c :: cs) where
  ne_nil := List.cons_ne_nil c cs
  colon := h
  closed := fun ⟨_, ht⟩ => absurd (List.cons.inj ht).1.symm hc

theorem isDrive_of_head {c : Char} (hc : c.isAlpha = false) (cs : List Char) :
    isDrive (c :: cs) = false := by
  cases cs with
  | nil => simp [isDrive, isLetter, hc]
  | cons d cs => simp [isDrive, isLetter, hc]

/-- A name of a volume is read as one field. -/
theorem isField_volumeName (setup : ParserSetup) (source : String) :
    IsField (setup.volumeName source).toList := by
  have hname : (setup.volumeName source).toList =
      setup.uuid.toList ++ '_' :: (setup.slug source).toList := by
    simp [ParserSetup.volumeName]
  obtain ⟨hcolon, hdollar⟩ := setup.uuid_plain
  have hslug := setup.slug_plain source
  rw [hname]
  cases huuid : setup.uuid.toList with
  | nil =>
      refine isField_of_plain (isPlain_of_head (by decide) ?_) 
        (isLetter_of_isDrive (isDrive_of_head (by decide) _))
      simpa using hslug
  | cons c cs =>
      rw [huuid] at hcolon hdollar
      simp only [List.mem_cons, not_or] at hcolon hdollar
      refine isField_of_plain (isPlain_of_head (Ne.symm hdollar.1) ?_) ?_
      · simp [hcolon.1, hcolon.2, hslug]
      · cases cs with
        | nil => simp [isLetter]
        | cons d cs => simp [isLetter]

/-- A slash at the end is not what makes a field of a text. -/
theorem isPlain_dropLast {cs : List Char} (h : IsPlain cs) (hlast : cs.getLast? = some '/')
    (hroot : cs ≠ ['/']) : IsPlain cs.dropLast := by
  obtain ⟨init, rfl⟩ := List.getLast?_eq_some_iff.mp hlast
  rw [List.dropLast_concat]
  refine ⟨fun hnil => hroot (by rw [hnil]; rfl), fun hmem => h.colon (by simp [hmem]), ?_⟩
  rintro ⟨after, rfl⟩
  have := h.closed ⟨after ++ ['/'], by simp⟩
  simpa using this

theorem isLetter_dropLast {cs : List Char} (h : isDrive cs = false)
    (hlast : cs.getLast? = some '/') : isLetter cs.dropLast = false := by
  obtain ⟨init, rfl⟩ := List.getLast?_eq_some_iff.mp hlast
  rw [List.dropLast_concat]
  match init with
  | [] => rfl
  | [c] => simpa [isDrive, isLetter] using h
  | c :: d :: cs => simp [isLetter]

theorem dropSlash_toList (source : String) :
    (dropSlash source).toList = source.toList ∨
      source.toList.getLast? = some '/' ∧ source.toList ≠ ['/'] ∧
        (dropSlash source).toList = source.toList.dropLast := by
  unfold dropSlash
  split
  · next h =>
      rw [Bool.and_eq_true, bne_iff_ne] at h
      refine .inr ⟨?_, fun hroot => h.2 (String.toList_inj.mp hroot), by simp⟩
      have hsuffix := List.isSuffixOf_iff_suffix.mp h.1
      obtain ⟨init, hinit⟩ := hsuffix
      rw [← hinit]
      simp
  · exact .inl rfl

theorem isField_dropSlash {source : String} (h : IsPlain source.toList)
    (hdrive : isDrive source.toList = false) : IsField (dropSlash source).toList := by
  rcases dropSlash_toList source with heq | ⟨hlast, hroot, heq⟩
  · rw [heq]
    exact isField_of_plain h (isLetter_of_isDrive hdrive)
  · rw [heq]
    exact isField_of_plain (isPlain_dropLast h hlast hroot) (isLetter_dropLast hdrive hlast)

theorem replaceStart_of_not {search replace source : String}
    (h : ¬ search.toList <+: source.toList) : replaceStart search replace source = source :=
  if_neg fun hstart => h (strStartsWith_iff.mp hstart)

/-- A local source comes to lie below the directory; any other stays. -/
theorem replaceLocalSource_eq {directory : String} {below : List Char}
    (hdir : directory.toList = '/' :: below) (source : String) :
    ∃ placed, replaceLocalSource source directory = dropSlash placed ∧
      (placed = source ∨ (∃ c rest, source.toList = c :: rest ∧ (c = '.' ∨ c = '~') ∧
        placed.toList = directory.toList ++ rest)) := by
  -- what lies below the directory begins with a slash
  have hplaced : ∀ (search : String) (c : Char) (needle rest : List Char),
      search.toList = c :: needle → c ≠ '/' →
        replaceStart search directory (directory ++ String.ofList rest) =
          directory ++ String.ofList rest := by
    intro search c needle rest hsearch hc
    refine replaceStart_of_not fun hpre => hc ?_
    rw [hsearch, String.toList_append, hdir, List.cons_append] at hpre
    exact (List.cons_prefix_cons.mp hpre).1
  have hfirst : ∀ (search : String) (c : Char) (rest : List Char), search.toList = [c] →
      source.toList = c :: rest →
        replaceStart search directory source = directory ++ String.ofList rest := by
    intro search c rest hsearch hsource
    have hstart : strStartsWith source search = true := by
      rw [strStartsWith_iff, hsearch, hsource]
      exact ⟨rest, rfl⟩
    rw [replaceStart, if_pos hstart, hsearch, hsource]
    rfl
  unfold replaceLocalSource
  by_cases hdot : ".".toList <+: source.toList
  · obtain ⟨rest, hrest⟩ := hdot
    refine ⟨directory ++ String.ofList rest, ?_, .inr ⟨'.', rest, hrest.symm, .inl rfl, by simp⟩⟩
    rw [hfirst "." '.' rest rfl hrest.symm, hplaced "~" '~' [] rest rfl (by decide),
      hplaced ".." '.' ['.'] rest rfl (by decide)]
  by_cases htilde : "~".toList <+: source.toList
  · obtain ⟨rest, hrest⟩ := htilde
    refine ⟨directory ++ String.ofList rest, ?_, .inr ⟨'~', rest, hrest.symm, .inr rfl, by simp⟩⟩
    rw [replaceStart_of_not hdot, hfirst "~" '~' rest rfl hrest.symm,
      hplaced ".." '.' ['.'] rest rfl (by decide)]
  · have hdots : ¬ "..".toList <+: source.toList := fun ⟨t, ht⟩ => hdot ⟨'.' :: t, ht⟩
    refine ⟨source, ?_, .inl rfl⟩
    rw [replaceStart_of_not hdot, replaceStart_of_not htilde, replaceStart_of_not hdots]

theorem mainDirectory_toList (setup : ParserSetup) :
    ∃ below, setup.mainDirectory.toList = '/' :: below ∧ ':' ∉ below := by
  have hfolder : ':' ∉ setup.folder.toList := by
    unfold ParserSetup.folder
    split
    · decide
    · split <;> decide
  refine ⟨"data/coolify".toList ++ setup.folder.toList ++ setup.uuid.toList, ?_, ?_⟩
  · rw [ParserSetup.mainDirectory, String.toList_append, String.toList_append]
    rfl
  · simp only [List.mem_append, not_or]
    exact ⟨⟨by decide, hfolder⟩, setup.uuid_plain.1⟩

/-- Below the directory of the resource every source without a colon is a field. -/
theorem isField_below (setup : ParserSetup) {placed : String} {rest : List Char}
    (hplaced : placed.toList = setup.mainDirectory.toList ++ rest) (hrest : ':' ∉ rest) :
    IsField (dropSlash placed).toList := by
  obtain ⟨below, hdir, hbelow⟩ := mainDirectory_toList setup
  rw [hdir, List.cons_append] at hplaced
  refine isField_dropSlash ?_ ?_
  · rw [hplaced]
    exact isPlain_of_head (by decide) (by simp [hbelow, hrest])
  · rw [hplaced]
    exact isDrive_of_head (by decide) _

theorem isField_replaceLocalSource (setup : ParserSetup) {source : String}
    (h : IsPlain source.toList) (hdrive : isDrive source.toList = false) :
    IsField (replaceLocalSource source setup.mainDirectory).toList := by
  obtain ⟨below, hdir, -⟩ := mainDirectory_toList setup
  obtain ⟨placed, heq, rfl | ⟨c, rest, hsource, -, hplaced⟩⟩ := replaceLocalSource_eq hdir source
  · rw [heq]
    exact isField_dropSlash h hdrive
  · rw [heq]
    refine isField_below setup hplaced fun hmem => h.colon ?_
    rw [hsource]
    exact List.mem_cons_of_mem c hmem

/-- The source of a long bind, in its place. -/
theorem isField_replaceLocalSource_chars (setup : ParserSetup) {source : MountSource}
    (h : source.WellFormed) :
    IsField (replaceLocalSource (String.ofList source.chars) setup.mainDirectory).toList := by
  cases source with
  | plain text =>
      refine isField_replaceLocalSource setup ?_ ?_
      · rw [String.toList_ofList]
        exact h.1
      · rw [String.toList_ofList]
        exact h.2.1
  | defaulted name default path =>
      obtain ⟨hname, ⟨-, hdefault⟩, hpath⟩ := h
      obtain ⟨below, hdir, -⟩ := mainDirectory_toList setup
      have hbrace := not_mem_reference hname hdefault
      obtain ⟨placed, heq, rfl | ⟨c, rest, hsource, hc, -⟩⟩ := replaceLocalSource_eq hdir
        (String.ofList (MountSource.defaulted name default path).chars)
      · rw [heq]
        rcases dropSlash_toList (String.ofList (MountSource.defaulted name default path).chars)
          with hsame | ⟨hlast, -, hdropped⟩
        · rw [hsame, String.toList_ofList]
          exact isField_of_reference hbrace hpath
        · rw [hdropped, String.toList_ofList]
          rw [String.toList_ofList] at hlast
          -- the slash stands in the path
          rcases List.eq_nil_or_concat path with rfl | ⟨init, d, rfl⟩
          · rw [MountSource.chars, List.getLast?_concat] at hlast
            cases hlast
          · have hinit : (MountSource.defaulted name default (init.concat d)).chars =
                (MountSource.defaulted name default init).chars ++ [d] := by
              simp [MountSource.chars]
            rw [hinit, List.dropLast_concat]
            refine isField_of_reference hbrace fun hmem => hpath ?_
            simp [hmem]
      · rw [String.toList_ofList] at hsource
        obtain rfl : c = '$' := (List.cons.inj hsource).1.symm
        rcases hc with hc | hc <;> cases hc

theorem sourceIsLocal_head {source : String} (h : sourceIsLocal source = true) :
    ∃ c rest, source.toList = c :: rest ∧ c ≠ '$' ∧ c.isAlpha = false := by
  simp only [sourceIsLocal, Bool.or_eq_true, strStartsWith_iff] at h
  rcases h with ((((⟨t, ht⟩ | ⟨t, ht⟩) | ⟨t, ht⟩) | ⟨t, ht⟩) | ⟨t, ht⟩) | ⟨t, ht⟩
  · exact ⟨'.', _, ht.symm, by decide, by decide⟩
  · exact ⟨'/', _, ht.symm, by decide, by decide⟩
  · exact ⟨'~', _, ht.symm, by decide, by decide⟩
  · exact ⟨'.', _, ht.symm, by decide, by decide⟩
  · exact ⟨'~', _, ht.symm, by decide, by decide⟩
  · exact ⟨'.', _, ht.symm, by decide, by decide⟩

/-- A local source without a colon. -/
theorem isPlain_of_local {source : String} (h : sourceIsLocal source = true)
    (hcolon : ':' ∉ source.toList) :
    IsPlain source.toList ∧ isDrive source.toList = false := by
  obtain ⟨c, rest, hsource, hdollar, halpha⟩ := sourceIsLocal_head h
  rw [hsource] at hcolon ⊢
  exact ⟨isPlain_of_head hdollar hcolon, isDrive_of_head halpha rest⟩

end OnePloy
