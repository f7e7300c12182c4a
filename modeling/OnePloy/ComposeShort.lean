import OnePloy.ComposeFields

/-!
# What the parser finds in a volume

`parseDockerVolumeString` takes a short volume apart as it has been put together,
but for one kind: where a path stands behind a reference with a default, the path
passes for the target, or with options behind it there is no target at all.
-/

namespace OnePloy

open Conc Php

/-! ## Sources -/

namespace MountSource

/-- What `parseDockerVolumeString` cuts off as the source. -/
def front : MountSource → List Char
  | plain text => text
  | defaulted name default _ => '$' :: '{' :: (name ++ ':' :: '-' :: default) ++ ['}']

/-- What it takes for the source. -/
def found : MountSource → List Char
  | plain text => text
  | defaulted name default _ => if default = [] then '$' :: '{' :: name ++ ['}'] else default

end MountSource

/-- Options that pass for a mode. -/
def isMode (options : List Char) : Bool := validModes.contains (String.ofList options)

/-! ## The short form, taken apart -/

theorem cut_append {c : Char} {sep a : List Char} (h : c ∉ a) (b : List Char) :
    cut (c :: sep) (a ++ (c :: sep ++ b)) = some (a, b) := by
  induction a with
  | nil =>
      have hpre : (c :: sep).isPrefixOf (c :: sep ++ b) = true :=
        List.isPrefixOf_iff_prefix.mpr (List.prefix_append _ _)
      rw [List.nil_append, List.cons_append, cut, ← List.cons_append, hpre, if_pos rfl,
        List.drop_left]
  | cons x a ih =>
      rw [List.mem_cons, not_or] at h
      rw [List.cons_append, cut, if_neg (by simp [List.isPrefixOf, h.1]), ih h.2]
      rfl

theorem cutLast_append {c : Char} {b : List Char} (h : c ∉ b) (a : List Char) :
    cutLast c (a ++ c :: b) = some (a, b) := by
  have hreverse : (a ++ c :: b).reverse = b.reverse ++ c :: a.reverse := by simp
  have hcut : cut [c] (b.reverse ++ c :: a.reverse) = some (b.reverse, a.reverse) :=
    cut_append (by simpa using h) a.reverse
  rw [cutLast, hreverse, hcut]
  simp

/-- The target, and the options that pass for a mode. -/
def splitOptions (target : List Char) : Option (List Char) → List Char × Option (List Char)
  | none => (target, none)
  | some options =>
      if isMode options then (target, some options) else (target ++ ':' :: options, none)

theorem splitMode_append {options : List Char} (h : ':' ∉ options) (target : List Char) :
    splitMode (target ++ ':' :: options) = splitOptions target (some options) := by
  rw [splitMode, cutLast_append h]
  rfl

theorem cut_none_of_not_mem {c : Char} {sep cs : List Char} (h : c ∉ cs) :
    cut (c :: sep) cs = none := by
  induction cs with
  | nil => rfl
  | cons x cs ih =>
      rw [List.mem_cons, not_or] at h
      have hpre : (c :: sep).isPrefixOf (x :: cs) = false := by
        simp [List.isPrefixOf, h.1]
      rw [cut, hpre, if_neg Bool.false_ne_true, ih h.2]
      rfl

/-- Plain text begins with no default, whatever stands behind a colon after it. -/
theorem envVarWithDefault?_of_plain {cs : List Char} (h : IsPlain cs) (rest : List Char) :
    envVarWithDefault? (cs ++ ':' :: rest) = none ∧ envVarWithDefault? cs = none := by
  rw [envVarWithDefault?, envVarWithDefault?, reference?_append h]
  cases href : reference? cs with
  | none => exact ⟨rfl, rfl⟩
  | some p =>
      obtain ⟨content, after⟩ := p
      have hdefault : hasDefault content = false := by
        rw [hasDefault, cut_none_of_not_mem (fun hmem => h.colon ?_)]
        · rfl
        · rw [(reference?_iff.mp href).1]
          simp [List.mem_of_mem_tail hmem]
      simp [hdefault]

/-- The parts of a short volume. -/
def shortParts (source : MountSource) (target : List Char) (options : Option (List Char)) :
    VolumeParts :=
  if source.path = [] then
    ⟨source.front, some (splitOptions target options).1, (splitOptions target options).2⟩
  else
    ⟨source.front, options.elim (some (source.path ++ ':' :: target)) fun _ => none, none⟩

theorem splitVolume_anonymous {target : List Char} (h : IsPlain target) :
    splitVolume target = ⟨target, some target, none⟩ := by
  rw [splitVolume, (envVarWithDefault?_of_plain h []).2]
  dsimp only
  rw [List.count_eq_zero.mpr h.colon]
  rfl

theorem splitVolume_plain {text target : List Char} {options : Option (List Char)}
    (h : IsPlain text) (hletter : isLetter text = false) (ht : ':' ∉ target)
    (ho : ∀ o, options = some o → ':' ∉ o) :
    splitVolume (Entry.shortText text target options) =
      shortParts (.plain text) target options := by
  have henv : ∀ rest, envVarWithDefault? (text ++ ':' :: rest) = none := fun rest =>
    (envVarWithDefault?_of_plain h rest).1
  have hcount : text.count ':' = 0 := List.count_eq_zero.mpr h.colon
  have htarget : target.count ':' = 0 := List.count_eq_zero.mpr ht
  cases options with
  | none =>
      have hone : (text ++ ':' :: target).count ':' = 1 := by
        rw [List.count_append, List.count_cons_self, hcount, htarget]
      rw [Entry.shortText, Option.elim_none, List.append_nil, splitVolume, henv, hone]
      show VolumeParts.mk (beforeColon _) (some (afterColon _)) none = _
      rw [beforeColon_append h.colon, afterColon_append h.colon]
      rfl
  | some o =>
      have hoptions := ho o rfl
      have htwo : (text ++ ':' :: (target ++ ':' :: o)).count ':' = 2 := by
        rw [List.count_append, List.count_cons_self, List.count_append, List.count_cons_self,
          hcount, htarget, List.count_eq_zero.mpr hoptions]
      rw [Entry.shortText, Option.elim_some, List.append_assoc, List.cons_append, splitVolume, henv,
        htwo]
      show splitAtColons _ 2 = _
      rw [splitAtColons, isWindowsPath_append h.ne_nil h.colon hletter,
        if_neg Bool.false_ne_true, beforeColon_append h.colon, afterColon_append h.colon,
        splitMode_append hoptions]
      rfl

theorem not_mem_name {name : List Char} (h : isName name = true) : ':' ∉ name := by
  intro hmem
  rw [not_isName_of_colon hmem] at h
  cases h

theorem envVarWithDefault?_of_defaulted {name default : List Char} (hname : isName name = true)
    (hdefault : '}' ∉ default) (after : List Char) :
    envVarWithDefault? ('$' :: '{' :: (name ++ ':' :: '-' :: default) ++ '}' :: after) =
      some ('$' :: '{' :: (name ++ ':' :: '-' :: default) ++ ['}'], after) := by
  have href : reference? ('$' :: '{' :: (name ++ ':' :: '-' :: default) ++ '}' :: after) =
      some (name ++ ':' :: '-' :: default, after) :=
    reference?_iff.mpr ⟨rfl, not_mem_reference hname hdefault⟩
  have hhas : hasDefault (name ++ ':' :: '-' :: default) = true := by
    cases name with
    | nil => cases hname
    | cons c name =>
        have hcut : cut [':', '-'] (name ++ ':' :: '-' :: default) = some (name, default) :=
          cut_append (fun hmem => not_mem_name hname (List.mem_cons_of_mem c hmem)) default
        rw [hasDefault, List.cons_append, List.tail_cons, hcut]
        rfl
  rw [envVarWithDefault?, href, Option.bind_some]
  dsimp only
  rw [hhas, if_pos rfl]

theorem splitVolume_defaulted {name default path target : List Char}
    {options : Option (List Char)} (hname : isName name = true) (hdefault : '}' ∉ default)
    (hpath : ':' ∉ path) (ht : ':' ∉ target) (ho : ∀ o, options = some o → ':' ∉ o) :
    splitVolume (Entry.shortText (MountSource.defaulted name default path).chars target options) =
      shortParts (.defaulted name default path) target options := by
  have htarget : target.count ':' = 0 := List.count_eq_zero.mpr ht
  have hcount : path.count ':' = 0 := List.count_eq_zero.mpr hpath
  have htext : Entry.shortText (MountSource.defaulted name default path).chars target options =
      '$' :: '{' :: (name ++ ':' :: '-' :: default) ++
        '}' :: (path ++ ':' :: target ++ options.elim [] (':' :: ·)) := by
    simp [Entry.shortText, MountSource.chars]
  rw [htext, splitVolume, envVarWithDefault?_of_defaulted hname hdefault]
  dsimp only
  have hhead : path ≠ [] → ∀ rest, (path ++ ':' :: rest).head? ≠ some ':' := by
    intro hne rest hhead
    cases path with
    | nil => exact hne rfl
    | cons c path =>
        obtain rfl : c = ':' := by simpa using hhead
        simp at hpath
  cases options with
  | none =>
      have hone : (path ++ ':' :: target).count ':' = 1 := by
        rw [List.count_append, List.count_cons_self, hcount, htarget]
      rw [Option.elim_none, List.append_nil, hone, if_pos (by decide), splitAfterEnvVar, hone]
      show VolumeParts.mk _ (some (if _ then _ else _)) none = _
      rw [shortParts]
      by_cases hpath : path = []
      · subst hpath
        rfl
      · rw [if_neg (hhead hpath target)]
        exact (if_neg hpath).symm
  | some o =>
      have hoptions := ho o rfl
      have htwo : (path ++ ':' :: target ++ ':' :: o).count ':' = 2 := by
        rw [List.count_append, List.count_cons_self, List.count_append, List.count_cons_self,
          hcount, htarget, List.count_eq_zero.mpr hoptions]
      rw [Option.elim_some, htwo, if_pos (by decide), splitAfterEnvVar, htwo]
      show (if _ then VolumeParts.mk _ _ _ else _) = _
      rw [shortParts, List.append_assoc, List.cons_append]
      by_cases hpath : path = []
      · subst hpath
        rw [List.nil_append, List.head?_cons, if_pos rfl, List.tail_cons,
          splitMode_append hoptions]
        rfl
      · rw [if_neg (hhead hpath _)]
        exact (if_neg hpath).symm

theorem splitVolume_short {source : MountSource} {target : List Char}
    {options : Option (List Char)} (hs : source.WellFormed) (ht : ':' ∉ target)
    (ho : ∀ o, options = some o → ':' ∉ o) :
    splitVolume (Entry.shortText source.chars target options) =
      shortParts source target options := by
  cases source with
  | plain text => exact splitVolume_plain hs.1 (isLetter_of_isDrive hs.2.1) ht ho
  | defaulted name default path => exact splitVolume_defaulted hs.1 hs.2.1.2 hs.2.2 ht ho

/-! ### The source, read on -/

theorem expandDefault_of_plain {cs : List Char} (h : IsPlain cs) : expandDefault cs = cs := by
  unfold expandDefault
  split
  · next content after href =>
      split
      · have hcut : cut [':', '-'] content = none := by
          refine cut_none_of_not_mem fun hmem => h.colon ?_
          rw [(reference?_iff.mp href).1]
          simp [hmem]
        rw [hcut]
      · rfl
  · rfl

theorem expandDefault_front {source : MountSource} (h : source.WellFormed) :
    expandDefault source.front = source.found := by
  cases source with
  | plain text => exact expandDefault_of_plain h.1
  | defaulted name default path =>
      obtain ⟨hname, ⟨-, hdefault⟩, -⟩ := h
      have href : reference? (MountSource.defaulted name default path).front =
          some (name ++ ':' :: '-' :: default, []) :=
        reference?_iff.mpr ⟨rfl, not_mem_reference hname hdefault⟩
      have hcut : cut [':', '-'] (name ++ ':' :: '-' :: default) = some (name, default) :=
        cut_append (not_mem_name hname) default
      rw [expandDefault, href]
      dsimp only
      rw [if_pos (by simp [atEnd]), hcut, MountSource.found]
      dsimp only
      by_cases hempty : default = []
      · subst hempty
        rfl
      · rw [if_neg hempty, if_pos (bne_iff_ne.mpr hempty)]

theorem isPlain_found {source : MountSource} (h : source.WellFormed)
    (hlocal : sourceIsLocal (String.ofList source.found) = true) :
    IsPlain source.found ∧ isDrive source.found = false := by
  have hcolon : ':' ∉ source.found := by
    cases source with
    | plain text => exact h.1.colon
    | defaulted name default path =>
        rw [MountSource.found]
        split
        · simp [not_mem_name h.1]
        · exact h.2.1.1
  have := isPlain_of_local hlocal (by rwa [String.toList_ofList])
  rwa [String.toList_ofList] at this

theorem trim_eq {cs : List Char} (h : IsTrim cs) : trim (String.ofList cs) = String.ofList cs :=
  trim_eq_self (by simpa using h.head) (by simpa using h.last)

theorem isTrim_shortText {source : MountSource} {target : List Char} {options : Option (List Char)}
    (hs : source.WellFormed) (ht : IsPlain target ∧ IsTrim target)
    (ho : ∀ o, options = some o → IsPlain o ∧ IsTrim o) :
    IsTrim (Entry.shortText source.chars target options) where
  head := by
    intro c hc
    cases source with
    | plain text =>
        obtain ⟨d, text, rfl⟩ := List.exists_cons_of_ne_nil hs.1.ne_nil
        exact hs.2.2.head c hc
    | defaulted name default path =>
        obtain rfl : '$' = c := Option.some.inj hc
        rfl
  last := by
    have hconcat : ∀ {cs ds : List Char}, ds ≠ [] → (cs ++ ':' :: ds).getLast? = ds.getLast? := by
      intro cs ds hne
      rw [List.getLast?_append_of_ne_nil _ (List.cons_ne_nil _ _), List.getLast?_cons,
        List.getLast?_eq_some_getLast hne]
      rfl
    intro c hc
    cases options with
    | none =>
        rw [Entry.shortText, Option.elim_none, List.append_nil, hconcat ht.1.ne_nil] at hc
        exact ht.2.last c hc
    | some o =>
        rw [Entry.shortText, Option.elim_some, hconcat (ho o rfl).1.ne_nil] at hc
        exact (ho o rfl).2.last c hc

/-! ## What is found in an entry -/

namespace Entry

def source : Entry → List Char
  | anonymous target => target
  | short source _ _ => source.found
  | longBind source _ _ _ => source.chars
  | longVolume source _ _ _ => source.chars

def isBind : Entry → Bool
  | anonymous target => sourceIsLocal (String.ofList target)
  | short source _ _ => sourceIsLocal (String.ofList source.found)
  | longBind _ _ _ _ => true
  | longVolume _ _ _ _ => false

/-- The mode that is at hand after an entry: a long one leaves it as it is. -/
def modeAfter (mode : Option String) : Entry → Option String
  | anonymous _ => none
  | short source _ options =>
      if source.path = [] then (options.filter isMode).map String.ofList else none
  | longBind _ _ _ _ | longVolume _ _ _ _ => mode

def foundTarget : Entry → Option (List Char)
  | anonymous target => some target
  | short source target options => (shortParts source target options).target
  | longBind _ target _ _ | longVolume _ target _ _ => some target

def found (mode : Option String) (entry : Entry) : FoundVolume where
  kind := if entry.isBind then "bind" else "volume"
  source := String.ofList entry.source
  target := entry.foundTarget.map String.ofList
  mode := entry.modeAfter mode

end Entry

theorem findVolume_string {mode : Option String} {cs : List Char} {found : FoundVolume}
    {parts : VolumeParts} (htrim : IsTrim cs) (hparts : splitVolume cs = parts)
    (h : findVolume mode (.string (String.ofList cs)) = .ok found) :
    found = ⟨if sourceIsLocal (String.ofList (expandDefault parts.source)) then "bind"
        else "volume",
      String.ofList (expandDefault parts.source), parts.target.map String.ofList,
      parts.mode.map String.ofList⟩ ∧
    ∀ target, parts.target = some target → checkTarget "" (String.ofList target) = .ok () := by
  obtain ⟨v, hv, hfound⟩ := bind_eq_ok.mp h
  obtain ⟨rfl, -, htarget⟩ := parseDockerVolumeString_ok hv
  rw [trim_eq htrim, String.toList_ofList, hparts] at hfound htarget
  refine ⟨(Except.ok.inj hfound).symm, fun target ht => htarget _ ?_⟩
  rw [ht, Option.map_some]

theorem findLongVolume_longFields {mode : Option String} {kind : String}
    {source target : List Char} {readOnly : Option Bool} {others : List (String × Value)}
    {found : FoundVolume}
    (h : findVolume mode (.map (Entry.longFields kind source target readOnly others)) =
      .ok found) :
    found = ⟨kind, String.ofList source, some (String.ofList target), mode⟩ := by
  have hlong : findLongVolume mode
      (.map (Entry.longFields kind source target readOnly others)) = .ok found := h
  obtain ⟨kind', hkind, hlong⟩ := bind_eq_ok.mp hlong
  obtain ⟨source', hsource, hlong⟩ := bind_eq_ok.mp hlong
  obtain ⟨target', htarget, hlong⟩ := bind_eq_ok.mp hlong
  obtain ⟨_, -, hlong⟩ := bind_eq_ok.mp hlong
  obtain ⟨_, -, hlong⟩ := bind_eq_ok.mp hlong
  obtain rfl : kind = kind' := Except.ok.inj hkind
  obtain rfl : String.ofList source = source' := Except.ok.inj hsource
  obtain rfl : String.ofList target = target' := Except.ok.inj htarget
  exact (Except.ok.inj hlong).symm

namespace Entry

theorem mode_shortParts (source : MountSource) (target : List Char)
    (options : Option (List Char)) (mode : Option String) :
    (shortParts source target options).mode.map String.ofList =
      (short source target options).modeAfter mode := by
  rw [shortParts, modeAfter]
  split
  · cases options with
    | none => rfl
    | some o =>
        dsimp only
        rw [splitOptions, Option.filter_some]
        cases isMode o <;> rfl
  · rfl

/-- What the loop finds in an entry. -/
theorem findVolume_value {entry : Entry} (h : entry.WellFormed) {mode : Option String}
    {found : FoundVolume} (hfound : findVolume mode entry.value = .ok found) :
    found = entry.found mode := by
  cases entry with
  | anonymous target =>
      obtain ⟨rfl, -⟩ := findVolume_string h.2 (splitVolume_anonymous h.1) hfound
      rw [expandDefault_of_plain h.1]
      rfl
  | short source target options =>
      obtain ⟨hsource, ⟨htarget, -, htrim⟩, hoptions⟩ := h
      obtain ⟨rfl, -⟩ := findVolume_string
        (isTrim_shortText hsource ⟨htarget, htrim⟩ hoptions)
        (splitVolume_short hsource htarget.colon fun o ho => (hoptions o ho).1.colon) hfound
      have hfront : (shortParts source target options).source = source.front := by
        rw [shortParts]
        split <;> rfl
      rw [hfront, expandDefault_front hsource, mode_shortParts source target options mode]
      rfl
  | longBind source target readOnly others =>
      rw [findLongVolume_longFields hfound]
      rfl
  | longVolume source target readOnly others =>
      rw [findLongVolume_longFields hfound]
      rfl

end Entry

end OnePloy
