import OnePloy.EnvironmentVariables
import OnePloy.Lib.KeyedFold

/-!
# Saving the developer view unedited

`formatEnvironmentVariables` writes values as they are, and `parseEnvFormatToArray` takes
quotes and comments off them, so a variable keeps its value only if that is plain: one line
that begins with no quote and has no `#` after a space.
-/

namespace OnePloy

open Php

/-! ## Values that are read back -/

/-- One line that the reader takes as it stands: it does not begin with a quote, and no
`#` in it follows a space. -/
structure PlainValue (cs : List Char) : Prop where
  line : '\n' ∉ cs
  quote : cs.head? ≠ some '"' ∧ cs.head? ≠ some '\''
  comment : ∀ before c after, cs = before ++ c :: '#' :: after → isPatternSpace c = false

theorem cutAtComment_append {cs before remainder : List Char}
    (h : cutAtComment cs = some (before, remainder)) :
    cs = before ++ remainder ∧ remainder ≠ [] := by
  induction cs generalizing before with
  | nil => cases h
  | cons c cs ih =>
      rw [cutAtComment] at h
      split at h
      · obtain ⟨rfl, rfl⟩ := Prod.mk.inj (Option.some.inj h)
        exact ⟨rfl, nofun⟩
      · obtain ⟨p, hp, heq⟩ := Option.map_eq_some_iff.mp h
        obtain ⟨rfl, rfl⟩ := Prod.mk.inj heq
        obtain ⟨hcs, hne⟩ := ih hp
        exact ⟨congrArg (c :: ·) hcs, hne⟩

/-- Spaces before a `#` end in one that stands right before it. -/
theorem exists_space_before {c : Char} {cs : List Char} (hc : isPatternSpace c = true)
    (h : (cs.dropWhile isPatternSpace).head? = some '#') :
    ∃ before d after, c :: cs = before ++ d :: '#' :: after ∧ isPatternSpace d = true := by
  induction cs generalizing c with
  | nil => cases h
  | cons d cs ih =>
      by_cases hd : isPatternSpace d = true
      · rw [List.dropWhile_cons_of_pos hd] at h
        obtain ⟨before, e, after, heq, he⟩ := ih hd h
        exact ⟨c :: before, e, after, congrArg (c :: ·) heq, he⟩
      · rw [List.dropWhile_cons_of_neg hd] at h
        obtain rfl : d = '#' := by simpa using h
        exact ⟨[], c, cs, rfl, hc⟩

theorem cutAtComment_eq_none_iff {cs : List Char} :
    cutAtComment cs = none ↔
      ∀ before c after, cs = before ++ c :: '#' :: after → isPatternSpace c = false := by
  induction cs with
  | nil => simp [cutAtComment]
  | cons d cs ih =>
      rw [cutAtComment]
      by_cases hcut : (isPatternSpace d && (cs.dropWhile isPatternSpace).head? == some '#') = true
      · rw [if_pos hcut]
        rw [Bool.and_eq_true, beq_iff_eq] at hcut
        obtain ⟨before, c, after, heq, hc⟩ := exists_space_before hcut.1 hcut.2
        refine iff_of_false nofun fun hnone => ?_
        rw [hnone before c after heq] at hc
        cases hc
      · rw [if_neg hcut, Option.map_eq_none_iff, ih]
        constructor
        · intro hrest before c after heq
          cases before with
          | nil =>
              obtain ⟨rfl, rfl⟩ := List.cons.inj heq
              refine eq_false_of_ne_true fun hd => hcut ?_
              rw [hd, List.dropWhile_cons_of_neg (by decide)]
              rfl
          | cons x before => exact hrest before c after (List.cons.inj heq).2
        · intro hall before c after heq
          exact hall (d :: before) c after (congrArg (d :: ·) heq)

theorem rtrim_length_le (cs : List Char) : (rtrim cs).length ≤ cs.length := by
  have h := (List.dropWhile_suffix (l := cs.reverse) isTrimmed).length_le
  simpa [rtrim] using h

theorem trim_length_le (s : String) : (trim s).toList.length ≤ s.toList.length := by
  have h := (List.dropWhile_suffix isTrimmed
    (l := (s.toList.dropWhile isTrimmed).reverse)).length_le
  have h' := (List.dropWhile_suffix isTrimmed (l := s.toList)).length_le
  rw [trim, String.toList_ofList, List.length_reverse]
  rw [List.length_reverse] at h
  omega

theorem cutAtQuote_length_le (quote : Char) (cs : List Char) :
    (cutAtQuote quote cs).1.length ≤ cs.length := by
  unfold cutAtQuote
  split
  · exact (List.takeWhile_prefix _).length_le
  · exact le_refl _

theorem valueAndRemainder_of_plain {cs : List Char} (h : PlainValue cs) :
    valueAndRemainder cs = (cs, []) := by
  have hcut := cutAtComment_eq_none_iff.mpr h.comment
  unfold valueAndRemainder
  split
  · exact absurd rfl h.quote.1
  · exact absurd rfl h.quote.2
  · rw [hcut]

/-- Of another line the reader loses something. -/
theorem valueAndRemainder_lt {cs : List Char} (hline : '\n' ∉ cs) (h : ¬ PlainValue cs) :
    (valueAndRemainder cs).1.length < cs.length := by
  unfold valueAndRemainder
  split
  · exact Nat.lt_succ_of_le (cutAtQuote_length_le _ _)
  · exact Nat.lt_succ_of_le (cutAtQuote_length_le _ _)
  · next hdouble hsingle =>
      split
      · next before remainder hcut =>
          obtain ⟨rfl, hne⟩ := cutAtComment_append hcut
          have hpos := List.length_pos_iff.mpr hne
          have hle := rtrim_length_le before
          rw [List.length_append]
          show (rtrim before).length < _
          omega
      · next hcut =>
          refine absurd ⟨hline, ⟨fun hhead => ?_, fun hhead => ?_⟩,
            cutAtComment_eq_none_iff.mp hcut⟩ h
          · obtain ⟨rest, rfl⟩ := List.head?_eq_some_iff.mp hhead
            exact hdouble rest rfl
          · obtain ⟨rest, rfl⟩ := List.head?_eq_some_iff.mp hhead
            exact hsingle rest rfl

theorem valueAndRemainder_le (cs : List Char) : (valueAndRemainder cs).1.length ≤ cs.length := by
  unfold valueAndRemainder
  split
  · exact Nat.le_succ_of_le (cutAtQuote_length_le _ _)
  · exact Nat.le_succ_of_le (cutAtQuote_length_le _ _)
  · split
    · next before remainder hcut =>
        obtain ⟨rfl, -⟩ := cutAtComment_append hcut
        have hle := rtrim_length_le before
        rw [List.length_append]
        show (rtrim before).length ≤ _
        omega
    · exact le_refl _

/-! ## Lines -/

theorem isKeyChar_of_mem {key : String} (h : isValidEnvironmentVariableKey key = true) :
    key.toList ≠ [] ∧ ∀ c ∈ key.toList, isKeyChar c = true := by
  unfold isValidEnvironmentVariableKey at h
  split at h
  · cases h
  · next c cs hcs =>
      rw [Bool.and_eq_true, List.all_eq_true] at h
      refine ⟨by rw [hcs]; nofun, fun d hd => ?_⟩
      rw [hcs] at hd
      rcases List.mem_cons.mp hd with rfl | hd
      · have hstart := h.1
        simp only [isKeyStart, Bool.or_eq_true] at hstart
        simp only [isKeyChar, Char.isAlphanum, Bool.or_eq_true]
        exact hstart.elim (fun ha => .inl (.inl (.inl ha))) fun hu => .inl (.inr hu)
      · exact h.2 d hd

theorem notMem_key {key : String} (h : isValidEnvironmentVariableKey key = true) {c : Char}
    (hc : isKeyChar c = false) : c ∉ key.toList := fun hmem => by
  rw [(isKeyChar_of_mem h).2 c hmem] at hc
  cases hc

/-- The line of a variable assigns what stands behind its first `=`. -/
theorem assignment?_line {key : String} (h : isValidEnvironmentVariableKey key = true)
    (cs : List Char) : assignment? (key.toList ++ '=' :: cs) = some (key, envDataOf cs) := by
  obtain ⟨hne, -⟩ := isKeyChar_of_mem h
  have hsign : ∀ c ∈ key.toList, (decide (c ≠ '=')) = true := fun c hc =>
    decide_eq_true fun heq => notMem_key h (by decide) (heq ▸ hc)
  have hhash : (key.toList ++ '=' :: cs).head? ≠ some '#' := by
    intro hhead
    obtain ⟨c, rest, hkey⟩ := List.exists_cons_of_ne_nil hne
    rw [hkey] at hhead
    obtain rfl : c = '#' := by simpa using hhead
    exact notMem_key h (c := '#') (by decide) (by rw [hkey]; exact List.mem_cons_self ..)
  have hskip : ¬ (key.toList ++ '=' :: cs = [] ∨ (key.toList ++ '=' :: cs).head? = some '#') :=
    fun hor => hor.elim (by simp) hhash
  rw [assignment?, if_neg hskip, if_pos (by simp),
    List.takeWhile_append_of_pos hsign, List.dropWhile_append_of_pos hsign]
  simp [String.ofList_toList]

namespace EnvironmentVariable

/-- What the text has behind the `=`. -/
def shownText (v : EnvironmentVariable) : List Char :=
  if v.isShownOnce then "(Locked Secret, delete and add again to change)".toList
  else if v.isMultiline then "(Multiline environment variable, edit in normal view)".toList
  else (v.value.getD "").toList

/-- The line with the key goes up to the first line break of the value. -/
def firstLine (v : EnvironmentVariable) : List Char := (pieces '\n' v.shownText).headD []

/-- What the lines after it assign. -/
def furtherAssignments (v : EnvironmentVariable) : List (String × EnvData) :=
  (pieces '\n' v.shownText).tail.filterMap assignment?

def assignments (v : EnvironmentVariable) : List (String × EnvData) :=
  (v.key.val, envDataOf v.firstLine) :: v.furtherAssignments

theorem devLine_toList (v : EnvironmentVariable) :
    (devLine false v).toList = v.key.val.toList ++ '=' :: v.shownText := by
  rw [devLine, if_neg nofun, shownText]
  split
  · simp [String.toList_append]
  · split <;> simp [String.toList_append]

theorem pieces_devLine (v : EnvironmentVariable) :
    (pieces '\n' (devLine false v).toList).filterMap assignment? = v.assignments := by
  have hkey : '\n' ∉ v.key.val.toList ++ ['='] := by
    simpa using notMem_key v.key.2 (c := '\n') (by decide)
  cases hp : pieces '\n' v.shownText with
  | nil => exact absurd hp (pieces_ne_nil '\n' _)
  | cons p ps =>
      have hpieces := pieces_append hkey hp
      rw [List.append_assoc, List.singleton_append, List.append_assoc,
        List.singleton_append] at hpieces
      rw [devLine_toList, hpieces, List.filterMap_cons_some (assignment?_line v.key.2 p),
        assignments, furtherAssignments, firstLine, hp]
      rfl

end EnvironmentVariable

/-- All that a text for the variables assigns. -/
def shownAssignments (items : List EnvironmentVariable) : List (String × EnvData) :=
  items.flatMap EnvironmentVariable.assignments

def setAll (l : List (String × EnvData)) (m : OrderedMap String EnvData) :
    OrderedMap String EnvData :=
  l.foldl (fun m a => m.set a.1 a.2) m

theorem parseEnvFormatToArray_eq (contents : String) :
    parseEnvFormatToArray contents =
      setAll ((pieces '\n' contents.toList).filterMap assignment?) OrderedMap.empty := by
  rw [setAll, List.foldl_filterMap, parseEnvFormatToArray]
  refine congrArg (fun f => List.foldl f _ _) (funext fun env => funext fun line => ?_)
  cases assignment? line <;> rfl

theorem parse_format (items : List EnvironmentVariable) :
    parseEnvFormatToArray (formatEnvironmentVariables false items) =
      setAll (shownAssignments items) OrderedMap.empty := by
  rw [parseEnvFormatToArray_eq]
  congr 1
  cases items with
  | nil => rfl
  | cons v items =>
      rw [formatEnvironmentVariables, implode, String.toList_ofList, List.map_map, List.map_cons,
        pieces_intercalate, List.filterMap_flatMap, ← List.map_cons, List.flatMap_map]
      exact List.flatMap_congr fun w _ => w.pieces_devLine

/-! ## The last assignment -/

/-- The last thing that is assigned to a key. -/
def lastAssigned : List (String × EnvData) → String → Option EnvData
  | [], _ => none
  | a :: l, key => (lastAssigned l key).or (if a.1 = key then some a.2 else none)

theorem lastAssigned_append (l l' : List (String × EnvData)) (key : String) :
    lastAssigned (l ++ l') key = (lastAssigned l' key).or (lastAssigned l key) := by
  induction l with
  | nil => simp [lastAssigned]
  | cons a l ih => rw [List.cons_append, lastAssigned, ih, lastAssigned, Option.or_assoc]

theorem get?_setAll (l : List (String × EnvData)) (m : OrderedMap String EnvData) (key : String) :
    (setAll l m).get? key = (lastAssigned l key).or (m.get? key) := by
  induction l generalizing m with
  | nil => rfl
  | cons a l ih =>
      rw [setAll, List.foldl_cons, ← setAll, ih, lastAssigned, OrderedMap.get?_set, Option.or_assoc]
      by_cases ha : a.1 = key
      · simp [ha]
      · rw [if_neg ha, if_neg (Ne.symm ha), Option.none_or]

theorem lastAssigned_isSome {l : List (String × EnvData)} {key : String} :
    (lastAssigned l key).isSome ↔ ∃ a ∈ l, a.1 = key := by
  induction l with
  | nil => simp [lastAssigned]
  | cons a l ih =>
      rw [lastAssigned, Option.isSome_or, Bool.or_eq_true, ih]
      by_cases ha : a.1 = key <;> simp [ha]

/-! ## Normalization -/

section

variable {strTrimmed : Char → Bool}

theorem validated_eq_ok {value : String} {key : EnvironmentKey} :
    validatedEnvironmentVariableKey strTrimmed value = .ok key ↔
      strTrim strTrimmed value = key.val := by
  unfold validatedEnvironmentVariableKey
  dsimp only
  split
  · next h =>
      rw [Except.ok.injEq]
      exact ⟨fun heq => heq ▸ rfl, fun heq => Subtype.ext heq⟩
  · next h => exact iff_of_false nofun fun heq => h (heq ▸ key.2)

theorem normalizeTurn_eq_ok {normalized r : List (EnvironmentKey × EnvData)}
    {entry : String × EnvData} :
    normalizeTurn strTrimmed normalized entry = .ok r ↔
      ∃ key : EnvironmentKey, strTrim strTrimmed entry.1 = key.val ∧
        key ∉ normalized.map Prod.fst ∧ r = normalized ++ [(key, entry.2)] := by
  unfold normalizeTurn
  cases hkey : validatedEnvironmentVariableKey strTrimmed entry.1 with
  | error message =>
      refine iff_of_false nofun fun ⟨key, h, _⟩ => ?_
      rw [validated_eq_ok.mpr h] at hkey
      cases hkey
  | ok key =>
      have htrim := validated_eq_ok.mp hkey
      by_cases hmem : key ∈ normalized.map Prod.fst
      · refine iff_of_false ?_ ?_
        · simp only [bind, Except.bind, if_pos hmem]
          nofun
        · rintro ⟨key', h, hnot, -⟩
          obtain rfl : key = key' := Subtype.ext (htrim.symm.trans h)
          exact hnot hmem
      · simp only [bind, Except.bind, if_neg hmem]
        constructor
        · rintro ⟨⟩
          exact ⟨key, htrim, hmem, rfl⟩
        · rintro ⟨key', h, -, rfl⟩
          obtain rfl : key = key' := Subtype.ext (htrim.symm.trans h)
          rfl

/-- The entries after normalization have the trimmed keys, which are valid and distinct. -/
theorem foldlM_normalizeTurn {es : List (String × EnvData)}
    {acc r : List (EnvironmentKey × EnvData)} :
    es.foldlM (normalizeTurn strTrimmed) acc = .ok r ↔
      ∃ r', r = acc ++ r' ∧
        r'.map (fun e => (e.1.val, e.2)) = es.map (fun e => (strTrim strTrimmed e.1, e.2)) ∧
        (∀ e ∈ r', e.1 ∉ acc.map Prod.fst) ∧ (r'.map Prod.fst).Nodup := by
  induction es generalizing acc with
  | nil =>
      constructor
      · rintro ⟨⟩
        exact ⟨[], by simp, rfl, nofun, .nil⟩
      · rintro ⟨r', rfl, hmap, -⟩
        rw [List.map_nil, List.map_eq_nil_iff] at hmap
        rw [hmap, List.append_nil]
        rfl
  | cons e es ih =>
      have hbind : (e :: es).foldlM (normalizeTurn strTrimmed) acc = .ok r ↔
          ∃ acc', normalizeTurn strTrimmed acc e = .ok acc' ∧
            es.foldlM (normalizeTurn strTrimmed) acc' = .ok r := by
        rw [List.foldlM_cons]
        cases normalizeTurn strTrimmed acc e with
        | error message => exact iff_of_false nofun nofun
        | ok acc' => exact ⟨fun h => ⟨acc', rfl, h⟩, fun ⟨_, heq, h⟩ => by cases heq; exact h⟩
      rw [hbind]
      constructor
      · rintro ⟨acc', hturn, hrest⟩
        obtain ⟨key, htrim, hnot, rfl⟩ := normalizeTurn_eq_ok.mp hturn
        obtain ⟨r', rfl, hmap, hdisjoint, hnodup⟩ := ih.mp hrest
        refine ⟨(key, e.2) :: r', by simp, by simp [hmap, htrim], ?_, ?_⟩
        · intro f hf
          rcases List.mem_cons.mp hf with rfl | hf
          · exact hnot
          · exact fun hmem => hdisjoint f hf (by simp [hmem])
        · rw [List.map_cons, List.nodup_cons]
          refine ⟨fun hmem => ?_, hnodup⟩
          obtain ⟨f, hf, hkey⟩ := List.mem_map.mp hmem
          exact hdisjoint f hf (by simp [hkey])
      · rintro ⟨r', rfl, hmap, hdisjoint, hnodup⟩
        cases r' with
        | nil => cases hmap
        | cons f r' =>
            rw [List.map_cons, List.map_cons, List.cons.injEq, Prod.mk.injEq] at hmap
            obtain ⟨⟨hkey, hdata⟩, hmap⟩ := hmap
            rw [List.map_cons, List.nodup_cons] at hnodup
            refine ⟨acc ++ [(f.1, e.2)], normalizeTurn_eq_ok.mpr ⟨f.1, hkey.symm,
              hdisjoint f (List.mem_cons_self ..), rfl⟩, ih.mpr ⟨r', ?_, hmap, ?_, hnodup.2⟩⟩
            · rw [← hdata]
              simp
            · intro g hg hmem
              rw [List.map_append, List.mem_append, List.map_singleton, List.mem_singleton] at hmem
              rcases hmem with hmem | heq
              · exact hdisjoint g (List.mem_cons_of_mem _ hg) hmem
              · exact hnodup.1 (heq ▸ List.mem_map_of_mem hg)

/-- A text is refused if it assigns a key that is not valid, or the same one in two
spellings. -/
def Refused (strTrimmed : Char → Bool) (l : List (String × EnvData)) : Prop :=
  (∃ a ∈ l, isValidEnvironmentVariableKey (strTrim strTrimmed a.1) = false) ∨
    ∃ a ∈ l, ∃ b ∈ l, a.1 ≠ b.1 ∧ strTrim strTrimmed a.1 = strTrim strTrimmed b.1

/-- What normalization makes of what a text assigns. -/
structure Normalized (strTrimmed : Char → Bool) (l : List (String × EnvData))
    (r : List (EnvironmentKey × EnvData)) : Prop where
  nodup : (r.map Prod.fst).Nodup
  data : ∀ e ∈ r, ∃ key, strTrim strTrimmed key = e.1.val ∧ lastAssigned l key = some e.2
  keys : ∀ a ∈ l, ∃ e ∈ r, e.1.val = strTrim strTrimmed a.1 ∧ lastAssigned l a.1 = some e.2

theorem mem_setAll {l : List (String × EnvData)} {key : String} {d : EnvData} :
    (key, d) ∈ (setAll l OrderedMap.empty).entries ↔ lastAssigned l key = some d := by
  rw [← OrderedMap.get?_eq_some_iff, get?_setAll]
  have hempty : (OrderedMap.empty : OrderedMap String EnvData).get? key = none := rfl
  rw [hempty, Option.or_none]

theorem normalize_ok {l : List (String × EnvData)} {r : List (EnvironmentKey × EnvData)}
    (h : normalizeEnvironmentVariables strTrimmed (setAll l OrderedMap.empty) = .ok r) :
    Normalized strTrimmed l r ∧ ¬ Refused strTrimmed l := by
  obtain ⟨r', hr, hmap, -, hnodup⟩ := foldlM_normalizeTurn.mp h
  obtain rfl : r = r' := hr
  have hkeys : ∀ a ∈ l, ∃ e ∈ r, e.1.val = strTrim strTrimmed a.1 ∧
      lastAssigned l a.1 = some e.2 := by
    intro a ha
    obtain ⟨d, hd⟩ := Option.isSome_iff_exists.mp (lastAssigned_isSome.mpr ⟨a, ha, rfl⟩)
    have hmem : (strTrim strTrimmed a.1, d) ∈ r.map fun e => (e.1.val, e.2) := by
      rw [hmap]
      exact List.mem_map.mpr ⟨(a.1, d), mem_setAll.mpr hd, rfl⟩
    obtain ⟨e, he, heq⟩ := List.mem_map.mp hmem
    obtain ⟨hkey, rfl⟩ := Prod.mk.inj heq
    exact ⟨e, he, hkey, hd⟩
  refine ⟨⟨hnodup, fun e he => ?_, hkeys⟩, ?_⟩
  · have hmem : (e.1.val, e.2) ∈ (setAll l OrderedMap.empty).entries.map
        fun e => (strTrim strTrimmed e.1, e.2) := by
      rw [← hmap]
      exact List.mem_map.mpr ⟨e, he, rfl⟩
    obtain ⟨f, hf, heq⟩ := List.mem_map.mp hmem
    obtain ⟨hkey, hdata⟩ := Prod.mk.inj heq
    exact ⟨f.1, hkey, hdata ▸ mem_setAll.mp hf⟩
  · rintro (⟨a, ha, hinvalid⟩ | ⟨a, ha, b, hb, hne, hsame⟩)
    · obtain ⟨e, -, hkey, -⟩ := hkeys a ha
      rw [← hkey, e.1.2] at hinvalid
      cases hinvalid
    · -- two entries of the array would come to one key
      have hkeysOf : (r.map fun e => e.1.val) =
          (setAll l OrderedMap.empty).entries.map fun e => strTrim strTrimmed e.1 := by
        have := congrArg (List.map Prod.fst) hmap
        simpa [List.map_map, Function.comp_def] using this
      have hinj : ((setAll l OrderedMap.empty).entries.map
          fun e => strTrim strTrimmed e.1).Nodup := by
        have hval : (r.map fun e => e.1.val) = (r.map Prod.fst).map Subtype.val := by
          rw [List.map_map]
          rfl
        rw [← hkeysOf, hval]
        exact hnodup.map Subtype.val_injective
      obtain ⟨da, hda⟩ := Option.isSome_iff_exists.mp (lastAssigned_isSome.mpr ⟨a, ha, rfl⟩)
      obtain ⟨db, hdb⟩ := Option.isSome_iff_exists.mp (lastAssigned_isSome.mpr ⟨b, hb, rfl⟩)
      have heq := List.inj_on_of_nodup_map hinj (mem_setAll.mpr hda) (mem_setAll.mpr hdb) hsame
      exact hne (Prod.mk.inj heq).1

theorem exists_normalize_ok {l : List (String × EnvData)} (h : ¬ Refused strTrimmed l) :
    ∃ r, normalizeEnvironmentVariables strTrimmed (setAll l OrderedMap.empty) = .ok r := by
  rw [Refused, not_or] at h
  obtain ⟨hvalid, hdistinct⟩ := h
  have hmem : ∀ e ∈ (setAll l OrderedMap.empty).entries, ∃ a ∈ l, a.1 = e.1 := fun e he =>
    lastAssigned_isSome.mp (by rw [mem_setAll.mp he]; rfl)
  have hkey : ∀ e ∈ (setAll l OrderedMap.empty).entries,
      isValidEnvironmentVariableKey (strTrim strTrimmed e.1) = true := by
    intro e he
    obtain ⟨a, ha, heq⟩ := hmem e he
    by_contra hinvalid
    exact hvalid ⟨a, ha, by rw [heq]; simpa using hinvalid⟩
  let f : {e // e ∈ (setAll l OrderedMap.empty).entries} → EnvironmentKey × EnvData :=
    fun e => (⟨strTrim strTrimmed e.1.1, hkey e.1 e.2⟩, e.1.2)
  refine ⟨(setAll l OrderedMap.empty).entries.attach.map f,
    foldlM_normalizeTurn.mpr ⟨_, rfl, ?_, nofun, ?_⟩⟩
  · rw [List.map_map]
    exact List.attach_map_val (f := fun e : String × EnvData => (strTrim strTrimmed e.1, e.2))
  · rw [List.map_map]
    refine List.Nodup.map_on ?_ (List.nodup_attach.mpr ((setAll l OrderedMap.empty).nodup.of_map _))
    rintro ⟨e, he⟩ - ⟨e', he'⟩ - heq
    have hsame : strTrim strTrimmed e.1 = strTrim strTrimmed e'.1 := congrArg Subtype.val heq
    obtain ⟨a, ha, hea⟩ := hmem e he
    obtain ⟨b, hb, heb⟩ := hmem e' he'
    have hkeys : e.1 = e'.1 := by
      by_contra hne
      exact hdistinct ⟨a, ha, b, hb, by rwa [hea, heb], by rwa [hea, heb]⟩
    exact Subtype.ext (List.inj_on_of_nodup_map (setAll l OrderedMap.empty).nodup he he' hkeys)

end

/-! ## One set -/

namespace EnvironmentVariable

/-- The assignment leaves the variable as it is. -/
def Matches (v : EnvironmentVariable) (d : EnvData) : Prop :=
  v.value = some (trim d.value) ∧ (d.comment = none ∨ v.comment = d.comment)

/-- The loop writes assignments to the variable. -/
def IsEditable (v : EnvironmentVariable) : Prop :=
  isServiceKey v.key.val = false ∧ v.isShownOnce = false ∧ v.isMultiline = false

end EnvironmentVariable

theorem updatedRow_value (v : EnvironmentVariable) (d : EnvData) :
    (updatedRow v d).value = some (trim d.value) := by
  unfold updatedRow
  by_cases hvalue : v.value = some d.value
  · have htrim := v.trimmed d.value hvalue
    rw [if_neg (not_not.mpr hvalue)]
    dsimp only
    split <;> simp [hvalue, htrim]
  · rw [if_pos hvalue]
    dsimp only
    split <;> rfl

theorem updatedRow_comment (v : EnvironmentVariable) (d : EnvData) :
    (updatedRow v d).comment = d.comment.or v.comment := by
  unfold updatedRow
  cases hd : d.comment with
  | none => split <;> simp
  | some comment =>
      split
      · dsimp only
        split
        · rfl
        · next h => simpa using h
      · dsimp only
        split
        · rfl
        · next h => simpa using h

theorem updatedRow_other (v : EnvironmentVariable) (d : EnvData) :
    (updatedRow v d).key = v.key ∧ (updatedRow v d).isShownOnce = v.isShownOnce ∧
      (updatedRow v d).isMultiline = v.isMultiline := by
  unfold updatedRow
  dsimp only
  split <;> split <;> exact ⟨rfl, rfl, rfl⟩

theorem EnvironmentVariable.ext_data {v w : EnvironmentVariable} (hkey : v.key = w.key)
    (hvalue : v.value = w.value) (hcomment : v.comment = w.comment)
    (honce : v.isShownOnce = w.isShownOnce) (hmultiline : v.isMultiline = w.isMultiline) :
    v = w := by
  cases v
  cases w
  simp only at hkey hvalue hcomment honce hmultiline
  subst hkey hvalue hcomment honce hmultiline
  rfl

theorem updatedRow_eq_self_iff {v : EnvironmentVariable} {d : EnvData} :
    updatedRow v d = v ↔ v.Matches d := by
  constructor
  · intro h
    have hvalue := updatedRow_value v d
    have hcomment := updatedRow_comment v d
    rw [h] at hvalue hcomment
    refine ⟨hvalue, ?_⟩
    cases hd : d.comment with
    | none => exact .inl rfl
    | some comment => exact .inr (by rw [hcomment, hd]; rfl)
  · rintro ⟨hvalue, hcomment⟩
    obtain ⟨hkey, honce, hmultiline⟩ := updatedRow_other v d
    refine EnvironmentVariable.ext_data hkey (by rw [updatedRow_value, hvalue]) ?_ honce hmultiline
    rw [updatedRow_comment]
    rcases hcomment with hnone | hsame
    · rw [hnone, Option.none_or]
    · rw [hsame, Option.or_self]

theorem updatedRow_of_not_changes {v : EnvironmentVariable} {d : EnvData}
    (h : rowChanges v d = false) : updatedRow v d = v := by
  unfold rowChanges at h
  simp only [Bool.or_eq_false_iff, Bool.and_eq_false_iff, decide_eq_false_iff_not, not_not] at h
  refine updatedRow_eq_self_iff.mpr ⟨?_, h.2⟩
  rw [h.1, v.trimmed d.value h.1]

namespace EnvironmentSet

theorem ext_rows {set set' : EnvironmentSet} (h : set.rows = set'.rows) : set = set' := by
  cases set
  cases set'
  cases h
  rfl

theorem find?_eq_some_iff {set : EnvironmentSet} {key : EnvironmentKey} {v : EnvironmentVariable} :
    set.find? key = some v ↔ v ∈ set.rows ∧ v.key = key := by
  constructor
  · intro h
    exact ⟨List.mem_of_find?_eq_some h, by simpa using List.find?_some h⟩
  · rintro ⟨hv, rfl⟩
    cases h : set.find? v.key with
    | none => exact absurd (List.find?_eq_none.mp h v hv) (by simp)
    | some w =>
        have hkey : w.key = v.key := by simpa using List.find?_some h
        rw [List.inj_on_of_nodup_map set.nodup (List.mem_of_find?_eq_some h) hv hkey]

theorem find?_save (set : EnvironmentSet) (row : EnvironmentVariable) (key : EnvironmentKey) :
    (set.save row).find? key =
      if key = row.key then (set.find? key).map fun _ => row else set.find? key := by
  ext w
  rw [find?_eq_some_iff]
  by_cases hk : key = row.key
  · subst hk
    simp only [save, List.mem_map, if_true, Option.map_eq_some_iff, find?_eq_some_iff]
    constructor
    · rintro ⟨⟨r, hr, rfl⟩, hkey⟩
      by_cases heq : r.key = row.key
      · exact ⟨r, ⟨hr, heq⟩, by rw [if_pos heq]⟩
      · rw [if_neg heq] at hkey
        exact absurd hkey heq
    · rintro ⟨r, ⟨hr, hkey⟩, rfl⟩
      exact ⟨⟨r, hr, if_pos hkey⟩, rfl⟩
  · rw [if_neg hk, find?_eq_some_iff]
    simp only [save, List.mem_map]
    constructor
    · rintro ⟨⟨r, hr, rfl⟩, rfl⟩
      by_cases heq : r.key = row.key
      · rw [if_pos heq] at hk
        exact absurd rfl hk
      · rw [if_neg heq]
        exact ⟨hr, rfl⟩
    · rintro ⟨hr, rfl⟩
      exact ⟨⟨w, hr, if_neg hk⟩, rfl⟩

theorem save_of_find? {set : EnvironmentSet} {row : EnvironmentVariable}
    (h : set.find? row.key = some row) : set.save row = set := by
  refine ext_rows ?_
  rw [save]
  conv_rhs => rw [← List.map_id set.rows]
  refine List.map_congr_left fun r hr => ?_
  split
  · next hkey =>
      have hr' := find?_eq_some_iff.mpr ⟨hr, hkey⟩
      exact Option.some.inj (h.symm.trans hr')
  · rfl

theorem find?_create {set : EnvironmentSet} {row : EnvironmentVariable}
    (h : set.find? row.key = none) (key : EnvironmentKey) :
    (set.create row h).find? key = if key = row.key then some row else set.find? key := by
  rw [find?, create, List.find?_append]
  by_cases hk : key = row.key
  · subst hk
    have hnone : set.rows.find? (fun r => decide (r.key = row.key)) = none := h
    simp [hnone]
  · rw [if_neg hk]
    simp [find?, Ne.symm hk]

end EnvironmentSet

/-! ## The loop over the assignments -/

/-- What a turn of the loop does to the variable with its key. -/
def turnEffect (key : EnvironmentKey) (d : EnvData) (row : Option EnvironmentVariable) :
    Option EnvironmentVariable :=
  if isServiceKey key.val then row
  else
    match row with
    | some v => if !v.isShownOnce && !v.isMultiline then some (updatedRow v d) else some v
    | none => some (newRow key d)

section

variable {page : EnvironmentPage} {isPreview : Bool}

@[simp] theorem rows_setRows (state : EnvironmentState) (set : EnvironmentSet) :
    (state.setRows isPreview set).rows isPreview = set := by
  cases isPreview <;> rfl

@[simp] theorem setRows_rows (state : EnvironmentState) :
    state.setRows isPreview (state.rows isPreview) = state := by
  cases isPreview <;> rfl

theorem rows_createVariable {state : EnvironmentState} {row : EnvironmentVariable}
    (h : (state.rows isPreview).find? row.key = none) :
    (createVariable page state isPreview row h).rows isPreview =
      (state.rows isPreview).create row h := by
  unfold createVariable
  dsimp only
  split
  · next hcopy =>
      cases isPreview with
      | true => simp at hcopy
      | false => split <;> rfl
  · exact rows_setRows state _

theorem find?_turn (acc : EnvironmentState × Nat) (e : EnvironmentKey × EnvData)
    (key : EnvironmentKey) :
    ((updateOrCreateTurn page isPreview acc e).1.rows isPreview).find? key =
      if key = e.1 then turnEffect e.1 e.2 ((acc.1.rows isPreview).find? key)
      else (acc.1.rows isPreview).find? key := by
  unfold updateOrCreateTurn turnEffect
  by_cases hservice : isServiceKey e.1.val = true
  · simp [hservice]
  · rw [if_neg hservice, if_neg hservice]
    split
    · next found hfound =>
        have hkey := (EnvironmentSet.find?_eq_some_iff.mp hfound).2
        by_cases hk : key = e.1
        · subst hk
          rw [if_pos rfl, hfound]
          by_cases hfree : (!found.isShownOnce && !found.isMultiline) = true
          · rw [if_pos hfree]
            dsimp only
            rw [if_pos hfree]
            by_cases hchanges : rowChanges found e.2 = true
            · rw [if_pos hchanges, rows_setRows, EnvironmentSet.find?_save,
                (updatedRow_other found e.2).1, if_pos hkey.symm, hfound, Option.map_some]
            · rw [if_neg hchanges, hfound,
                updatedRow_of_not_changes (Bool.not_eq_true _ ▸ hchanges)]
          · rw [if_neg hfree]
            dsimp only
            rw [if_neg hfree, hfound]
        · rw [if_neg hk]
          split
          · split
            · rw [rows_setRows, EnvironmentSet.find?_save, (updatedRow_other found e.2).1, hkey,
                if_neg hk]
            · rfl
          · rfl
    · next hnone =>
        have hrow : (acc.1.rows isPreview).find? (newRow e.1 e.2).key = none := hnone
        show ((createVariable page acc.1 isPreview _ hrow).rows isPreview).find? key = _
        rw [rows_createVariable, EnvironmentSet.find?_create,
          show (newRow e.1 e.2).key = e.1 from rfl]
        by_cases hk : key = e.1
        · subst hk
          rw [if_pos rfl, if_pos rfl, hnone]
        · rw [if_neg hk, if_neg hk]

/-- A turn that leaves the variable with its key leaves everything. -/
theorem turn_of_effect {acc : EnvironmentState × Nat} {e : EnvironmentKey × EnvData}
    (h : turnEffect e.1 e.2 ((acc.1.rows isPreview).find? e.1) =
      (acc.1.rows isPreview).find? e.1) :
    (updateOrCreateTurn page isPreview acc e).1 = acc.1 := by
  unfold turnEffect at h
  unfold updateOrCreateTurn
  by_cases hservice : isServiceKey e.1.val = true
  · rw [if_pos hservice]
  · rw [if_neg hservice] at h ⊢
    split
    · next found hfound =>
        rw [hfound] at h
        have hkey := (EnvironmentSet.find?_eq_some_iff.mp hfound).2
        split
        · next hfree =>
            dsimp only at h
            rw [if_pos hfree] at h
            split
            · have hsame : updatedRow found e.2 = found := Option.some.inj h
              rw [hsame, EnvironmentSet.save_of_find? (by rw [hkey]; exact hfound), setRows_rows]
            · rfl
        · rfl
    · next hnone =>
        rw [hnone] at h
        cases h

theorem effects_of_rows_eq {entries : List (EnvironmentKey × EnvData)}
    (hnodup : (entries.map Prod.fst).Nodup) {state : EnvironmentState}
    (h : (updateOrCreateVariables page isPreview entries state).1.rows isPreview =
      state.rows isPreview) :
    ∀ e ∈ entries, turnEffect e.1 e.2 ((state.rows isPreview).find? e.1) =
      (state.rows isPreview).find? e.1 := by
  intro e he
  let view : EnvironmentState × Nat → Option EnvironmentVariable :=
    fun acc => (acc.1.rows isPreview).find? e.1
  have hother : ∀ acc (e' : EnvironmentKey × EnvData), e'.1 ≠ e.1 →
      view (updateOrCreateTurn page isPreview acc e') = view acc := fun acc e' hne => by
    rw [show view _ = _ from find?_turn acc e' e.1, if_neg (Ne.symm hne)]
  have hself : ∀ acc, view (updateOrCreateTurn page isPreview acc e) =
      turnEffect e.1 e.2 (view acc) := fun acc => by
    rw [show view _ = _ from find?_turn acc e e.1, if_pos rfl]
  have hview : view (updateOrCreateVariables page isPreview entries state) =
      turnEffect e.1 e.2 (view (state, 0)) :=
    Conc.foldl_of_mem hother hself rfl hnodup he (state, 0)
  dsimp only [view] at hview
  rw [h] at hview
  exact hview.symm

/-- The loop changes nothing if no assignment changes the variable with its key. -/
theorem state_eq_of_effects {entries : List (EnvironmentKey × EnvData)} {state : EnvironmentState}
    (h : ∀ e ∈ entries, turnEffect e.1 e.2 ((state.rows isPreview).find? e.1) =
      (state.rows isPreview).find? e.1) :
    (updateOrCreateVariables page isPreview entries state).1 = state := by
  have hfold : ∀ (es : List (EnvironmentKey × EnvData)) (n : Nat), (∀ e ∈ es, e ∈ entries) →
      (es.foldl (updateOrCreateTurn page isPreview) (state, n)).1 = state := by
    intro es
    induction es with
    | nil => intro n _; rfl
    | cons e es ih =>
        intro n hes
        have hturn : (updateOrCreateTurn page isPreview (state, n) e).1 = state :=
          turn_of_effect (h e (hes e (List.mem_cons_self ..)))
        obtain ⟨n', hn'⟩ : ∃ n', updateOrCreateTurn page isPreview (state, n) e = (state, n') := by
          cases hresult : updateOrCreateTurn page isPreview (state, n) e with
          | mk state' n' =>
              rw [hresult] at hturn
              exact ⟨n', by rw [show state' = state from hturn]⟩
        rw [List.foldl_cons, hn']
        exact ih n' fun f hf => hes f (List.mem_cons_of_mem _ hf)
  exact hfold entries 0 fun e he => he

end

/-! ## The condition -/

theorem turnEffect_eq_self_iff {set : EnvironmentSet} {key : EnvironmentKey} {d : EnvData} :
    turnEffect key d (set.find? key) = set.find? key ↔
      isServiceKey key.val = true ∨
        ∃ v, set.find? key = some v ∧ (v.IsEditable → v.Matches d) := by
  unfold turnEffect
  by_cases hservice : isServiceKey key.val = true
  · simp [hservice]
  · rw [if_neg hservice, or_iff_right hservice]
    cases hfind : set.find? key with
    | none => simp
    | some v =>
        have hkey := (EnvironmentSet.find?_eq_some_iff.mp hfind).2
        dsimp only
        constructor
        · intro h
          refine ⟨v, rfl, fun ⟨_, honce, hmultiline⟩ => ?_⟩
          rw [honce, hmultiline] at h
          exact updatedRow_eq_self_iff.mp (Option.some.inj h)
        · rintro ⟨w, hw, h⟩
          obtain rfl := Option.some.inj hw
          split
          · next hfree =>
              rw [Bool.and_eq_true, Bool.not_eq_true', Bool.not_eq_true'] at hfree
              have hmatches := h ⟨by rw [hkey]; simpa using hservice, hfree.1, hfree.2⟩
              rw [updatedRow_eq_self_iff.mpr hmatches]
          · rfl

/-- The text for the variables assigns every variable what it has. -/
structure Survives (strTrimmed : Char → Bool) (items : List EnvironmentVariable) : Prop where
  /-- No assignment creates a variable. -/
  known : ∀ a ∈ shownAssignments items, isServiceKey (strTrim strTrimmed a.1) = true ∨
    ∃ v ∈ items, v.key.val = strTrim strTrimmed a.1
  /-- A variable that can be edited is read back from its own line, unless a further line
  of a value assigns it what it has. -/
  values : ∀ before v after, items = before ++ v :: after → v.IsEditable →
    match lastAssigned (v.furtherAssignments ++ shownAssignments after) v.key.val with
    | some d => v.Matches d
    | none => ∃ s, v.value = some s ∧ PlainValue s.toList

theorem firstLine_length_le (v : EnvironmentVariable) :
    v.firstLine.length ≤ v.shownText.length ∧
      ('\n' ∈ v.shownText → v.firstLine.length < v.shownText.length) := by
  rw [EnvironmentVariable.firstLine]
  have hjoin := intercalate_pieces '\n' v.shownText
  cases hp : pieces '\n' v.shownText with
  | nil => exact absurd hp (pieces_ne_nil '\n' _)
  | cons p ps =>
      have hbreak : '\n' ∉ p := notMem_of_mem_pieces (by rw [hp]; exact List.mem_cons_self ..)
      rw [hp] at hjoin
      cases ps with
      | nil =>
          have htext : p = v.shownText := by simpa [List.intercalate] using hjoin
          rw [← htext]
          exact ⟨le_refl _, fun hmem => absurd hmem hbreak⟩
      | cons q ps =>
          rw [intercalate_cons_cons] at hjoin
          have hlen := congrArg List.length hjoin
          rw [List.length_append, List.length_cons] at hlen
          exact ⟨by simp; omega, fun _ => by simp; omega⟩

/-- The own line of a variable gives its value back if and only if that is plain. -/
theorem matches_ownLine {v : EnvironmentVariable} (h : v.IsEditable) :
    v.Matches (envDataOf v.firstLine) ↔ ∃ s, v.value = some s ∧ PlainValue s.toList := by
  have htext : v.shownText = (v.value.getD "").toList := by
    rw [EnvironmentVariable.shownText, h.2.1, h.2.2]
    rfl
  constructor
  · rintro ⟨hvalue, -⟩
    refine ⟨_, hvalue, ?_⟩
    by_contra hplain
    obtain ⟨hle, hlt⟩ := firstLine_length_le v
    rw [hvalue, Option.getD_some] at htext
    rw [htext] at hle hlt
    have hread := trim_length_le (envDataOf v.firstLine).value
    have hparts : (envDataOf v.firstLine).value.toList = (valueAndRemainder v.firstLine).1 :=
      String.toList_ofList
    by_cases hline : '\n' ∈ (trim (envDataOf v.firstLine).value).toList
    · have hshort := hlt hline
      have hshorter := valueAndRemainder_le v.firstLine
      rw [hparts] at hread
      omega
    · have hfirst : v.firstLine = (trim (envDataOf v.firstLine).value).toList := by
        conv_lhs => rw [EnvironmentVariable.firstLine, htext, pieces_of_notMem hline]
        rfl
      have hlost := valueAndRemainder_lt hline hplain
      rw [← hfirst] at hlost
      rw [hparts, ← hfirst] at hread
      omega
  · rintro ⟨s, hvalue, hplain⟩
    have hfirst : v.firstLine = s.toList := by
      rw [EnvironmentVariable.firstLine, htext, hvalue, Option.getD_some,
        pieces_of_notMem hplain.line]
      rfl
    rw [hfirst, envDataOf, valueAndRemainder_of_plain hplain]
    refine ⟨?_, .inl (by simp [commentOf])⟩
    rw [String.ofList_toList, hvalue, v.trimmed s hvalue]

theorem lastAssigned_shown {before after : List EnvironmentVariable} (v : EnvironmentVariable) :
    lastAssigned (shownAssignments (before ++ v :: after)) v.key.val =
      some ((lastAssigned (v.furtherAssignments ++ shownAssignments after) v.key.val).getD
        (envDataOf v.firstLine)) := by
  have hsplit : shownAssignments (before ++ v :: after) =
      shownAssignments before ++ ((v.key.val, envDataOf v.firstLine) ::
        (v.furtherAssignments ++ shownAssignments after)) := by
    simp [shownAssignments, EnvironmentVariable.assignments]
  rw [hsplit, lastAssigned_append, lastAssigned, if_pos rfl]
  cases lastAssigned (v.furtherAssignments ++ shownAssignments after) v.key.val <;> rfl

theorem mem_ownAssignment {items : List EnvironmentVariable} {v : EnvironmentVariable}
    (hv : v ∈ items) : (v.key.val, envDataOf v.firstLine) ∈ shownAssignments items :=
  List.mem_flatMap.mpr ⟨v, hv, List.mem_cons_self ..⟩

section

variable {strTrimmed : Char → Bool} {page : EnvironmentPage} {isPreview : Bool}

theorem strTrim_key (hkeys : ∀ c, isKeyChar c = true → strTrimmed c = false)
    (key : EnvironmentKey) : strTrim strTrimmed key.val = key.val := by
  have hkept : ∀ c ∈ key.val.toList, ¬ strTrimmed c = true := fun c hc => by
    rw [hkeys c ((isKeyChar_of_mem key.2).2 c hc)]
    nofun
  have hfront : key.val.toList.dropWhile strTrimmed = key.val.toList := by
    cases hcs : key.val.toList with
    | nil => rfl
    | cons c cs =>
        refine List.dropWhile_cons_of_neg (hkept c ?_)
        rw [hcs]
        exact List.mem_cons_self ..
  have hback : key.val.toList.reverse.dropWhile strTrimmed = key.val.toList.reverse := by
    cases hcs : key.val.toList.reverse with
    | nil => rfl
    | cons c cs =>
        refine List.dropWhile_cons_of_neg (hkept c (List.mem_reverse.mp ?_))
        rw [hcs]
        exact List.mem_cons_self ..
  rw [strTrim, trimWith, hfront, hback, List.reverse_reverse, String.ofList_toList]

theorem deleteRemovedVariables_of_keys {set : EnvironmentSet}
    {entries : List (EnvironmentKey × EnvData)}
    (h : ∀ row ∈ set.rows, row.key ∈ entries.map Prod.fst) :
    deleteRemovedVariables page set entries = (0, set, []) := by
  have hnone : (set.rows.filter fun row => decide (row.key.val ∉ entries.map (·.1.val))) = [] := by
    refine List.filter_eq_nil_iff.mpr fun row hrow => ?_
    obtain ⟨e, he, hkey⟩ := List.mem_map.mp (h row hrow)
    rw [decide_eq_true_eq, not_not]
    exact List.mem_map.mpr ⟨e, he, congrArg Subtype.val hkey⟩
  unfold deleteRemovedVariables
  dsimp only
  rw [hnone]
  rfl

/-- The text for a set leaves the variables of the set if and only if it gives every one
of them back. -/
theorem effects_iff (hkeys : ∀ c, isKeyChar c = true → strTrimmed c = false)
    {set : EnvironmentSet} {items : List EnvironmentVariable} (hitems : items.Perm set.rows)
    {r : List (EnvironmentKey × EnvData)}
    (hr : Normalized strTrimmed (shownAssignments items) r)
    (hrefused : ¬ Refused strTrimmed (shownAssignments items)) :
    (∀ e ∈ r, turnEffect e.1 e.2 (set.find? e.1) = set.find? e.1) ↔
      Survives strTrimmed items := by
  constructor
  · intro heffects
    constructor
    · intro a ha
      obtain ⟨e, he, hkey, -⟩ := hr.keys a ha
      rw [← hkey]
      rcases turnEffect_eq_self_iff.mp (heffects e he) with hservice | ⟨v, hv, -⟩
      · exact .inl hservice
      · obtain ⟨hmem, hvkey⟩ := EnvironmentSet.find?_eq_some_iff.mp hv
        exact .inr ⟨v, hitems.mem_iff.mpr hmem, congrArg Subtype.val hvkey⟩
    · rintro before v after rfl heditable
      have hv : v ∈ before ++ v :: after := by simp
      obtain ⟨e, he, hkey, hdata⟩ := hr.keys _ (mem_ownAssignment hv)
      have hkey' : e.1 = v.key := Subtype.ext (hkey.trans (strTrim_key hkeys v.key))
      have hmatches : v.Matches e.2 := by
        rcases turnEffect_eq_self_iff.mp (heffects e he) with hservice | ⟨w, hw, h⟩
        · rw [hkey', heditable.1] at hservice
          cases hservice
        · rw [hkey', EnvironmentSet.find?_eq_some_iff.mpr ⟨hitems.mem_iff.mp hv, rfl⟩] at hw
          obtain rfl := Option.some.inj hw
          exact h heditable
      rw [lastAssigned_shown] at hdata
      rw [← Option.some.inj hdata] at hmatches
      cases hlast : lastAssigned (v.furtherAssignments ++ shownAssignments after) v.key.val with
      | none =>
          rw [hlast] at hmatches
          exact (matches_ownLine heditable).mp hmatches
      | some d =>
          rw [hlast] at hmatches
          exact hmatches
  · intro hsurvives e he
    obtain ⟨key, hkey, hdata⟩ := hr.data e he
    obtain ⟨a, ha, rfl⟩ := lastAssigned_isSome.mp (by rw [hdata]; rfl)
    refine turnEffect_eq_self_iff.mpr ?_
    rcases hsurvives.known a ha with hservice | ⟨v, hv, hvkey⟩
    · exact .inl (by rw [← hkey]; exact hservice)
    · have hvkey' : v.key = e.1 := Subtype.ext (hvkey.trans hkey)
      refine .inr ⟨v, EnvironmentSet.find?_eq_some_iff.mpr ⟨hitems.mem_iff.mp hv, hvkey'⟩,
        fun heditable => ?_⟩
      have hspelled : a.1 = v.key.val := by
        by_contra hne
        refine hrefused (.inr ⟨a, ha, _, mem_ownAssignment hv, hne, ?_⟩)
        rw [← hvkey, strTrim_key hkeys]
      obtain ⟨before, after, rfl⟩ := List.append_of_mem hv
      have hvalue := hsurvives.values before v after rfl heditable
      rw [hspelled, lastAssigned_shown] at hdata
      rw [← Option.some.inj hdata]
      cases hlast : lastAssigned (v.furtherAssignments ++ shownAssignments after) v.key.val with
      | none =>
          rw [hlast] at hvalue
          exact (matches_ownLine heditable).mpr hvalue
      | some d =>
          rw [hlast] at hvalue
          exact hvalue

/-! ## Values without line breaks -/

theorem furtherAssignments_of_line {v : EnvironmentVariable} (h : '\n' ∉ v.shownText) :
    v.furtherAssignments = [] := by
  rw [EnvironmentVariable.furtherAssignments, pieces_of_notMem h]
  rfl

theorem fst_of_mem_shown {items : List EnvironmentVariable}
    (h : ∀ v ∈ items, '\n' ∉ v.shownText) {a : String × EnvData} (ha : a ∈ shownAssignments items) :
    ∃ v ∈ items, v.key.val = a.1 := by
  obtain ⟨v, hv, hmem⟩ := List.mem_flatMap.mp ha
  rw [EnvironmentVariable.assignments, furtherAssignments_of_line (h v hv)] at hmem
  obtain rfl := List.mem_singleton.mp hmem
  exact ⟨v, hv, rfl⟩

theorem not_refused_of_lines (hkeys : ∀ c, isKeyChar c = true → strTrimmed c = false)
    {items : List EnvironmentVariable} (h : ∀ v ∈ items, '\n' ∉ v.shownText) :
    ¬ Refused strTrimmed (shownAssignments items) := by
  have hkey : ∀ a ∈ shownAssignments items, ∃ key : EnvironmentKey, a.1 = key.val ∧
      strTrim strTrimmed a.1 = key.val := fun a ha => by
    obtain ⟨v, -, hv⟩ := fst_of_mem_shown h ha
    exact ⟨v.key, hv.symm, by rw [← hv, strTrim_key hkeys]⟩
  rintro (⟨a, ha, hinvalid⟩ | ⟨a, ha, b, hb, hne, hsame⟩)
  · obtain ⟨key, -, htrim⟩ := hkey a ha
    rw [htrim, key.2] at hinvalid
    cases hinvalid
  · obtain ⟨key, hspelled, htrim⟩ := hkey a ha
    obtain ⟨key', hspelled', htrim'⟩ := hkey b hb
    rw [hspelled, hspelled', ← htrim, ← htrim'] at hne
    exact hne hsame

/-- Where no value has a line break, a set survives if and only if every value that can be
edited there is plain. -/
theorem survives_iff_of_lines (hkeys : ∀ c, isKeyChar c = true → strTrimmed c = false)
    {items : List EnvironmentVariable} (hnodup : (items.map (·.key)).Nodup)
    (h : ∀ v ∈ items, '\n' ∉ v.shownText) :
    Survives strTrimmed items ↔
      ∀ v ∈ items, v.IsEditable → ∃ s, v.value = some s ∧ PlainValue s.toList := by
  have hlast : ∀ before v after, items = before ++ v :: after →
      lastAssigned (v.furtherAssignments ++ shownAssignments after) v.key.val = none := by
    rintro before v after rfl
    rw [furtherAssignments_of_line (h v (by simp)), List.nil_append,
      ← Option.not_isSome_iff_eq_none, lastAssigned_isSome]
    rintro ⟨a, ha, hkey⟩
    obtain ⟨w, hw, hwkey⟩ := fst_of_mem_shown (fun w hw => h w (by simp [hw])) ha
    rw [List.map_append, List.map_cons] at hnodup
    refine (List.nodup_cons.mp hnodup.of_append_right).1 (List.mem_map.mpr ⟨w, hw, ?_⟩)
    exact Subtype.ext (hwkey.trans hkey)
  constructor
  · intro hsurvives v hv heditable
    obtain ⟨before, after, heq⟩ := List.append_of_mem hv
    have hvalue := hsurvives.values before v after heq heditable
    rw [hlast before v after heq] at hvalue
    exact hvalue
  · intro hplain
    constructor
    · intro a ha
      obtain ⟨v, hv, hkey⟩ := fst_of_mem_shown h ha
      exact .inr ⟨v, hv, by rw [← hkey, strTrim_key hkeys]⟩
    · intro before v after heq heditable
      rw [hlast before v after heq]
      exact hplain v (by rw [heq]; simp) heditable

/-! ## The submission -/

/-- Nothing is deleted: the text has a line for every variable. -/
theorem submitVariables_state (hkeys : ∀ c, isKeyChar c = true → strTrimmed c = false)
    {state : EnvironmentState} {items : List EnvironmentVariable}
    (hitems : items.Perm (state.rows isPreview).rows) {r : List (EnvironmentKey × EnvData)}
    (hr : Normalized strTrimmed (shownAssignments items) r) :
    (submitVariables page isPreview r state).state =
      (updateOrCreateVariables page isPreview r state).1 := by
  have hdelete : deleteRemovedVariables page (state.rows isPreview) r =
      (0, state.rows isPreview, []) := by
    refine deleteRemovedVariables_of_keys fun row hrow => ?_
    obtain ⟨e, he, hkey, -⟩ := hr.keys _ (mem_ownAssignment (hitems.mem_iff.mpr hrow))
    rw [strTrim_key hkeys] at hkey
    exact List.mem_map.mpr ⟨e, he, Subtype.ext hkey⟩
  unfold submitVariables
  rw [hdelete]
  show (updateOrCreateVariables page isPreview r _).1 = _
  rw [setRows_rows]

theorem submitVariables_eq_iff (page : EnvironmentPage) (isPreview : Bool)
    (hkeys : ∀ c, isKeyChar c = true → strTrimmed c = false) {state : EnvironmentState}
    {items : List EnvironmentVariable} (hitems : items.Perm (state.rows isPreview).rows)
    {r : List (EnvironmentKey × EnvData)} (hr : Normalized strTrimmed (shownAssignments items) r)
    (hrefused : ¬ Refused strTrimmed (shownAssignments items)) :
    ((submitVariables page isPreview r state).state.rows isPreview = state.rows isPreview →
      Survives strTrimmed items) ∧
    (Survives strTrimmed items → (submitVariables page isPreview r state).state = state) := by
  rw [submitVariables_state hkeys hitems hr, ← effects_iff hkeys hitems hr hrefused]
  exact ⟨effects_of_rows_eq hr.nodup, state_eq_of_effects⟩

theorem turn_production (acc : EnvironmentState × Nat) (e : EnvironmentKey × EnvData) :
    (updateOrCreateTurn page true acc e).1.production = acc.1.production := by
  unfold updateOrCreateTurn
  split
  · rfl
  · split
    · split
      · split <;> rfl
      · rfl
    · unfold createVariable
      dsimp only
      rw [if_neg (by simp)]
      rfl

/-- The preview's text changes the previews only. -/
theorem updateOrCreate_production (entries : List (EnvironmentKey × EnvData))
    (state : EnvironmentState) :
    (updateOrCreateVariables page true entries state).1.production = state.production := by
  suffices h : ∀ acc : EnvironmentState × Nat,
      (entries.foldl (updateOrCreateTurn page true) acc).1.production = acc.1.production from
    h (state, 0)
  induction entries with
  | nil => exact fun _ => rfl
  | cons e entries ih => exact fun acc => (ih _).trans (turn_production acc e)

theorem submitVariables_production (page : EnvironmentPage)
    (entries : List (EnvironmentKey × EnvData)) (state : EnvironmentState) :
    (submitVariables page true entries state).state.production = state.production := by
  unfold submitVariables
  exact updateOrCreate_production _ _

theorem refused_iff_error {l : List (String × EnvData)} :
    Refused strTrimmed l ↔
      ∃ message, normalizeEnvironmentVariables strTrimmed (setAll l OrderedMap.empty) =
        .error message := by
  constructor
  · intro h
    cases hr : normalizeEnvironmentVariables strTrimmed (setAll l OrderedMap.empty) with
    | error message => exact ⟨message, rfl⟩
    | ok r => exact absurd h (normalize_ok hr).2
  · rintro ⟨message, herror⟩
    by_contra h
    obtain ⟨r, hr⟩ := exists_normalize_ok h
    rw [hr] at herror
    cases herror

/-- Saving the developer view as it was rendered leaves every variable if and only if the
text is refused or every value survives it. -/
theorem unedited_iff (page : EnvironmentPage)
    (hkeys : ∀ c, isKeyChar c = true → strTrimmed c = false) (state : EnvironmentState)
    (items previewItems : List EnvironmentVariable)
    (hitems : items.Perm state.production.rows)
    (hpreview : previewItems.Perm state.preview.rows) :
    (handleBulkSubmit strTrimmed page (formatEnvironmentVariables false items)
        (formatEnvironmentVariables false previewItems) state).1 = state ↔
      Refused strTrimmed (shownAssignments items) ∨
        (Survives strTrimmed items ∧ (page.showPreview = true →
          Refused strTrimmed (shownAssignments previewItems) ∨
            Survives strTrimmed previewItems)) := by
  unfold handleBulkSubmit
  rw [parse_format, parse_format]
  by_cases hrefused : Refused strTrimmed (shownAssignments items)
  · obtain ⟨message, herror⟩ := refused_iff_error.mp hrefused
    rw [herror]
    exact iff_of_true rfl (.inl hrefused)
  · obtain ⟨r, hr⟩ := exists_normalize_ok hrefused
    have hmain := submitVariables_eq_iff page false hkeys hitems (normalize_ok hr).1 hrefused
    rw [hr, or_iff_right hrefused]
    dsimp only
    by_cases hshow : page.showPreview = true
    · rw [if_pos hshow]
      by_cases hrefused' : Refused strTrimmed (shownAssignments previewItems)
      · obtain ⟨message, herror⟩ := refused_iff_error.mp hrefused'
        rw [herror]
        exact ⟨fun h => ⟨hmain.1 (congrArg (·.rows false) h), fun _ => .inl hrefused'⟩,
          fun h => hmain.2 h.1⟩
      · obtain ⟨r', hr'⟩ := exists_normalize_ok hrefused'
        have hpreview' : previewItems.Perm (state.rows true).rows := hpreview
        have hsecond := submitVariables_eq_iff page true hkeys hpreview' (normalize_ok hr').1
          hrefused'
        rw [hr', or_iff_right hrefused']
        dsimp only
        constructor
        · intro h
          have hproduction := submitVariables_production page r'
            (submitVariables page false r state).state
          rw [h] at hproduction
          have hsurvives := hmain.1 hproduction.symm
          rw [hmain.2 hsurvives] at h
          exact ⟨hsurvives, fun _ => hsecond.1 (congrArg (·.rows true) h)⟩
        · rintro ⟨hsurvives, hboth⟩
          rw [hmain.2 hsurvives]
          exact hsecond.2 (hboth hshow)
    · rw [if_neg hshow]
      exact ⟨fun h => ⟨hmain.1 (congrArg (·.rows false) h), fun h => absurd h hshow⟩,
        fun h => hmain.2 h.1⟩

end

theorem not_trimmed_of_isKeyChar (c : Char) (h : isKeyChar c = true) : isTrimmed c = false := by
  by_contra htrimmed
  have hc : isTrimmed c = true := by simpa using htrimmed
  simp only [isTrimmed, Bool.or_eq_true, beq_iff_eq] at hc
  rcases hc with ((((rfl | rfl) | rfl) | rfl) | rfl) | rfl <;> exact absurd h (by decide)

def plainSecret (value : String) (h : trim value = value) : EnvironmentVariable where
  key := ⟨"SECRET", by decide +kernel⟩
  value := some value
  comment := none
  isShownOnce := false
  isMultiline := false
  trimmed := by rintro s ⟨⟩; exact h

def onlySecret (value : String) (h : trim value = value) : EnvironmentState where
  production := ⟨[plainSecret value h], List.nodup_singleton _⟩
  preview := ⟨[], List.nodup_nil⟩

def productionPage : EnvironmentPage where
  showPreview := false
  isApplication := false
  guardsCompose := false
  usedInCompose := fun _ => false

/-- The text for `p4ss` leaves it. -/
theorem unedited_p4ss :
    (handleBulkSubmit isTrimmed productionPage
        (formatEnvironmentVariables false [plainSecret "p4ss" (by decide +kernel)])
        (formatEnvironmentVariables false []) (onlySecret "p4ss" (by decide +kernel))).1 =
      onlySecret "p4ss" (by decide +kernel) := by
  have hiff := unedited_iff productionPage not_trimmed_of_isKeyChar
    (onlySecret "p4ss" (by decide +kernel)) [plainSecret "p4ss" (by decide +kernel)] [] (.refl _)
    (.refl _)
  refine hiff.mpr (.inr ⟨?_, nofun⟩)
  have hline : ∀ v ∈ [plainSecret "p4ss" (by decide +kernel)], '\n' ∉ v.shownText := by
    intro v hv
    obtain rfl := List.mem_singleton.mp hv
    decide +kernel
  have hsurvives := survives_iff_of_lines not_trimmed_of_isKeyChar
    (onlySecret "p4ss" (by decide +kernel)).production.nodup hline
  refine hsurvives.mpr fun v hv _ => ?_
  obtain rfl := List.mem_singleton.mp hv
  refine ⟨"p4ss", rfl, by decide +kernel, by decide +kernel, fun before c after heq => ?_⟩
  have hhash : '#' ∈ "p4ss".toList := by rw [heq]; simp
  exact absurd hhash (by decide +kernel)

/-- Of `pass #word` the rest becomes a comment. -/
theorem unedited_cuts_secret :
    ¬ ∀ (page : EnvironmentPage) (state : EnvironmentState)
      (items previewItems : List EnvironmentVariable), items.Perm state.production.rows →
      previewItems.Perm state.preview.rows →
      (handleBulkSubmit isTrimmed page (formatEnvironmentVariables false items)
        (formatEnvironmentVariables false previewItems) state).1 = state := by
  intro h
  have hkept := h productionPage (onlySecret "pass #word" (by decide +kernel))
    [plainSecret "pass #word" (by decide +kernel)] [] (.refl _) (.refl _)
  have hcut : (handleBulkSubmit isTrimmed productionPage
      (formatEnvironmentVariables false [plainSecret "pass #word" (by decide +kernel)])
      (formatEnvironmentVariables false [])
      (onlySecret "pass #word" (by decide +kernel))).1.production.rows.map (·.value) =
        [some "pass"] := by decide +kernel
  rw [hkept] at hcut
  exact absurd hcut (by decide +kernel)

end OnePloy
