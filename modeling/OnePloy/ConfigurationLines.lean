import OnePloy.ConfigurationItems
import Mathlib.Data.List.DropRight

/-!
# Lines that differ

The Compose text, the service domains and the container labels are shown by the
lines that differ. The lines are taken from what the snapshot keeps of a text in
full, which is nothing of a short one.
-/

namespace OnePloy

open Php ConfigurationDiffer ConfigurationItems

namespace ConfigurationLines

/-! ## Lines of a text -/

theorem splitLines_ne_nil (cs : List Char) : splitLines cs ≠ [] := by
  fun_cases splitLines cs <;> simp_all

theorem splitLines_cons {c : Char} (h : ¬ (c = '\r' ∨ c = '\n')) (cs : List Char) :
    ∃ line lines, splitLines cs = line :: lines ∧
      splitLines (c :: cs) = (c :: line) :: lines := by
  obtain ⟨line, lines, heq⟩ := List.exists_cons_of_ne_nil (splitLines_ne_nil cs)
  refine ⟨line, lines, heq, ?_⟩
  rw [splitLines, if_neg h, heq]
  rintro cs rfl
  exact absurd (Or.inl rfl) h

theorem splitLines_of_plain {cs : List Char} (hplain : ∀ c ∈ cs, ¬ (c = '\r' ∨ c = '\n')) :
    splitLines cs = [cs] := by
  induction cs with
  | nil => rfl
  | cons c cs ih =>
      obtain ⟨line, lines, heq, hcons⟩ := splitLines_cons (hplain c (List.mem_cons_self ..)) cs
      rw [ih fun d hd => hplain d (List.mem_cons_of_mem _ hd)] at heq
      obtain ⟨rfl, rfl⟩ := List.cons.inj heq
      exact hcons

theorem splitLines_append {a : List Char} (hplain : ∀ c ∈ a, ¬ (c = '\r' ∨ c = '\n'))
    (rest : List Char) : splitLines (a ++ '\n' :: rest) = a :: splitLines rest := by
  induction a with
  | nil => rw [List.nil_append, splitLines] <;> simp
  | cons c a ih =>
      obtain ⟨line, lines, heq, hcons⟩ :=
        splitLines_cons (hplain c (List.mem_cons_self ..)) (a ++ '\n' :: rest)
      rw [ih fun d hd => hplain d (List.mem_cons_of_mem _ hd)] at heq
      obtain ⟨rfl, rfl⟩ := List.cons.inj heq
      exact hcons

theorem splitLines_intercalate : ∀ {lines : List (List Char)}, lines ≠ [] →
    (∀ line ∈ lines, ∀ c ∈ line, ¬ (c = '\r' ∨ c = '\n')) →
    splitLines (['\n'].intercalate lines) = lines
  | [], hne, _ => absurd rfl hne
  | [line], _, h => by
      rw [List.intercalate_singleton, splitLines_of_plain (h line (List.mem_singleton_self _))]
  | line :: line' :: lines, _, h => by
      rw [intercalate_cons_cons, splitLines_append (h line (List.mem_cons_self ..)),
        splitLines_intercalate (List.cons_ne_nil _ _) fun l hl => h l (List.mem_cons_of_mem _ hl)]

theorem plain_of_mem_splitLines {cs line : List Char} (h : line ∈ splitLines cs) :
    ∀ c ∈ line, ¬ (c = '\r' ∨ c = '\n') := by
  fun_induction splitLines cs generalizing line with
  | case1 =>
      obtain rfl := List.mem_singleton.mp h
      exact fun _ hc => absurd hc List.not_mem_nil
  | case2 cs ih =>
      rcases List.mem_cons.mp h with rfl | h
      · exact fun _ hc => absurd hc List.not_mem_nil
      · exact ih h
  | case3 c cs hne hbreak ih =>
      rcases List.mem_cons.mp h with rfl | h
      · exact fun _ hc => absurd hc List.not_mem_nil
      · exact ih h
  | case4 c cs hne hbreak heq ih => exact absurd heq (splitLines_ne_nil cs)
  | case5 c cs hne hbreak first rest heq ih =>
      rw [heq] at ih
      rcases List.mem_cons.mp h with rfl | h
      · intro d hd
        rcases List.mem_cons.mp hd with rfl | hd
        · exact hbreak
        · exact ih (List.mem_cons_self ..) d hd
      · exact ih (List.mem_cons_of_mem _ h)

/-- A line as `textLines` has it. -/
structure IsLine (line : String) : Prop where
  plain : ∀ c ∈ line.toList, ¬ (c = '\r' ∨ c = '\n')
  rtrim_eq : rtrim line.toList = line.toList
  trim_ne : trim line ≠ ""

theorem rtrim_rtrim (cs : List Char) : rtrim (rtrim cs) = rtrim cs := by
  rw [rtrim, rtrim, List.reverse_reverse, List.dropWhile_idempotent]

theorem isLine_of_mem_textLines {text : Option String} {line : String}
    (h : line ∈ textLines text) : IsLine line := by
  rw [textLines] at h
  split at h
  · exact absurd h List.not_mem_nil
  · obtain ⟨hmem, htrim⟩ := List.mem_filter.mp h
    obtain ⟨cs, hcs, rfl⟩ := List.mem_map.mp hmem
    refine ⟨fun c hc => ?_, ?_, of_decide_eq_true htrim⟩
    · refine plain_of_mem_splitLines hcs c ?_
      rw [rtrimText, String.toList_ofList, rtrim, List.mem_reverse] at hc
      exact List.mem_reverse.mp ((List.dropWhile_sublist _).mem hc)
    · rw [rtrimText, String.toList_ofList, rtrim_rtrim]

theorem not_blank_of_trim_ne {s : String} (h : trim s ≠ "") : blank (some s) = false := by
  refine eq_false_of_ne_true fun hblank => h ?_
  have hnil : s.toList.dropWhile isTrimmed = [] :=
    List.dropWhile_eq_nil_iff.mpr fun c hc => List.all_eq_true.mp hblank c hc
  rw [trim, hnil]
  rfl

/-- Lines that are joined are read back. -/
theorem textLines_join {lines : List String} (hne : lines ≠ []) (h : ∀ line ∈ lines, IsLine line) :
    textLines (some ("\n".intercalate lines)) = lines := by
  have hjoin : ("\n".intercalate lines).toList = ['\n'].intercalate (lines.map String.toList) := by
    simp [String.toList_intercalate]
  have hsplit : splitLines ("\n".intercalate lines).toList = lines.map String.toList := by
    rw [hjoin]
    refine splitLines_intercalate (mt List.map_eq_nil_iff.mp hne) fun cs hcs => ?_
    obtain ⟨line, hline, rfl⟩ := List.mem_map.mp hcs
    exact (h line hline).plain
  have hblank : blank (some ("\n".intercalate lines)) = false := by
    obtain ⟨line, rest, rfl⟩ := List.exists_cons_of_ne_nil hne
    have hline := not_blank_of_trim_ne (h line (List.mem_cons_self ..)).trim_ne
    obtain ⟨c, hc, htrimmed⟩ := List.all_eq_false.mp hline
    refine List.all_eq_false.mpr ⟨c, ?_, htrimmed⟩
    rw [hjoin, List.map_cons]
    cases rest with
    | nil => simpa using hc
    | cons line' rest =>
        rw [List.map_cons, intercalate_cons_cons]
        exact List.mem_append_left _ hc
  have hlines : (lines.map String.toList).map rtrimText = lines := by
    rw [List.map_map]
    refine (List.map_congr_left fun line hline => ?_).trans (List.map_id _)
    rw [Function.comp_apply, rtrimText, (h line hline).rtrim_eq, String.ofList_toList, id]
  rw [textLines, if_neg (by simp [hblank]), Option.getD_some, hsplit, hlines]
  exact List.filter_eq_self.mpr fun line hline => decide_eq_true (h line hline).trim_ne

/-! ## What a display shows -/

/-- The lines of a display, of which one dash alone stands for none. -/
def shownLines (display : String) : List String :=
  if display = "-" then [] else textLines (some display)

def differingLines (text other : Option String) : List String :=
  (textLines text).filter fun line => line ∉ textLines other

theorem changedLines_eq (old new : Option String) :
    changedLines old new =
      (joinLines (differingLines old new), joinLines (differingLines new old)) := rfl

theorem mem_differingLines {text other : Option String} {line : String} :
    line ∈ differingLines text other ↔ line ∈ textLines text ∧ line ∉ textLines other := by
  rw [differingLines, List.mem_filter, decide_eq_true_iff]

theorem isLine_of_mem_differingLines {text other : Option String} :
    ∀ line ∈ differingLines text other, IsLine line :=
  fun _ h => isLine_of_mem_textLines (mem_differingLines.mp h).1

theorem joinLines_eq_dash {lines : List String} (h : ∀ line ∈ lines, IsLine line) :
    joinLines lines = "-" ↔ lines = [] ∨ lines = ["-"] := by
  constructor
  · intro heq
    by_cases hne : lines = []
    · exact .inl hne
    · right
      rw [joinLines, if_neg hne] at heq
      rw [← textLines_join hne h, heq]
      decide
  · rintro (rfl | rfl) <;> rfl

/-- One dash cannot be told from no line. -/
def withoutLoneDash (lines : List String) : List String := if lines = ["-"] then [] else lines

theorem shownLines_joinLines {lines : List String} (h : ∀ line ∈ lines, IsLine line) :
    shownLines (joinLines lines) = withoutLoneDash lines := by
  rw [shownLines, withoutLoneDash]
  by_cases hdash : lines = ["-"]
  · rw [if_pos hdash, if_pos ((joinLines_eq_dash h).mpr (.inr hdash))]
  · rw [if_neg hdash]
    by_cases hne : lines = []
    · rw [if_pos ((joinLines_eq_dash h).mpr (.inl hne)), hne]
    · rw [if_neg fun heq => ((joinLines_eq_dash h).mp heq).elim hne hdash, joinLines,
        if_neg hne, textLines_join hne h]

theorem withoutLoneDash_eq_nil {lines : List String} (h : ∀ line ∈ lines, IsLine line) :
    withoutLoneDash lines = [] ↔ joinLines lines = "-" := by
  rw [joinLines_eq_dash h, withoutLoneDash]
  split <;> simp_all

theorem withoutLoneDash_of_notMem {lines : List String} (h : "-" ∉ lines) :
    withoutLoneDash lines = lines :=
  if_neg fun heq => h (by rw [heq]; exact List.mem_singleton_self _)

/-- A display shows the lines of a text that another one does not have. -/
def Shows (display : String) (text other : Option String) : Prop :=
  ∀ line, line ∈ shownLines display ↔ line ∈ textLines text ∧ line ∉ textLines other

/-- The lines of what is kept of a text, that stand in nothing that is kept of another. -/
def keptDifference (text other : Option String) : List String :=
  withoutLoneDash (differingLines (expandableText text) (expandableText other))

/-- What is kept of two texts differs in the lines in which they differ; or it does not
differ, and the summaries have these lines. -/
def LinesKept (setup : SnapshotSetup) (old new : Option String) : Prop :=
  ((∀ line, line ∈ keptDifference old new ↔ line ∈ textLines old ∧ line ∉ textLines new) ∧
      ∀ line, line ∈ keptDifference new old ↔ line ∈ textLines new ∧ line ∉ textLines old) ∨
    keptDifference old new = [] ∧ keptDifference new old = [] ∧
      Shows (setup.summarizeText old) old new ∧ Shows (setup.summarizeText new) new old

def Differ (old new : Option String) : Prop :=
  ∃ line, ¬ (line ∈ textLines old ↔ line ∈ textLines new)

variable {setup : SnapshotSetup} {old new : Option String}

theorem keptDifference_eq_nil (text other : Option String) :
    joinLines (differingLines (expandableText text) (expandableText other)) = "-" ↔
      keptDifference text other = [] :=
  (withoutLoneDash_eq_nil isLine_of_mem_differingLines).symm

theorem shows_joined_iff (text other : Option String) :
    Shows (joinLines (differingLines (expandableText text) (expandableText other))) text other ↔
      ∀ line, line ∈ keptDifference text other ↔
        line ∈ textLines text ∧ line ∉ textLines other := by
  rw [Shows, shownLines_joinLines isLine_of_mem_differingLines]
  rfl

theorem lineTexts_show_iff {previous current : FlatItem}
    (hprevious : previous.item.displayFull = expandableText old)
    (hcurrent : current.item.displayFull = expandableText new)
    (hold : previous.item.displayValue = setup.summarizeText old)
    (hnew : current.item.displayValue = setup.summarizeText new) (hdiffer : Differ old new) :
    (Shows (lineTexts (some previous) (some current)).oldDisplay old new ∧
        Shows (lineTexts (some previous) (some current)).newDisplay new old) ↔
      LinesKept setup old new := by
  simp only [lineTexts, fullOf, displayOr, Option.bind_some, Option.map_some, Option.getD_some,
    hprevious, hcurrent, hold, hnew, changedLines_eq, keptDifference_eq_nil]
  rw [LinesKept]
  by_cases hnone : keptDifference old new = [] ∧ keptDifference new old = []
  · -- Some line differs, and no line that is kept.
    have hsome : ¬ ((∀ line, line ∈ keptDifference old new ↔
        line ∈ textLines old ∧ line ∉ textLines new) ∧
        ∀ line, line ∈ keptDifference new old ↔ line ∈ textLines new ∧ line ∉ textLines old) := by
      rintro ⟨hleft, hright⟩
      obtain ⟨line, hne⟩ := hdiffer
      have hl := hleft line
      have hr := hright line
      rw [hnone.1] at hl
      rw [hnone.2] at hr
      simp only [List.not_mem_nil, false_iff] at hl hr
      tauto
    rw [if_pos hnone, or_iff_right hsome, and_iff_right hnone.1, and_iff_right hnone.2]
  · rw [if_neg hnone, shows_joined_iff, shows_joined_iff,
      or_iff_left fun h => hnone ⟨h.1, h.2.1⟩]

/-! ## Texts of an application -/

/-- The texts that are shown by lines. -/
inductive LinedText
  | dockerCompose
  | serviceDomains
  | containerLabels
  deriving DecidableEq, Repr

def LinedText.key : LinedText → String
  | dockerCompose => "build.docker_compose_raw"
  | serviceDomains => "domains.docker_compose_domains"
  | containerLabels => "domains.custom_labels"

def LinedText.text (setup : SnapshotSetup) (app : ApplicationConfig) : LinedText → Option String
  | dockerCompose => app.text "docker_compose_raw"
  | serviceDomains => SnapshotSetup.composeDomainsText app
  | containerLabels => setup.decodeCustomLabels (app.text "custom_labels")

theorem textItem_spec (setup : SnapshotSetup) (key label : String) (value : Value)
    (impact : Impact) {shown : Option String} {text : String} (h : shown = some text) :
    (setup.textItem key label value impact shown .lines).displayFull =
        expandableText (some text) ∧
      (setup.textItem key label value impact shown .lines).displayValue =
        setup.summarizeText (some text) := by
  rw [h, SnapshotSetup.textItem, SnapshotSetup.itemWith]
  constructor
  · dsimp only
    rw [if_neg Bool.false_ne_true, Option.some_or]
  · rw [Option.getD_some]

theorem itemAt_linedText (setup : SnapshotSetup) (app : ApplicationConfig) (kind : LinedText)
    {text : String} (htext : kind.text setup app = some text) :
    ∃ x, itemAt setup app kind.key = some x ∧ x.item.isSensitive = false ∧
      x.item.diffMode = .lines ∧ x.item.displayFull = expandableText (some text) ∧
      x.item.displayValue = setup.summarizeText (some text) := by
  cases kind with
  | dockerCompose =>
      exact ⟨_, itemAt_eq_some.mpr (.inl ⟨⟨"build", "Build", setup.buildItems app⟩,
        by simp [staticSections], setup.textItem "docker_compose_raw" "Docker Compose"
          (app.column "docker_compose_raw") .build (app.text "docker_compose_raw") .lines,
        by simp [SnapshotSetup.buildItems], rfl, rfl⟩), rfl, rfl, textItem_spec _ _ _ _ _ htext⟩
  | serviceDomains =>
      exact ⟨_, itemAt_eq_some.mpr (.inl ⟨⟨"domains", "Domains & Proxy", setup.domainItems app⟩,
        by simp [staticSections], setup.textItem "docker_compose_domains" "Service domains"
          ((SnapshotSetup.decodedComposeDomains app).getD .null) .redeploy
          (SnapshotSetup.composeDomainsText app) .lines,
        by simp [SnapshotSetup.domainItems], rfl, rfl⟩), rfl, rfl, textItem_spec _ _ _ _ _ htext⟩
  | containerLabels =>
      exact ⟨_, itemAt_eq_some.mpr (.inl ⟨⟨"domains", "Domains & Proxy", setup.domainItems app⟩,
        by simp [staticSections], setup.textItem "custom_labels" "Container labels"
          (app.column "custom_labels") .redeploy
          (setup.decodeCustomLabels (app.text "custom_labels")) .lines,
        by simp [SnapshotSetup.domainItems], rfl, rfl⟩), rfl, rfl, textItem_spec _ _ _ _ _ htext⟩

/-- What a change of such a text displays. -/
theorem change_displays {previous current : ApplicationConfig} {kind : LinedText}
    {old new : String} (hold : kind.text setup previous = some old)
    (hnew : kind.text setup current = some new) {c : ConfigChange}
    (hc : c ∈ diff (setup.toArray previous) (setup.toArray current)) (hkey : c.key = kind.key)
    (hdiffer : Differ (some old) (some new)) :
    (Shows c.oldDisplayValue (some old) (some new) ∧
        Shows c.newDisplayValue (some new) (some old)) ↔
      LinesKept setup (some old) (some new) := by
  obtain ⟨x, hx, -, -, hfull, hvalue⟩ := itemAt_linedText setup previous kind hold
  obtain ⟨y, hy, hsensitive, hmode, hfull', hvalue'⟩ := itemAt_linedText setup current kind hnew
  obtain ⟨item, hitem, heq⟩ := reportItem_eq_some (mem_diff_iff.mp hc)
  rw [hkey, hx, hy] at heq
  rw [hkey, hx, hy, Option.some_or] at hitem
  obtain rfl := Option.some.inj hitem
  have hshown : shownTexts y (some x) (some y) = lineTexts (some x) (some y) := by
    rw [shownTexts, if_neg (by simp [hsensitive]), if_pos ⟨hmode, rfl⟩]
  rw [heq, changeOf, hshown]
  exact lineTexts_show_iff hfull hfull' hvalue hvalue' hdiffer

/-! ## Plain texts -/

/-- Neither trimming nor, of a short text, the limit of a summary changes a line, and no
line is a dash alone. -/
structure IsPlain (setup : SnapshotSetup) (text : String) : Prop where
  trim_lines : textLines (some (trim text)) = textLines (some text)
  limit_lines : expandableText (some text) = none →
    textLines (some (setup.limit (trim text) singleLineLimit)) = textLines (some text)
  no_dash : "-" ∉ textLines (some text)

theorem expandableText_eq_some {text kept : String} (h : expandableText (some text) = some kept) :
    kept = trim text := by
  rw [expandableText] at h
  grind

theorem trim_ne_of_textLines {text : String} (h : textLines (some text) ≠ []) :
    trim text ≠ "" := by
  intro htrim
  have hblank : blank (some text) = true := by
    refine List.all_eq_true.mpr fun c hc => by_contra fun hkeep => ?_
    have hmem := mem_trim (eq_false_of_ne_true hkeep) hc
    rw [htrim] at hmem
    exact absurd hmem List.not_mem_nil
  exact h (by rw [textLines, if_pos hblank])

theorem summarizeText_short {text : String} (hne : textLines (some text) ≠ [])
    (h : expandableText (some text) = none) :
    setup.summarizeText (some text) = setup.limit (trim text) singleLineLimit := by
  have htrim := trim_ne_of_textLines hne
  have hshort : ¬ ('\n' ∈ (trim text).toList ∨ singleLineLimit < (trim text).length) := by
    intro hlong
    simp only [expandableText, if_neg htrim, if_pos hlong] at h
    cases h
  have hcount : (trim text).toList.count '\n' = 0 :=
    List.count_eq_zero.mpr fun hmem => hshort (.inl hmem)
  simp only [SnapshotSetup.summarizeText, if_neg htrim, hcount]
  rfl

theorem IsPlain.kept_lines {text : String} (h : IsPlain setup text) :
    textLines (expandableText (some text)) =
      if (expandableText (some text)).isSome then textLines (some text) else [] := by
  cases hkept : expandableText (some text) with
  | none => rfl
  | some kept =>
      rw [expandableText_eq_some hkept]
      exact h.trim_lines

theorem IsPlain.mem_keptDifference {text : String} (h : IsPlain setup text) (other : Option String)
    {line : String} :
    line ∈ keptDifference (some text) other ↔
      line ∈ textLines (expandableText (some text)) ∧ line ∉ textLines (expandableText other) := by
  have hdash : "-" ∉ differingLines (expandableText (some text)) (expandableText other) := by
    intro hmem
    have hline := (mem_differingLines.mp hmem).1
    rw [h.kept_lines] at hline
    split at hline
    · exact h.no_dash hline
    · exact absurd hline List.not_mem_nil
  rw [keptDifference, withoutLoneDash_of_notMem hdash, mem_differingLines]

theorem IsPlain.shownLines_summary {text : String} (h : IsPlain setup text)
    (hne : textLines (some text) ≠ []) (hshort : expandableText (some text) = none) :
    shownLines (setup.summarizeText (some text)) = textLines (some text) := by
  have hlines := h.limit_lines hshort
  rw [summarizeText_short hne hshort, shownLines, if_neg, hlines]
  intro hdash
  have hmem : "-" ∈ textLines (some (setup.limit (trim text) singleLineLimit)) := by
    rw [hdash]
    decide
  exact h.no_dash (hlines ▸ hmem)

/-- Of plain texts the right lines are shown where both are kept, and where neither is and
they have no line in common. -/
theorem linesKept_plain_iff {old new : String} (hold : IsPlain setup old) (hnew : IsPlain setup new)
    (hlines : textLines (some old) ≠ []) (hlines' : textLines (some new) ≠ [])
    (hdiffer : Differ (some old) (some new)) :
    LinesKept setup (some old) (some new) ↔
      ((expandableText (some old)).isSome ∧ (expandableText (some new)).isSome) ∨
        (expandableText (some old) = none ∧ expandableText (some new) = none ∧
          ∀ line ∈ textLines (some old), line ∉ textLines (some new)) := by
  obtain ⟨first, hfirst⟩ := List.exists_mem_of_ne_nil _ hlines
  obtain ⟨first', hfirst'⟩ := List.exists_mem_of_ne_nil _ hlines'
  have hnil : ∀ {text other : String}, IsPlain setup text →
      (keptDifference (some text) (some other) = [] ↔
        ∀ line ∈ textLines (expandableText (some text)),
          line ∈ textLines (expandableText (some other))) := by
    intro text other h
    rw [List.eq_nil_iff_forall_not_mem]
    refine forall_congr' fun line => ?_
    rw [h.mem_keptDifference, not_and, not_not]
  rw [LinesKept, hnil hold, hnil hnew]
  simp only [hold.mem_keptDifference, hnew.mem_keptDifference, hold.kept_lines, hnew.kept_lines]
  cases ho : expandableText (some old) with
  | some kept =>
      cases hn : expandableText (some new) with
      | some kept' => simp
      | none =>
          refine iff_of_false ?_ (by simp)
          simp only [Option.isSome_some, Option.isSome_none, if_true, Bool.false_eq_true, if_false,
            List.not_mem_nil, not_false_iff, and_true, false_and, false_iff]
          rintro (⟨hleft, hright⟩ | ⟨hempty, -⟩)
          · have hin : first' ∈ textLines (some old) :=
              not_not.mp fun hout => hright first' ⟨hfirst', hout⟩
            exact ((hleft first').mp hin).2 hfirst'
          · exact hempty first hfirst
  | none =>
      cases hn : expandableText (some new) with
      | some kept' =>
          refine iff_of_false ?_ (by simp)
          simp only [Option.isSome_some, Option.isSome_none, if_true, Bool.false_eq_true, if_false,
            List.not_mem_nil, not_false_iff, and_true, false_and, false_iff]
          rintro (⟨hleft, hright⟩ | ⟨-, hempty, -⟩)
          · have hin : first ∈ textLines (some new) :=
              not_not.mp fun hout => hleft first ⟨hfirst, hout⟩
            exact ((hright first).mp hin).2 hfirst
          · exact hempty first' hfirst'
      | none =>
          simp only [Option.isSome_none, Bool.false_eq_true, if_false, List.not_mem_nil, false_and,
            false_iff, not_and, not_not, and_false, false_or, true_and, false_implies,
            implies_true]
          constructor
          · rintro (⟨hleft, hright⟩ | ⟨hshow, -⟩)
            · obtain ⟨line, hne⟩ := hdiffer
              exact absurd ⟨hleft line, hright line⟩ hne
            · intro line hin
              rw [Shows, hold.shownLines_summary hlines ho] at hshow
              exact ((hshow line).mp hin).2
          · intro hapart
            rw [Shows, Shows, hold.shownLines_summary hlines ho,
              hnew.shownLines_summary hlines' hn]
            exact .inr ⟨fun line => (and_iff_left_of_imp (hapart line)).symm,
              fun line => (and_iff_left_of_imp fun hin hin' => hapart line hin' hin).symm⟩

/-- The lines that differ are shown exactly where they differ in what is kept of the two
texts. Of plain texts both are kept then, or neither and they share no line. -/
theorem displays_show_iff (setup : SnapshotSetup) {previous current : ApplicationConfig}
    {kind : LinedText} {old new : String} (hold : kind.text setup previous = some old)
    (hnew : kind.text setup current = some new) (hlines : textLines (some old) ≠ [])
    (hlines' : textLines (some new) ≠ []) (hdiffer : Differ (some old) (some new))
    {c : ConfigChange} (hc : c ∈ diff (setup.toArray previous) (setup.toArray current))
    (hkey : c.key = kind.key) :
    ((Shows c.oldDisplayValue (some old) (some new) ∧
        Shows c.newDisplayValue (some new) (some old)) ↔
      LinesKept setup (some old) (some new)) ∧
    (IsPlain setup old → IsPlain setup new →
      ((Shows c.oldDisplayValue (some old) (some new) ∧
          Shows c.newDisplayValue (some new) (some old)) ↔
        ((expandableText (some old)).isSome ∧ (expandableText (some new)).isSome) ∨
          (expandableText (some old) = none ∧ expandableText (some new) = none ∧
            ∀ line ∈ textLines (some old), line ∉ textLines (some new)))) := by
  have hiff := change_displays hold hnew hc hkey hdiffer
  exact ⟨hiff, fun hplain hplain' =>
    hiff.trans (linesKept_plain_iff hplain hplain' hlines hlines' hdiffer)⟩

/-- An application with a Compose text. -/
def withCompose (text : String) : ApplicationConfig :=
  { newApplication with
    column := fun name => if name = "docker_compose_raw" then .string text else .null
    column_scalar := fun name => by split <;> rfl }

theorem withCompose_reported {old new : String} (hold : old ≠ "") (hnew : new ≠ "")
    (hne : old ≠ new) : ∃ c ∈ diff (readableHashes.toArray (withCompose old))
      (readableHashes.toArray (withCompose new)), c.key = LinedText.dockerCompose.key := by
  obtain ⟨item, hitem⟩ : ∃ item : String → FlatItem, ∀ text,
      itemAt readableHashes (withCompose text) "build.docker_compose_raw" = some (item text) ∧
        (text ≠ "" → (item text).item.compareValue = .string text) := by
    refine ⟨fun text => ⟨readableHashes.textItem "docker_compose_raw" "Docker Compose"
      (.string text) .build (some text) .lines, "build", "Build"⟩, fun text => ⟨?_, fun h => ?_⟩⟩
    · exact itemAt_eq_some.mpr (.inl ⟨⟨"build", "Build",
        readableHashes.buildItems (withCompose text)⟩, by simp [staticSections], _,
        by simp [SnapshotSetup.buildItems, withCompose, ApplicationConfig.text, asNullableString,
          Value.toText, Except.toOption], rfl, rfl⟩)
    · simp [SnapshotSetup.textItem, SnapshotSetup.itemWith, SnapshotSetup.normalizeValue, h,
        Value.isArray]
  have hvalue : compareValueOf (some (item old)) ≠ compareValueOf (some (item new)) := by
    rw [compareValueOf, compareValueOf, Option.map_some, Option.map_some, Option.getD_some,
      Option.getD_some, (hitem old).2 hold, (hitem new).2 hnew]
    exact mt Value.string.inj hne
  have hreport : reportItem "build.docker_compose_raw"
      (itemAt readableHashes (withCompose old) "build.docker_compose_raw")
      (itemAt readableHashes (withCompose new) "build.docker_compose_raw") =
      some (changeOf "build.docker_compose_raw" (item new) (some (item old))
        (some (item new))) := by
    rw [(hitem old).1, (hitem new).1, reportItem, if_neg (by decide), if_neg (by simp),
      if_neg hvalue]
    rfl
  exact ⟨_, mem_diff_of_report hreport⟩

/-- Of a short text nothing is kept, so that each line of the other one seems new. -/
theorem short_text_hides_lines : ¬ ∀ (kind : LinedText) (previous current : ApplicationConfig),
    textLines (kind.text readableHashes previous) ≠ [] →
    textLines (kind.text readableHashes current) ≠ [] →
    Differ (kind.text readableHashes previous) (kind.text readableHashes current) →
    ∀ c ∈ diff (readableHashes.toArray previous) (readableHashes.toArray current),
      c.key = kind.key →
        Shows c.oldDisplayValue (kind.text readableHashes previous)
            (kind.text readableHashes current) ∧
          Shows c.newDisplayValue (kind.text readableHashes current)
            (kind.text readableHashes previous) := by
  intro h
  obtain ⟨c, hc, hkey⟩ := @withCompose_reported "services: \x7b\x7d"
    "services: \x7b\x7d\nvolumes: \x7b\x7d" (by decide) (by decide) (by decide)
  have hdiffer : Differ (some "services: \x7b\x7d")
      (some "services: \x7b\x7d\nvolumes: \x7b\x7d") :=
    ⟨"volumes: \x7b\x7d", by decide⟩
  have hshown := h .dockerCompose (withCompose "services: \x7b\x7d")
    (withCompose "services: \x7b\x7d\nvolumes: \x7b\x7d") (by decide) (by decide) hdiffer c hc
    hkey
  rcases (@change_displays readableHashes _ _ .dockerCompose _ _ rfl rfl c hc hkey hdiffer).mp
    hshown with ⟨-, hright⟩ | ⟨-, hnone, -⟩
  · exact ((hright "services: \x7b\x7d").mp (by decide)).2 (by decide)
  · exact absurd hnone (by decide)

/-- Two short texts without a common line. -/
theorem short_texts_shown :
    ∃ c ∈ diff (readableHashes.toArray (withCompose "services: \x7b\x7d"))
      (readableHashes.toArray (withCompose "volumes: \x7b\x7d")),
      Shows c.oldDisplayValue (some "services: \x7b\x7d") (some "volumes: \x7b\x7d") ∧
        Shows c.newDisplayValue (some "volumes: \x7b\x7d") (some "services: \x7b\x7d") := by
  obtain ⟨c, hc, hkey⟩ := @withCompose_reported "services: \x7b\x7d" "volumes: \x7b\x7d"
    (by decide) (by decide) (by decide)
  obtain ⟨-, hplain⟩ := @displays_show_iff readableHashes _ _ .dockerCompose
    "services: \x7b\x7d" "volumes: \x7b\x7d" rfl rfl (by decide) (by decide)
    ⟨"volumes: \x7b\x7d", by decide⟩ c hc hkey
  refine ⟨c, hc, (hplain ⟨by decide, fun _ => by decide, by decide⟩
    ⟨by decide, fun _ => by decide, by decide⟩).mpr (.inr ⟨by decide, by decide, ?_⟩)⟩
  decide

end ConfigurationLines

end OnePloy
