import OnePloy.ComposeShort

/-!
# The mounts of a parsed compose file

Whether every mount comes through the parser with its target and its access is a
question of what stands before it. A turn of the loop leaves two things to the
next one, the mode it has at hand and the volumes of the top level; what an entry
becomes is decided by these and the entry alone (`Entry.parseVolume_value`).
-/

namespace OnePloy

open Conc Php

/-! ## What becomes of an entry -/

/-- What the turns of the loop leave to the next one. -/
structure Before where
  mode : Option String
  topLevel : List (String × Value)

namespace Entry

def skipped (before : Before) (entry : Entry) : Bool :=
  !entry.isBind && isRemote before.topLevel (String.ofList entry.source)

def after (setup : ParserSetup) (before : Before) (entry : Entry) : Before where
  mode := entry.modeAfter before.mode
  topLevel :=
    if entry.isBind || entry.skipped before then before.topLevel
    else
      let name := setup.volumeName (String.ofList entry.source)
      putField before.topLevel name (.map [("name", .string name)])

/-- An entry that comes through as it is: no path stands behind a default in its
source (but the target once more), and a long bind has the access that the mode
at hand stands for. -/
def Kept (before : Before) : Entry → Prop
  | short source target options =>
      source.path = [] ∨ options = none ∧ source.path = target ∧ readsOnly target = false
  | longBind _ _ readOnly _ => readOnly.getD false = (before.mode == some "ro")
  | anonymous _ | longVolume _ _ _ _ => True

end Entry

def AllKept (setup : ParserSetup) : Before → List Entry → Prop
  | _, [] => True
  | before, entry :: entries =>
      (entry.skipped before = false ∧ entry.Kept before) ∧
        AllKept setup (entry.after setup before) entries

def AllSkipped (setup : ParserSetup) : Before → List Entry → Prop
  | _, [] => True
  | before, entry :: entries =>
      entry.skipped before = true ∧ AllSkipped setup (entry.after setup before) entries

/-- In every service all volumes are on a network share, or none is and each comes
through as it is. -/
def ServicesKept (setup : ParserSetup) : Before → List (List Entry) → Prop
  | _, [] => True
  | before, entries :: services =>
      (AllKept setup before entries ∨ AllSkipped setup before entries) ∧
        ServicesKept setup (entries.foldl (Entry.after setup) before) services

/-! ## What is written is read -/

theorem mountText_toList (source target : String) (mode : Option String) :
    (mountText source target mode).toList =
      Entry.shortText source.toList target.toList (mode.map String.toList) := by
  cases mode with
  | none => simp [mountText, Entry.shortText]
  | some mode => simp [mountText, Entry.shortText]

/-- A path between the source and the target is read as the target. -/
theorem readShort_path {source path target : List Char} (hsource : IsField source)
    (hpath : path ≠ []) (hcolon : ':' ∉ path) (hclosed : ¬ ['$', '{'] <+: path ++ ':' :: target)
    (htarget : Entry.TargetFormed target) :
    readShort (source ++ ':' :: (path ++ ':' :: target)) = some ⟨target, false⟩ ↔
      path = target ∧ readsOnly target = false := by
  have hread : readShort (source ++ ':' :: (path ++ ':' :: target)) =
      readTarget (path ++ ':' :: target) := by
    rw [readShort, hsource]
  cases hletter : isLetter path with
  | false =>
      have hplain : IsPlain path := ⟨hpath, hcolon, fun hpre =>
        absurd (hpre.trans (List.prefix_append _ _)) hclosed⟩
      rw [hread, readTarget, isField_of_plain hplain hletter]
      dsimp only
      rw [field?_end htarget.1]
      simp
  | true =>
      -- a drive, so that its colon does not end the field
      obtain ⟨c, rfl, halpha⟩ : ∃ c, path = [c] ∧ c.isAlpha = true := by
        cases path with
        | nil => exact absurd rfl hpath
        | cons c path =>
            cases path with
            | nil => exact ⟨c, rfl, by simpa [isLetter] using hletter⟩
            | cons d path => simp [isLetter] at hletter
      have hfield : field? ([c] ++ ':' :: target) = some (c :: ':' :: target, none) := by
        have href : reference? ([c] ++ ':' :: target) = none := by
          refine reference?_none_of_not_closed fun hpre => ?_
          have := (List.cons_prefix_cons.mp (List.cons_prefix_cons.mp hpre).2).1
          revert this
          decide
        have hwindows : isWindowsPath ([c] ++ ':' :: target) = true := halpha
        rw [field?, splitFront, href]
        dsimp only
        rw [hwindows, if_pos rfl]
        have hbefore := beforeColon_of_count (List.count_eq_zero.mpr htarget.1.colon)
        simp [hbefore, htarget.1.colon]
      rw [hread, readTarget, hfield]
      refine iff_of_false (fun heq => ?_) fun h => ?_
      · have htargets : c :: ':' :: target = target := congrArg Mount.target (Option.some.inj heq)
        have hlength := congrArg List.length htargets
        simp only [List.length_cons] at hlength
        omega
      · have := htarget.2.1
        rw [← h.1, hletter] at this
        cases this

/-- A short volume with another source. -/
theorem readShort_shortParts {replaced : List Char} {source : MountSource} {target : List Char}
    {options : Option (List Char)} (hreplaced : IsField replaced) (hs : source.WellFormed)
    (ht : Entry.TargetFormed target) (ho : ∀ o, options = some o → IsPlain o)
    (hclosed : ∀ found, (shortParts source target options).target = some found →
      ¬ ['$', '{'] <+: found) (before : Before) :
    readShort (Entry.shortText replaced ((shortParts source target options).target.getD [])
        (shortParts source target options).mode) =
      some (Entry.short source target options).mount ↔
      (Entry.short source target options).Kept before := by
  rw [Entry.Kept, Entry.mount]
  by_cases hpath : source.path = []
  · have htext : Entry.shortText replaced ((shortParts source target options).target.getD [])
        (shortParts source target options).mode = Entry.shortText replaced target options := by
      rw [shortParts, if_pos hpath]
      cases options with
      | none => rfl
      | some o =>
          rw [splitOptions]
          split
          · rfl
          · simp [Entry.shortText]
    rw [htext]
    exact iff_of_true (readShort_shortText hreplaced ht.1 ht.2.1 ho) (.inl hpath)
  · rw [shortParts, if_neg hpath] at hclosed ⊢
    cases options with
    | none =>
        have hcolon : ':' ∉ source.path := by
          cases source with
          | plain text => exact absurd rfl hpath
          | defaulted name default path => exact hs.2.2
        rw [Option.elim_none, Option.elim_none, Option.getD_some, Entry.shortText,
          Option.elim_none, List.append_nil,
          readShort_path hreplaced hpath hcolon (hclosed _ rfl) ht]
        simp [hpath]
    | some o =>
        have hnone : field? [] = none := by
          simp [field?, splitFront, reference?, isWindowsPath, beforeColon]
        rw [Option.elim_some, Option.getD_none, Entry.shortText, Option.elim_none, List.append_nil,
          readShort, hreplaced]
        dsimp only
        rw [readTarget, hnone]
        simp [hpath]

theorem readsOnly_of_isMode {mode : String} (h : validModes.contains mode = true) :
    readsOnly mode.toList = (mode == "ro") ∧ IsPlain mode.toList := by
  have hall : ∀ mode ∈ validModes, readsOnly mode.toList = (mode == "ro") ∧
      (mode.toList ≠ [] ∧ ':' ∉ mode.toList ∧ '$' ∉ mode.toList) := by decide
  obtain ⟨hread, hne, hcolon, hdollar⟩ := hall mode (List.contains_iff_mem.mp h)
  exact ⟨hread, hne, hcolon, fun hpre => absurd (hpre.subset (by simp)) hdollar⟩

/-- A long bind, written with the mode at hand. -/
theorem readShort_longBind {replaced target : List Char} {mode : Option String}
    {readOnly : Option Bool} (hreplaced : IsField replaced) (ht : Entry.TargetFormed target)
    (hmode : ∀ m, mode = some m → validModes.contains m = true) :
    readShort (Entry.shortText replaced target (mode.map String.toList)) =
      some ⟨target, readOnly.getD false⟩ ↔ readOnly.getD false = (mode == some "ro") := by
  have hplain : ∀ o, mode.map String.toList = some o → IsPlain o := by
    intro o ho
    obtain ⟨m, hm, rfl⟩ := Option.map_eq_some_iff.mp ho
    exact (readsOnly_of_isMode (hmode m hm)).2
  rw [readShort_shortText hreplaced ht.1 ht.2.1 hplain]
  cases mode with
  | none =>
      rw [Option.map_none, Option.elim_none, Option.some.injEq, Mount.mk.injEq]
      exact (and_iff_right rfl).trans eq_comm
  | some m =>
      rw [Option.map_some, Option.elim_some, (readsOnly_of_isMode (hmode m rfl)).1,
        Option.some.injEq, Mount.mk.injEq]
      exact (and_iff_right rfl).trans eq_comm

/-! ## One turn of the loop -/

def VolumeScan.before (scan : VolumeScan) : Before := ⟨scan.parsedMode, scan.topLevel⟩

/-- Only what passes for a mode is at hand. -/
def ModeListed (before : Before) : Prop :=
  ∀ mode, before.mode = some mode → validModes.contains mode = true

namespace Entry

theorem modeListed_after {setup : ParserSetup} {before : Before} (h : ModeListed before)
    (entry : Entry) : ModeListed (entry.after setup before) := by
  intro mode hmode
  cases entry with
  | anonymous target => cases hmode
  | short source target options =>
      have hsome : (short source target options).modeAfter before.mode = some mode := hmode
      rw [modeAfter] at hsome
      split at hsome
      · obtain ⟨o, ho, rfl⟩ := Option.map_eq_some_iff.mp hsome
        exact (Option.filter_eq_some_iff.mp ho).2
      · cases hsome
  | longBind source target readOnly others => exact h mode hmode
  | longVolume source target readOnly others => exact h mode hmode

/-- The target of a short volume holds no reference. -/
theorem target_closed {source : MountSource} {target : List Char}
    {options : Option (List Char)} (h : (short source target options).WellFormed)
    {mode : Option String} {found : FoundVolume}
    (hfound : findVolume mode (short source target options).value = .ok found) :
    ∀ found, (shortParts source target options).target = some found →
      ¬ ['$', '{'] <+: found := by
  obtain ⟨hsource, ⟨htarget, -, htrim⟩, hoptions⟩ := h
  obtain ⟨-, hcheck⟩ := findVolume_string (isTrim_shortText hsource ⟨htarget, htrim⟩ hoptions)
    (splitVolume_short hsource htarget.colon fun o ho => (hoptions o ho).1.colon) hfound
  intro found hsome hpre
  have hsafe := mapError_eq_ok.mp (hcheck found hsome)
  unfold validateShellSafePath at hsafe
  split at hsafe
  · cases hsafe
  · next hfind =>
      rw [List.find?_eq_none] at hfind
      have hcontains := hfind ("$\x7b", "variable substitution with potential command injection")
        (by decide)
      refine hcontains (strContains_iff.mpr ?_)
      have hin := hpre.isInfix
      rwa [← String.toList_ofList (l := found)] at hin

/-- A text with another source is read as the entry that is kept. -/
theorem readVolume_mountText {entry : Entry} (h : entry.WellFormed) {before : Before}
    (hmode : ModeListed before)
    (hfound : findVolume before.mode entry.value = .ok (entry.found before.mode))
    (hform : ∀ source target readOnly others, entry ≠ longVolume source target readOnly others)
    {replaced : String} (hreplaced : IsField replaced.toList) :
    readVolume (.string (mountText replaced ((entry.found before.mode).target.getD "")
      (entry.found before.mode).mode)) = some entry.mount ↔ entry.Kept before := by
  rw [readVolume, mountText_toList]
  cases entry with
  | anonymous target =>
      refine iff_of_true ?_ trivial
      show readShort (shortText _ (String.ofList target).toList none) = _
      rw [shortText, String.toList_ofList, Option.elim_none, List.append_nil]
      exact readShort_two hreplaced h.1
  | short source target options =>
      have hclosed := target_closed h hfound
      obtain ⟨hsource, htarget, hoptions⟩ := h
      have htext : ((short source target options).found before.mode).target.getD "" =
          String.ofList ((shortParts source target options).target.getD []) := by
        show ((shortParts source target options).target.map String.ofList).getD "" = _
        cases (shortParts source target options).target <;> rfl
      have hmodes : ((short source target options).found before.mode).mode.map String.toList =
          (shortParts source target options).mode := by
        show ((short source target options).modeAfter before.mode).map String.toList = _
        rw [← mode_shortParts]
        cases (shortParts source target options).mode <;> simp
      rw [htext, hmodes, String.toList_ofList]
      exact readShort_shortParts hreplaced hsource htarget (fun o ho => (hoptions o ho).1)
        hclosed before
  | longBind source target readOnly others =>
      have htext : ((longBind source target readOnly others).found before.mode).target.getD "" =
          String.ofList target := rfl
      rw [htext, String.toList_ofList]
      exact readShort_longBind hreplaced h.2.1 hmode
  | longVolume source target readOnly others => exact absurd rfl (hform _ _ _ _)

theorem isField_hostSources {source : String} (h : hostSources.contains source = true) :
    IsField source.toList := by
  have hall : ∀ source ∈ hostSources, ':' ∉ source.toList ∧ sourceIsLocal source = true := by
    decide +kernel
  obtain ⟨hcolon, hlocal⟩ := hall source (List.contains_iff_mem.mp h)
  obtain ⟨hplain, hdrive⟩ := isPlain_of_local hlocal hcolon
  exact isField_of_plain hplain (isLetter_of_isDrive hdrive)

/-- The source of a bind, in its place, is one field. -/
theorem isField_bind (setup : ParserSetup) {entry : Entry} (h : entry.WellFormed)
    (hbind : entry.isBind = true) :
    IsField (replaceLocalSource (String.ofList entry.source) setup.mainDirectory).toList := by
  have hplain : ∀ {cs : List Char}, IsPlain cs ∧ isDrive cs = false →
      IsField (replaceLocalSource (String.ofList cs) setup.mainDirectory).toList := by
    intro cs hcs
    refine isField_replaceLocalSource setup ?_ ?_
    · rw [String.toList_ofList]
      exact hcs.1
    · rw [String.toList_ofList]
      exact hcs.2
  cases entry with
  | anonymous target =>
      have := isPlain_of_local hbind (by rw [String.toList_ofList]; exact h.1.colon)
      rw [String.toList_ofList] at this
      exact hplain this
  | short source target options => exact hplain (isPlain_found h.1 hbind)
  | longBind source target readOnly others => exact isField_replaceLocalSource_chars setup h.1
  | longVolume source target readOnly others => cases hbind

theorem bindVolume_ok {setup : ParserSetup} {entry : Entry} (h : entry.WellFormed)
    (hbind : entry.isBind = true) {mode : Option String} {v : Value}
    (hv : bindVolume setup (entry.found mode) = .ok v) :
    ∃ replaced : String, IsField replaced.toList ∧
      v = .string (mountText replaced ((entry.found mode).target.getD "")
        (entry.found mode).mode) := by
  unfold bindVolume at hv
  split at hv
  · next hhost =>
      split at hv
      · next target htarget =>
          refine ⟨(entry.found mode).source, isField_hostSources hhost, ?_⟩
          rw [htarget]
          exact (Except.ok.inj hv).symm
      · cases hv
  · exact ⟨_, isField_bind setup h hbind, (Except.ok.inj hv).symm⟩

theorem namedVolume_ok {setup : ParserSetup} {entry : Entry} (h : entry.WellFormed)
    (hbind : entry.isBind = false) {before : Before} (hmode : ModeListed before)
    (hfound : findVolume before.mode entry.value = .ok (entry.found before.mode)) {v : Value}
    (hv : namedVolume (setup.volumeName (entry.found before.mode).source)
      (entry.found before.mode) entry.value = .ok v) :
    readVolume v = some entry.mount ↔ entry.Kept before := by
  have hname := isField_volumeName setup (entry.found before.mode).source
  unfold namedVolume at hv
  split at hv
  · cases hv
  · next target htarget =>
      cases entry with
      | anonymous _ | short _ _ _ =>
          obtain rfl := Except.ok.inj hv
          have hread := readVolume_mountText h hmode hfound nofun hname
          rwa [htarget, Option.getD_some] at hread
      | longBind source target readOnly others => cases hbind
      | longVolume source target readOnly others =>
          obtain rfl := Except.ok.inj hv
          refine iff_of_true ?_ trivial
          exact readVolume_setField.trans (readVolume_value h)

/-- A turn of the loop: what it leaves to the next one, and what it has put into
the result. -/
theorem parseVolume_value {setup : ParserSetup} {scan scan' : VolumeScan} {index : String}
    {entry : Entry} (h : entry.WellFormed) (hmode : ModeListed scan.before)
    (hok : parseVolume setup scan (index, entry.value) = .ok scan') :
    scan'.before = entry.after setup scan.before ∧
      (entry.skipped scan.before = true ∧ scan'.volumesParsed = scan.volumesParsed ∨
        entry.skipped scan.before = false ∧ ∃ v,
          scan'.volumesParsed = scan.volumesParsed ++ [(index, v)] ∧
            (readVolume (forgetContent v) = some entry.mount ↔ entry.Kept scan.before)) := by
  obtain ⟨found, hfound, hok⟩ := bind_eq_ok.mp hok
  obtain rfl := findVolume_value h hfound
  cases hbind : entry.isBind with
  | true =>
      have hkind : (entry.found scan.parsedMode).kind = "bind" := by rw [found, hbind]; rfl
      rw [if_pos hkind] at hok
      obtain ⟨v, hv, hok⟩ := bind_eq_ok.mp hok
      obtain rfl := Except.ok.inj hok
      obtain ⟨replaced, hreplaced, rfl⟩ := bindVolume_ok h hbind hv
      refine ⟨?_, .inr ⟨by rw [skipped, hbind]; rfl, _, rfl, ?_⟩⟩
      · rw [after, hbind, Bool.true_or, if_pos rfl]
        rfl
      · rw [readVolume_forgetContent]
        refine readVolume_mountText h hmode hfound ?_ hreplaced
        rintro source target readOnly others rfl
        cases hbind
  | false =>
      have hkind : (entry.found scan.parsedMode).kind = "volume" := by rw [found, hbind]; rfl
      rw [if_neg (by rw [hkind]; decide), if_pos hkind] at hok
      have hskipped : entry.skipped scan.before =
          isRemote scan.topLevel (String.ofList entry.source) := by
        rw [skipped, hbind]
        rfl
      cases hremote : isRemote scan.topLevel (String.ofList entry.source) with
      | true =>
          have hremote' : isRemote scan.topLevel (entry.found scan.parsedMode).source = true :=
            hremote
          rw [if_pos hremote'] at hok
          obtain rfl := Except.ok.inj hok
          rw [hremote] at hskipped
          refine ⟨?_, .inl ⟨hskipped, rfl⟩⟩
          rw [after, hskipped, Bool.or_true, if_pos rfl]
          rfl
      | false =>
          have hremote' : ¬ isRemote scan.topLevel (entry.found scan.parsedMode).source = true := by
            rw [Bool.not_eq_true]
            exact hremote
          rw [if_neg hremote'] at hok
          obtain ⟨v, hv, hok⟩ := bind_eq_ok.mp hok
          obtain rfl := Except.ok.inj hok
          rw [hremote] at hskipped
          refine ⟨?_, .inr ⟨hskipped, v, rfl, ?_⟩⟩
          · rw [after, hbind, hskipped, Bool.or_false, if_neg Bool.false_ne_true]
            rfl
          · rw [readVolume_forgetContent]
            exact namedVolume_ok h hbind hmode hfound hv

end Entry

/-! ## The loop -/

/-- What the turns put into the result, entry by entry. -/
inductive PutBy (setup : ParserSetup) :
    Before → List (String × Entry) → List (String × Value) → Prop
  | nil {before : Before} : PutBy setup before [] []
  | skip {before : Before} {index : String} {entry : Entry} {rest : List (String × Entry)}
      {put : List (String × Value)} : entry.skipped before = true →
      PutBy setup (entry.after setup before) rest put →
      PutBy setup before ((index, entry) :: rest) put
  | put {before : Before} {index : String} {entry : Entry} {v : Value}
      {rest : List (String × Entry)} {put : List (String × Value)} :
      entry.skipped before = false →
      (readVolume (forgetContent v) = some entry.mount ↔ entry.Kept before) →
      PutBy setup (entry.after setup before) rest put →
      PutBy setup before ((index, entry) :: rest) ((index, v) :: put)

theorem putBy_of_loop {setup : ParserSetup} {keyed : List (String × Entry)}
    (hformed : ∀ k ∈ keyed, k.2.WellFormed) {scan scan' : VolumeScan}
    (hmode : ModeListed scan.before)
    (hok : (keyed.map fun k => (k.1, k.2.value)).foldlM (parseVolume setup) scan = .ok scan') :
    scan'.before = (keyed.map Prod.snd).foldl (Entry.after setup) scan.before ∧
      ModeListed scan'.before ∧
      ∃ put, scan'.volumesParsed = scan.volumesParsed ++ put ∧
        PutBy setup scan.before keyed put := by
  induction keyed generalizing scan with
  | nil =>
      obtain rfl := Except.ok.inj hok
      exact ⟨rfl, hmode, [], (List.append_nil _).symm, .nil⟩
  | cons k keyed ih =>
      obtain ⟨index, entry⟩ := k
      rw [List.map_cons, List.foldlM_cons] at hok
      obtain ⟨next, hnext, hok⟩ := bind_eq_ok.mp hok
      obtain ⟨hbefore, hturn⟩ := Entry.parseVolume_value (hformed _ (.head _)) hmode hnext
      have hmode' : ModeListed next.before := by
        rw [hbefore]
        exact Entry.modeListed_after hmode entry
      obtain ⟨hlast, hmodes, put, hput, hby⟩ := ih (fun k hk => hformed k (.tail _ hk)) hmode' hok
      rw [hbefore] at hlast hby
      refine ⟨hlast, hmodes, ?_⟩
      rcases hturn with ⟨hskipped, hsame⟩ | ⟨hskipped, v, hone, hread⟩
      · exact ⟨put, by rw [hput, hsame], .skip hskipped hby⟩
      · exact ⟨(index, v) :: put, by rw [hput, hone, List.append_assoc]; rfl,
          .put hskipped hread hby⟩

namespace PutBy

variable {setup : ParserSetup} {before : Before} {keyed : List (String × Entry)}
  {put : List (String × Value)}

theorem length_le (h : PutBy setup before keyed put) : put.length ≤ keyed.length := by
  induction h with
  | nil => exact Nat.le_refl 0
  | skip _ _ ih => exact Nat.le_succ_of_le ih
  | put _ _ _ ih => exact Nat.succ_le_succ ih

/-- Where nothing is left out, no index is. -/
theorem keys_of_length (h : PutBy setup before keyed put) (hlength : put.length = keyed.length) :
    put.map Prod.fst = keyed.map Prod.fst := by
  induction h with
  | nil => rfl
  | skip _ hrest _ =>
      have := hrest.length_le
      rw [List.length_cons] at hlength
      omega
  | put _ _ _ ih => rw [List.map_cons, List.map_cons, ih (Nat.succ.inj hlength)]

theorem nil_iff (h : PutBy setup before keyed put) :
    put = [] ↔ AllSkipped setup before (keyed.map Prod.snd) := by
  induction h with
  | nil => exact iff_of_true rfl trivial
  | skip hskipped _ ih => exact ih.trans (and_iff_right hskipped).symm
  | put hskipped _ _ _ =>
      exact iff_of_false (List.cons_ne_nil _ _) fun hall =>
        Bool.false_ne_true (hskipped.symm.trans hall.1)

theorem kept_iff (h : PutBy setup before keyed put) :
    (put.map fun p => readVolume (forgetContent p.2)) = keyed.map (fun k => some k.2.mount) ↔
      AllKept setup before (keyed.map Prod.snd) := by
  induction h with
  | nil => exact iff_of_true rfl trivial
  | skip hskipped hrest _ =>
      refine iff_of_false (fun heq => ?_) fun hall =>
        Bool.false_ne_true (hall.1.1.symm.trans hskipped)
      have hlength := congrArg List.length heq
      have hle := hrest.length_le
      simp only [List.length_map, List.length_cons] at hlength
      omega
  | put hskipped hread _ ih =>
      rw [List.map_cons, List.map_cons, List.cons.injEq, hread, ih]
      exact and_congr_left' (and_iff_right hskipped).symm

end PutBy

theorem readVolumes_list {volumes : List Value} {mounts : List Mount} :
    readVolumes (.list volumes) = some mounts ↔ volumes.map readVolume = mounts.map some := by
  rw [readVolumes]
  induction volumes generalizing mounts with
  | nil => cases mounts <;> simp
  | cons v volumes ih =>
      rw [List.mapM_cons]
      cases mounts with
      | nil => cases readVolume v <;> simp [Option.bind_eq_some_iff]
      | cons m mounts => simp [Option.bind_eq_some_iff, ih]

/-- What is dumped as a list, and what is not read. -/
theorem readVolumes_arrayOf {fields : List (String × Value)} {mounts : List Mount} :
    readVolumes (arrayOf fields) = some mounts ↔
      fields.map Prod.fst = (List.range fields.length).map toString ∧
        (fields.map fun field => readVolume field.2) = mounts.map some := by
  rw [arrayOf]
  split
  · next hkeys =>
      rw [readVolumes_list, List.map_map]
      exact (and_iff_right hkeys).symm
  · next hkeys => exact iff_of_false nofun fun h => hkeys h.1

/-- The volumes of one service are read as its entries. -/
theorem readVolumes_payload {setup : ParserSetup} {before : Before} {entries : List Entry}
    {put : List (String × Value)} (hformed : ∀ entry ∈ entries, entry.WellFormed)
    (hby : PutBy setup before (entries.zipIdx.map fun p => (toString p.2, p.1)) put) :
    readVolumes (payloadVolumes (.list (entries.map Entry.value)) put) =
        some (entries.map Entry.mount) ↔
      AllKept setup before entries ∨ AllSkipped setup before entries := by
  have hentries : (entries.zipIdx.map fun p => (toString p.2, p.1)).map Prod.snd = entries := by
    simp [Function.comp_def]
  have hmounts : ((entries.zipIdx.map fun p => (toString p.2, p.1)).map fun k =>
      some k.2.mount) = (entries.map Entry.mount).map some := by
    have := congrArg (List.map fun entry => some entry.mount) (List.zipIdx_map_fst 0 entries)
    rw [List.map_map] at this
    rw [List.map_map, List.map_map]
    exact this
  have hkeys : (entries.zipIdx.map fun p => (toString p.2, p.1)).map Prod.fst =
      (List.range entries.length).map toString := by
    rw [List.map_map, List.range_eq_range', ← List.zipIdx_map_snd 0 entries, List.map_map]
    rfl
  have hskipped := hby.nil_iff
  have hkept := hby.kept_iff
  rw [hentries] at hskipped hkept
  rw [hmounts] at hkept
  cases hput : put with
  | nil =>
      refine iff_of_true ?_ (.inr (hskipped.mp hput))
      rw [payloadVolumes, List.isEmpty_nil, if_pos rfl, readVolumes_list, List.map_map,
        List.map_map, List.map_map]
      refine List.map_congr_left fun entry hentry => ?_
      exact (readVolume_forgetContent _).trans (Entry.readVolume_value (hformed entry hentry))
  | cons p rest =>
      have hne : ¬ AllSkipped setup before entries := fun hall =>
        List.cons_ne_nil p rest (hput.symm.trans (hskipped.mpr hall))
      rw [or_iff_left hne, ← hkept, ← hput, payloadVolumes,
        if_neg (by rw [hput]; exact Bool.false_ne_true), readVolumes_arrayOf, List.map_map,
        List.map_map, List.length_map]
      refine and_iff_right_of_imp fun hread => ?_
      -- all indices are there, as many as there are entries
      have hlength : put.length = entries.length := by
        have := congrArg List.length hread
        simpa using this
      have := hby.keys_of_length (by simpa using hlength)
      rw [hkeys, ← hlength] at this
      exact this

/-! ## The document -/

/-- One service: what it leaves to the next one, and what is read of its volumes. -/
theorem parseServiceVolumes_value {setup : ParserSetup} {scan scan' : VolumeScan}
    {entries : List Entry} {payload : Value} (hformed : ∀ entry ∈ entries, entry.WellFormed)
    (hmode : ModeListed scan.before)
    (hok : parseServiceVolumes setup scan (.list (entries.map Entry.value)) =
      .ok (scan', payload)) :
    (scan'.before = entries.foldl (Entry.after setup) scan.before ∧ ModeListed scan'.before) ∧
      (readVolumes payload = some (entries.map Entry.mount) ↔
        AllKept setup scan.before entries ∨ AllSkipped setup scan.before entries) := by
  obtain ⟨last, hloop, hok⟩ := bind_eq_ok.mp hok
  obtain ⟨rfl, rfl⟩ := Prod.mk.inj (Except.ok.inj hok)
  have hkeyed : OnePloy.entries (.list (entries.map Entry.value)) =
      (entries.zipIdx.map fun p => (toString p.2, p.1)).map fun k => (k.1, k.2.value) := by
    rw [OnePloy.entries, List.zipIdx_map, List.map_map, List.map_map]
    rfl
  rw [hkeyed] at hloop
  have hkeyedFormed : ∀ k ∈ entries.zipIdx.map fun p => (toString p.2, p.1),
      k.2.WellFormed := by
    intro k hk
    obtain ⟨p, hp, rfl⟩ := List.mem_map.mp hk
    exact hformed p.1 (List.fst_mem_of_mem_zipIdx hp)
  have hentries : (entries.zipIdx.map fun p => (toString p.2, p.1)).map Prod.snd = entries := by
    simp [Function.comp_def]
  have hmode' : ModeListed (VolumeScan.before { scan with volumesParsed := [] }) := hmode
  obtain ⟨hlast, hmodes, put, hput, hby⟩ := putBy_of_loop hkeyedFormed hmode' hloop
  rw [hentries] at hlast
  rw [List.nil_append] at hput
  refine ⟨⟨hlast, hmodes⟩, ?_⟩
  rw [hput]
  exact readVolumes_payload hformed hby

theorem parseServices_value {setup : ParserSetup} {services : List (List Entry)}
    (hformed : ∀ entries ∈ services, ∀ entry ∈ entries, entry.WellFormed) {scan : VolumeScan}
    (hmode : ModeListed scan.before) {payloads : List Value}
    (hok : parseServices setup scan (services.map fun entries =>
      .list (entries.map Entry.value)) = .ok payloads) :
    payloads.map readVolumes = (services.map fun entries => some (entries.map Entry.mount)) ↔
      ServicesKept setup scan.before services := by
  induction services generalizing scan payloads with
  | nil =>
      obtain rfl := Except.ok.inj hok
      exact iff_of_true rfl trivial
  | cons entries services ih =>
      rw [List.map_cons, parseServices] at hok
      obtain ⟨⟨next, payload⟩, hservice, hok⟩ := bind_eq_ok.mp hok
      obtain ⟨rest, hrest, hok⟩ := bind_eq_ok.mp hok
      obtain rfl := Except.ok.inj hok
      obtain ⟨⟨hbefore, hmodes⟩, hread⟩ :=
        parseServiceVolumes_value (hformed _ (.head _)) hmode hservice
      have hothers := ih (fun es hes => hformed es (.tail _ hes)) hmodes hrest
      rw [List.map_cons, List.map_cons, List.cons.injEq, hread, hothers, ServicesKept, hbefore]

/-- What is at hand before the first volume of a document. -/
def atStart (compose : Value) : Before := ⟨none, predefinedVolumes compose⟩

/-- In a parsed compose document every service has the mounts that have been written,
each with its target and its access, exactly where none of its volumes is left out or
all are, and each long bind agrees with the mode of the short volume before it. -/
theorem parsed_mounts_kept_iff {setup : ParserSetup} {compose : Value}
    {services : List (List Entry)}
    (hvolumes : volumesOfServices compose =
      services.map fun entries => .list (entries.map Entry.value))
    (hformed : ∀ entries ∈ services, ∀ entry ∈ entries, entry.WellFormed) {payloads : List Value}
    (hok : composeParser setup compose = .ok payloads) :
    payloads.map readVolumes = (services.map fun entries => some (entries.map Entry.mount)) ↔
      ServicesKept setup (atStart compose) services := by
  rw [composeParser, hvolumes] at hok
  refine parseServices_value hformed (fun mode hmode => ?_) hok
  cases hmode

/-! ### Three files -/

/-- A setup in which slugs keep letters and digits alone. -/
def plainSetup : ParserSetup where
  resource := .application
  uuid := "a1"
  slug := fun source => String.ofList (source.toList.filter Char.isAlphanum)
  uuid_plain := by decide
  slug_plain := by
    intro source hmem
    rw [String.toList_ofList] at hmem
    exact absurd (List.of_mem_filter hmem) (by decide)

def composeOf (topLevel : List (String × Value)) (services : List (String × List Entry)) : Value :=
  .map [("services", .map (services.map fun service =>
      (service.1, .map [("volumes", .list (service.2.map Entry.value))]))),
    ("volumes", .map topLevel)]

/-- A read-only bind, short. -/
def readOnlyData : Entry := .short (.plain "./data".toList) "/data".toList (some "ro".toList)

/-- A bind, long. -/
def longConf (readOnly : Option Bool) : Entry :=
  .longBind (.plain "./conf".toList) "/conf".toList readOnly []

def sharedFiles : Entry := .short (.plain "files".toList) "/files".toList none

def cacheVolume : Entry := .short (.plain "cache".toList) "/cache".toList none

/-- The files lie on a network share. -/
def filesOnShare : List (String × Value) :=
  [("files", .map [("driver_opts", .map [("type", .string "cifs")])])]

/-- An ordinary text. -/
def isWord (cs : List Char) : Bool :=
  cs != [] && !cs.contains ':' && !cs.contains '$' && cs.all (fun c => !isTrimmed c) && !isDrive cs

theorem formed_of_isWord {cs : List Char} (h : isWord cs = true) :
    IsPlain cs ∧ isDrive cs = false ∧ IsTrim cs := by
  simp only [isWord, Bool.and_eq_true, bne_iff_ne, Bool.not_eq_true', List.contains_eq_mem,
    decide_eq_false_iff_not, List.all_eq_true] at h
  obtain ⟨⟨⟨⟨hne, hcolon⟩, hdollar⟩, htrim⟩, hdrive⟩ := h
  refine ⟨⟨hne, hcolon, fun hpre => absurd (hpre.subset (by simp)) hdollar⟩, hdrive, ?_, ?_⟩
  · exact fun c hc => htrim c (List.mem_of_head? hc)
  · exact fun c hc => htrim c (List.mem_of_getLast? hc)

theorem targetFormed_of_isWord {cs : List Char} (h : isWord cs = true) :
    Entry.TargetFormed cs :=
  have ⟨hplain, hdrive, htrim⟩ := formed_of_isWord h
  ⟨hplain, isLetter_of_isDrive hdrive, htrim⟩

/-- A long bind that is read-only behind a short one that is, and a named volume. -/
theorem read_only_pair_kept :
    ∃ payloads, composeParser plainSetup
        (composeOf [] [("app", [readOnlyData, longConf (some true)]), ("cache", [cacheVolume])]) =
          .ok payloads ∧
      payloads.map readVolumes =
        [some [⟨"/data".toList, true⟩, ⟨"/conf".toList, true⟩],
          some [⟨"/cache".toList, false⟩]] := by
  obtain ⟨payloads, hok⟩ : ∃ payloads, composeParser plainSetup
      (composeOf [] [("app", [readOnlyData, longConf (some true)]), ("cache", [cacheVolume])]) =
        .ok payloads := by
    have hsome : (composeParser plainSetup (composeOf [] [("app",
        [readOnlyData, longConf (some true)]), ("cache", [cacheVolume])])).toOption.isSome =
          true := by
      decide +kernel
    obtain ⟨payloads, hpayloads⟩ := Option.isSome_iff_exists.mp hsome
    exact ⟨payloads, eq_ok_of_toOption hpayloads⟩
  refine ⟨payloads, hok, (@parsed_mounts_kept_iff plainSetup _
    [[readOnlyData, longConf (some true)], [cacheVolume]] rfl ?_ _ hok).mpr ?_⟩
  · intro entries hentries entry hentry
    simp only [List.mem_cons, List.not_mem_nil, or_false] at hentries
    rcases hentries with rfl | rfl
    · simp only [List.mem_cons, List.not_mem_nil, or_false] at hentry
      rcases hentry with rfl | rfl
      · refine ⟨formed_of_isWord (by decide), targetFormed_of_isWord (by decide), ?_⟩
        intro o ho
        obtain rfl := Option.some.inj ho
        obtain ⟨hplain, -, htrim⟩ := @formed_of_isWord "ro".toList (by decide)
        exact ⟨hplain, htrim⟩
      · exact ⟨formed_of_isWord (by decide), targetFormed_of_isWord (by decide), nofun⟩
    · obtain rfl := List.mem_singleton.mp hentry
      exact ⟨formed_of_isWord (by decide), targetFormed_of_isWord (by decide), nofun⟩
  · exact ⟨.inl ⟨⟨rfl, .inl rfl⟩, ⟨rfl, rfl⟩, trivial⟩, .inl ⟨⟨rfl, .inl rfl⟩, trivial⟩, trivial⟩

/-- A long bind gets the mode of the short one before it, and what is not on the
network share stays alone. -/
theorem mounts_changed :
    ((composeParser plainSetup
        (composeOf [] [("app", [readOnlyData]), ("web", [longConf none])])).toOption.map
          (List.map readVolumes) =
        some [some [⟨"/data".toList, true⟩], some [⟨"/conf".toList, true⟩]] ∧
      (longConf none).mount = ⟨"/conf".toList, false⟩) ∧
    (composeParser plainSetup
        (composeOf filesOnShare [("app", [cacheVolume, sharedFiles])])).toOption.map
          (List.map readVolumes) = some [some [⟨"/cache".toList, false⟩]] ∧
      sharedFiles.mount = ⟨"/files".toList, false⟩ := by
  decide +kernel

end OnePloy
