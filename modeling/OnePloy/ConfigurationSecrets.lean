import OnePloy.ConfigurationItems

/-!
# What a diff tells of secrets

The changes between two states tell nothing of the value of a locked variable and of
the password for basic authentication but whether it changed. A variable that is
locked in the current state is masked on both sides, whatever it was before.
-/

namespace OnePloy

open Php ConfigurationDiffer ConfigurationItems

namespace ConfigurationSecrets

variable {setup : SnapshotSetup} {app app' : ApplicationConfig}

/-! ## One change -/

/-- An item without what it is compared by. -/
def forget (x : FlatItem) : FlatItem :=
  { x with item := { x.item with compareValue := .null } }

theorem changeOf_forget (key : String) (x : FlatItem) (previous current : Option FlatItem) :
    changeOf key x previous current =
      changeOf key (forget x) (previous.map forget) (current.map forget) := by
  cases previous <;> cases current <;> rfl

/-- Two sensitive items that are listed alike. -/
structure Masks (x x' : FlatItem) : Prop where
  isSensitive : x.item.isSensitive = true
  isSensitive' : x'.item.isSensitive = true
  label_eq : x.item.label = x'.item.label
  impact_eq : x.item.impact = x'.item.impact
  sectionKey_eq : x.sectionKey = x'.sectionKey
  sectionLabel_eq : x.sectionLabel = x'.sectionLabel

/-- Of a sensitive item only its presence is shown. -/
theorem changeOf_masks (key : String) {x x' : FlatItem} (h : Masks x x')
    {previous previous' : Option FlatItem} (hpresent : previous.isSome = previous'.isSome) :
    changeOf key x previous (some x) = changeOf key x' previous' (some x') := by
  obtain ⟨hsensitive, hsensitive', hlabel, himpact, hsection, hsectionLabel⟩ := h
  have hnone : previous.isNone = previous'.isNone := by
    rw [← Option.not_isSome, ← Option.not_isSome, hpresent]
  simp only [changeOf, shownTexts, hsensitive, hsensitive', if_true, changeType, maskedTexts,
    hnone, hlabel, himpact, hsection, hsectionLabel]
  rfl

/-- Two pairs of items that are shown alike where they differ. -/
def ShownAlike (previous current previous' current' : Option FlatItem) : Prop :=
  (previous.map forget = previous'.map forget ∧ current.map forget = current'.map forget) ∨
    (previous.isSome = previous'.isSome ∧
      ∃ x x', current = some x ∧ current' = some x' ∧ Masks x x')

theorem reportItem_congr {key : String} {previous current previous' current' : Option FlatItem}
    (h : ShownAlike previous current previous' current')
    (hstatus : (reportItem key previous current).isSome =
      (reportItem key previous' current').isSome) :
    reportItem key previous current = reportItem key previous' current' := by
  cases hreport : reportItem key previous current with
  | none =>
      rw [hreport, Option.isSome_none, eq_comm, Option.isSome_eq_false_iff,
        Option.isNone_iff_eq_none] at hstatus
      exact hstatus.symm
  | some c =>
      rw [hreport, Option.isSome_some, eq_comm, Option.isSome_iff_exists] at hstatus
      obtain ⟨c', hreport'⟩ := hstatus
      obtain ⟨item, hitem, rfl⟩ := reportItem_eq_some hreport
      obtain ⟨item', hitem', rfl⟩ := reportItem_eq_some hreport'
      rw [hreport', Option.some.injEq]
      rcases h with ⟨hprevious, hcurrent⟩ | ⟨hpresent, x, x', rfl, rfl, hmasks⟩
      · have hforget : forget item = forget item' := by
          have hor := congrArg₂ Option.or hcurrent hprevious
          rw [← Option.map_or, ← Option.map_or, hitem, hitem'] at hor
          exact Option.some.inj hor
        rw [changeOf_forget, hforget, hprevious, hcurrent, ← changeOf_forget]
      · obtain rfl := Option.some.inj hitem
        obtain rfl := Option.some.inj hitem'
        exact changeOf_masks key hmasks hpresent

/-! ## Two states -/

/-- A variable whose value is another, if values of its kind are hidden. -/
structure SameButValue (hides : EnvironmentKey → Bool → Prop) (row row' : VariableRow) :
    Prop where
  key_eq : row.key = row'.key
  isShownOnce_eq : row.isShownOnce = row'.isShownOnce
  isMultiline_eq : row.isMultiline = row'.isMultiline
  isLiteral_eq : row.isLiteral = row'.isLiteral
  isBuildtime_eq : row.isBuildtime = row'.isBuildtime
  isRuntime_eq : row.isRuntime = row'.isRuntime
  value_eq : row.value = row'.value ∨ hides row.key row.isShownOnce

/-- Everything is the same but the password and the hidden values. -/
structure AgreesBut (hides : EnvironmentKey → Bool → Prop) (app app' : ApplicationConfig) :
    Prop where
  column_eq : ∀ name, name ≠ "http_basic_auth_password" → app.column name = app'.column name
  setting_eq : app.setting = app'.setting
  noindexDomains_eq : app.noindexDomains = app'.noindexDomains
  composeDomains_eq : app.composeDomains = app'.composeDomains
  environmentVariables_eq :
    List.Forall₂ (SameButValue hides) app.environmentVariables app'.environmentVariables
  persistentStorages_eq : app.persistentStorages = app'.persistentStorages
  fileStorages_eq : app.fileStorages = app'.fileStorages

section AgreesBut

variable {hides hides' : EnvironmentKey → Bool → Prop}

theorem SameButValue.symm {row row' : VariableRow} (h : SameButValue hides row row') :
    SameButValue hides row' row where
  key_eq := h.key_eq.symm
  isShownOnce_eq := h.isShownOnce_eq.symm
  isMultiline_eq := h.isMultiline_eq.symm
  isLiteral_eq := h.isLiteral_eq.symm
  isBuildtime_eq := h.isBuildtime_eq.symm
  isRuntime_eq := h.isRuntime_eq.symm
  value_eq := h.key_eq ▸ h.isShownOnce_eq ▸ h.value_eq.imp_left Eq.symm

theorem SameButValue.eq_or {row row' : VariableRow} (h : SameButValue hides row row') :
    row = row' ∨ hides row.key row.isShownOnce := by
  refine h.value_eq.imp_left fun hvalue => ?_
  cases row
  cases row'
  obtain ⟨rfl, rfl, rfl, rfl, rfl, rfl, -⟩ := h
  obtain rfl := hvalue
  rfl

theorem AgreesBut.symm (h : AgreesBut hides app app') : AgreesBut hides app' app where
  column_eq name hne := (h.column_eq name hne).symm
  setting_eq := h.setting_eq.symm
  noindexDomains_eq := h.noindexDomains_eq.symm
  composeDomains_eq := h.composeDomains_eq.symm
  environmentVariables_eq :=
    (h.environmentVariables_eq.imp fun _ _ hrow => hrow.symm).flip
  persistentStorages_eq := h.persistentStorages_eq.symm
  fileStorages_eq := h.fileStorages_eq.symm

theorem AgreesBut.mono (h : AgreesBut hides app app')
    (himp : ∀ key isShownOnce, hides key isShownOnce → hides' key isShownOnce) :
    AgreesBut hides' app app' where
  column_eq := h.column_eq
  setting_eq := h.setting_eq
  noindexDomains_eq := h.noindexDomains_eq
  composeDomains_eq := h.composeDomains_eq
  environmentVariables_eq := h.environmentVariables_eq.imp fun _ _ hrow =>
    { hrow with value_eq := hrow.value_eq.imp_right (himp _ _) }
  persistentStorages_eq := h.persistentStorages_eq
  fileStorages_eq := h.fileStorages_eq

theorem AgreesBut.refl (app : ApplicationConfig) : AgreesBut hides app app where
  column_eq _ _ := rfl
  setting_eq := rfl
  noindexDomains_eq := rfl
  composeDomains_eq := rfl
  environmentVariables_eq :=
    List.forall₂_same.mpr fun _ _ => ⟨rfl, rfl, rfl, rfl, rfl, rfl, .inl rfl⟩
  persistentStorages_eq := rfl
  fileStorages_eq := rfl

/-! ### Items of two states -/

def passwordItem (setup : SnapshotSetup) (app : ApplicationConfig) : ConfigItem :=
  setup.itemWith "http_basic_auth_password" "HTTP basic auth password"
    (app.column "http_basic_auth_password") .redeploy true none none .default

def passwordKey : String := "domains.http_basic_auth_password"

theorem sourceItems_eq (setup : SnapshotSetup) (h : AgreesBut hides app app') :
    setup.sourceItems app = setup.sourceItems app' := by
  simp only [SnapshotSetup.sourceItems, SnapshotSetup.columnItem, h.column_eq, ne_eq,
    String.reduceEq, not_false_eq_true]

theorem buildItems_eq (setup : SnapshotSetup) (h : AgreesBut hides app app') :
    setup.buildItems app = setup.buildItems app' := by
  simp only [SnapshotSetup.buildItems, SnapshotSetup.columnItem, SnapshotSetup.settingItem,
    ApplicationConfig.text, h.column_eq, h.setting_eq, ne_eq, String.reduceEq,
    not_false_eq_true]

theorem runtimeItems_eq (setup : SnapshotSetup) (h : AgreesBut hides app app') :
    setup.runtimeItems app = setup.runtimeItems app' := by
  simp only [SnapshotSetup.runtimeItems, SnapshotSetup.healthCheckItems,
    SnapshotSetup.limitItems, SnapshotSetup.columnItem, SnapshotSetup.settingItem,
    SnapshotSetup.normalizedStopGracePeriod, h.column_eq, h.setting_eq, ne_eq,
    String.reduceEq, not_false_eq_true]

theorem domainItems_eq (setup : SnapshotSetup) (h : AgreesBut hides app app') :
    ∃ items, setup.domainItems app = items ++ [passwordItem setup app] ∧
      setup.domainItems app' = items ++ [passwordItem setup app'] := by
  refine ⟨(setup.domainItems app).dropLast, rfl, ?_⟩
  simp only [SnapshotSetup.domainItems, SnapshotSetup.columnItem, SnapshotSetup.settingItem,
    SnapshotSetup.composeDomainsText, SnapshotSetup.decodedComposeDomains,
    ApplicationConfig.text, h.column_eq, h.setting_eq, h.noindexDomains_eq, h.composeDomains_eq,
    ne_eq, String.reduceEq, not_false_eq_true]
  rfl

theorem itemAt_password (app : ApplicationConfig) :
    itemAt setup app passwordKey =
      some ⟨passwordItem setup app, "domains", "Domains & Proxy"⟩ :=
  itemAt_eq_some.mpr (.inl ⟨⟨"domains", "Domains & Proxy", setup.domainItems app⟩,
    by simp [staticSections], passwordItem setup app, by simp [SnapshotSetup.domainItems,
      passwordItem], rfl, rfl⟩)

/-- Where the two states differ stands a variable. -/
theorem itemAt_agrees (h : AgreesBut hides app app') {key : String} (hne : key ≠ passwordKey)
    {x : FlatItem} (hx : itemAt setup app key = some x) :
    itemAt setup app' key = some x ∨
      ∃ row ∈ app.environmentVariables, ∃ row' ∈ app'.environmentVariables,
        SameButValue hides row row' ∧ key = "environment" ++ "." ++ row.key ∧
        x = variableFlat setup row ∧ itemAt setup app' key = some (variableFlat setup row') := by
  rcases itemAt_eq_some.mp hx with ⟨s, hs, item, hitem, rfl, rfl⟩ | ⟨row, hrow, rfl, rfl⟩ |
    ⟨item, hitem, hkey⟩
  · left
    simp only [staticSections, List.mem_cons, List.not_mem_nil, or_false] at hs
    rcases hs with rfl | rfl | rfl | rfl
    · exact itemAt_eq_some.mpr (.inl ⟨⟨"source", "Source", setup.sourceItems app'⟩,
        by simp [staticSections], item, sourceItems_eq setup h ▸ hitem, rfl, rfl⟩)
    · exact itemAt_eq_some.mpr (.inl ⟨⟨"build", "Build", setup.buildItems app'⟩,
        by simp [staticSections], item, buildItems_eq setup h ▸ hitem, rfl, rfl⟩)
    · exact itemAt_eq_some.mpr (.inl ⟨⟨"runtime", "Runtime", setup.runtimeItems app'⟩,
        by simp [staticSections], item, runtimeItems_eq setup h ▸ hitem, rfl, rfl⟩)
    · obtain ⟨items, hitems, hitems'⟩ := domainItems_eq setup h
      rw [hitems] at hitem
      rcases List.mem_append.mp hitem with hitem | hitem
      · refine itemAt_eq_some.mpr (.inl ⟨⟨"domains", "Domains & Proxy", setup.domainItems app'⟩,
          by simp [staticSections], item, ?_, rfl, rfl⟩)
        rw [hitems']
        exact List.mem_append_left _ hitem
      · obtain rfl := List.mem_singleton.mp hitem
        exact absurd rfl hne
  · obtain ⟨i, rfl⟩ := List.mem_iff_get.mp hrow
    have hlength := h.environmentVariables_eq.length_eq
    have hsame := h.environmentVariables_eq.get i.2 (hlength ▸ i.2)
    have hrow' := List.get_mem app'.environmentVariables ⟨i, hlength ▸ i.2⟩
    refine .inr ⟨_, hrow, _, hrow', hsame, rfl, rfl, ?_⟩
    exact itemAt_eq_some.mpr (.inr (.inl ⟨_, hrow', by rw [hsame.key_eq], rfl⟩))
  · refine .inl (itemAt_eq_some.mpr (.inr (.inr ⟨item, ?_, hkey⟩)))
    rw [SnapshotSetup.storageItems, ← h.persistentStorages_eq, ← h.fileStorages_eq]
    exact hitem

end AgreesBut

/-! ## Two diffs -/

/-- The value is hidden where the variable is locked. -/
def IsLocked (_ : EnvironmentKey) (isShownOnce : Bool) : Prop := isShownOnce = true

/-- The variable is locked in another state. -/
def IsLockedIn (app : ApplicationConfig) (key : EnvironmentKey) (_ : Bool) : Prop :=
  ∃ row ∈ app.environmentVariables, row.key = key ∧ row.isShownOnce = true

theorem itemAt_isSome (setup : SnapshotSetup) {hides : EnvironmentKey → Bool → Prop}
    (h : AgreesBut hides app app')
    (key : String) : (itemAt setup app key).isSome = (itemAt setup app' key).isSome := by
  have hone : ∀ {app app' : ApplicationConfig}, AgreesBut hides app app' →
      (itemAt setup app key).isSome = true → (itemAt setup app' key).isSome = true := by
    intro app app' h hsome
    by_cases hkey : key = passwordKey
    · rw [hkey, itemAt_password]
      rfl
    · obtain ⟨x, hx⟩ := Option.isSome_iff_exists.mp hsome
      rcases itemAt_agrees h hkey hx with hx' | ⟨_, -, _, -, -, -, -, hx'⟩ <;> rw [hx'] <;> rfl
  exact Bool.eq_iff_iff.mpr ⟨hone h, hone h.symm⟩

/-- Of a locked variable the item keeps nothing of its value but what it is compared by. -/
theorem forget_locked {row row' : VariableRow} (hsame : SameButValue IsLocked row row') :
    forget (variableFlat setup row) = forget (variableFlat setup row') := by
  rcases hsame.eq_or with rfl | hlocked
  · rfl
  · obtain ⟨hkey, hlock, hmultiline, hliteral, hbuildtime, hruntime, -⟩ := hsame
    have hlocked : row.isShownOnce = true := hlocked
    have hlocked' : row'.isShownOnce = true := hlock ▸ hlocked
    have hdisplay : SnapshotSetup.environmentDisplayValue row =
        SnapshotSetup.environmentDisplayValue row' := by
      rw [SnapshotSetup.environmentDisplayValue, SnapshotSetup.environmentDisplayValue,
        SnapshotSetup.environmentFlags, SnapshotSetup.environmentFlags, hbuildtime, hruntime,
        hmultiline, hliteral]
    rw [variableFlat, variableFlat, SnapshotSetup.environmentItem, SnapshotSetup.environmentItem,
      if_pos hlocked, if_pos hlocked', hdisplay, hkey, hbuildtime]
    rfl

theorem itemAt_cases (setup : SnapshotSetup) {hides : EnvironmentKey → Bool → Prop}
    (h : AgreesBut hides app app') {key : String} (hne : key ≠ passwordKey) :
    itemAt setup app key = itemAt setup app' key ∨
      ∃ row ∈ app.environmentVariables, ∃ row', SameButValue hides row row' ∧
        hides row.key row.isShownOnce ∧ key = "environment" ++ "." ++ row.key ∧
        itemAt setup app key = some (variableFlat setup row) ∧
        itemAt setup app' key = some (variableFlat setup row') := by
  cases hx : itemAt setup app key with
  | none =>
      have hnone := itemAt_isSome setup h key
      rw [hx, Option.isSome_none, eq_comm, Option.isSome_eq_false_iff,
        Option.isNone_iff_eq_none] at hnone
      exact .inl hnone.symm
  | some x =>
      rcases itemAt_agrees h hne hx with hx' | ⟨row, hrow, row', -, hsame, hkey, rfl, hx'⟩
      · exact .inl hx'.symm
      · rcases hsame.eq_or with rfl | hhides
        · exact .inl hx'.symm
        · exact .inr ⟨row, hrow, row', hsame, hhides, hkey, rfl, hx'⟩

theorem map_forget_eq (setup : SnapshotSetup) (h : AgreesBut IsLocked app app') {key : String}
    (hne : key ≠ passwordKey) :
    (itemAt setup app key).map forget = (itemAt setup app' key).map forget := by
  rcases itemAt_cases setup h hne with hsame | ⟨row, -, row', hsame, -, -, hx, hx'⟩
  · rw [hsame]
  · rw [hx, hx', Option.map_some, Option.map_some, forget_locked hsame]

/-- The keys of the password and of the variables that are locked in one of two states. -/
def IsSecret (previous current : ApplicationConfig) (key : String) : Prop :=
  key = passwordKey ∨ ∃ row ∈ previous.environmentVariables ++ current.environmentVariables,
    row.isShownOnce = true ∧ key = "environment" ++ "." ++ row.key

def changes (setup : SnapshotSetup) (previous current : ApplicationConfig) : List ConfigChange :=
  diff (setup.toArray previous) (setup.toArray current)

/-- The same secrets are added, removed, changed or unchanged. -/
def SameStatus (setup : SnapshotSetup)
    (previous current previous' current' : ApplicationConfig) : Prop :=
  ∀ key, IsSecret previous current key →
    ((∃ c ∈ changes setup previous current, c.key = key) ↔
      ∃ c ∈ changes setup previous' current', c.key = key)

theorem isReported_iff {previous current : ApplicationConfig} {key : String} :
    (∃ c ∈ changes setup previous current, c.key = key) ↔
      (reportItem key (itemAt setup previous key) (itemAt setup current key)).isSome = true := by
  rw [Option.isSome_iff_exists]
  constructor
  · rintro ⟨c, hc, rfl⟩
    exact ⟨c, mem_diff_iff.mp hc⟩
  · rintro ⟨c, hreport⟩
    exact ⟨c, mem_diff_of_report hreport⟩

theorem isSensitive_of_locked (setup : SnapshotSetup) {row : VariableRow}
    (h : row.isShownOnce = true) :
    (variableFlat setup row).item.isSensitive = true := by
  rw [variableFlat, SnapshotSetup.environmentItem, if_pos h]
  rfl

theorem masks_of_forget {x x' : FlatItem} (h : forget x = forget x')
    (hsensitive : x.item.isSensitive = true) : Masks x x' where
  isSensitive := hsensitive
  isSensitive' := (congrArg (·.item.isSensitive) h).symm.trans hsensitive
  label_eq := congrArg (·.item.label) h
  impact_eq := congrArg (·.item.impact) h
  sectionKey_eq := congrArg (·.sectionKey) h
  sectionLabel_eq := congrArg (·.sectionLabel) h

/-- The values that the previous state may have differently: those of the variables that
are locked in it, or in the current one. -/
def HidesBefore (current : ApplicationConfig) (key : EnvironmentKey) (isShownOnce : Bool) : Prop :=
  IsLocked key isShownOnce ∨ IsLockedIn current key isShownOnce

section Pairs

variable {previous current previous' current' : ApplicationConfig}

theorem shownAlike_password (setup : SnapshotSetup)
    (previous current previous' current' : ApplicationConfig) :
    ShownAlike (itemAt setup previous passwordKey) (itemAt setup current passwordKey)
      (itemAt setup previous' passwordKey) (itemAt setup current' passwordKey) := by
  refine .inr ⟨?_, _, _, itemAt_password current, itemAt_password current', ?_⟩
  · rw [itemAt_password, itemAt_password]
    rfl
  · exact ⟨rfl, rfl, rfl, rfl, rfl, rfl⟩

/-- Under each key the two pairs are the same, or it is that of a secret and they are
shown alike. -/
theorem same_or_shownAlike (hprevious : AgreesBut (HidesBefore current) previous previous')
    (hcurrent : AgreesBut IsLocked current current') (key : String) :
    (itemAt setup previous key = itemAt setup previous' key ∧
        itemAt setup current key = itemAt setup current' key) ∨
      (IsSecret previous current key ∧
        ShownAlike (itemAt setup previous key) (itemAt setup current key)
          (itemAt setup previous' key) (itemAt setup current' key)) := by
  by_cases hne : key = passwordKey
  · rw [hne]
    exact .inr ⟨.inl rfl, shownAlike_password setup ..⟩
  have hforget := map_forget_eq setup hcurrent hne
  rcases itemAt_cases setup hprevious hne with hsame |
    ⟨row, hrow, row', hsame, hhides, hkey, hx, hx'⟩
  · rcases itemAt_cases setup hcurrent hne with hsame' |
      ⟨row, hrow, row', -, hlocked, hkey, -, -⟩
    · exact .inl ⟨hsame, hsame'⟩
    · refine .inr ⟨.inr ⟨row, List.mem_append_right _ hrow, hlocked, hkey⟩, .inl ⟨?_, hforget⟩⟩
      rw [hsame]
  · rcases hhides with hlocked | ⟨r, hr, hrkey, hlocked⟩
    · refine .inr ⟨.inr ⟨row, List.mem_append_left _ hrow, hlocked, hkey⟩, .inl ⟨?_, hforget⟩⟩
      have hsame' : SameButValue IsLocked row row' := { hsame with value_eq := .inr hlocked }
      rw [hx, hx', Option.map_some, Option.map_some, forget_locked hsame']
    · -- The variable is locked now: what is shown of it does not depend on what it was.
      have hcurrentItem : itemAt setup current key = some (variableFlat setup r) :=
        itemAt_eq_some.mpr (.inr (.inl ⟨r, hr, by rw [hkey, hrkey], rfl⟩))
      rw [hcurrentItem, Option.map_some, eq_comm, Option.map_eq_some_iff] at hforget
      obtain ⟨x', hitem', hforget⟩ := hforget
      refine .inr ⟨.inr ⟨r, List.mem_append_right _ hr, hlocked, by rw [hkey, hrkey]⟩, .inr ⟨?_,
        variableFlat setup r, x', hcurrentItem, hitem', ?_⟩⟩
      · rw [hx, hx']
        rfl
      · exact masks_of_forget hforget.symm (isSensitive_of_locked setup hlocked)

theorem changes_eq (hprevious : AgreesBut (HidesBefore current) previous previous')
    (hcurrent : AgreesBut IsLocked current current')
    (hstatus : SameStatus setup previous current previous' current') :
    changes setup previous current = changes setup previous' current' := by
  refine OrderedMap.compare_congr (OrderedMap.allKeys_congr fun key => ?_) fun key _ => ?_
  · rw [mem_keys_iff, mem_keys_iff, mem_keys_iff, mem_keys_iff, itemAt_isSome setup hprevious,
      itemAt_isSome setup hcurrent]
  · change reportItem key (itemAt setup previous key) (itemAt setup current key) =
      reportItem key (itemAt setup previous' key) (itemAt setup current' key)
    rcases same_or_shownAlike hprevious hcurrent key with ⟨hsame, hsame'⟩ | ⟨hsecret, halike⟩
    · rw [hsame, hsame']
    · refine reportItem_congr halike (Bool.eq_iff_iff.mpr ?_)
      rw [← isReported_iff, ← isReported_iff]
      exact hstatus key hsecret

end Pairs

/-- What is shown of a variable that is locked in the current state. -/
theorem change_of_locked {previous current : ApplicationConfig} {row : VariableRow}
    (hrow : row ∈ current.environmentVariables) (hlocked : row.isShownOnce = true)
    {c : ConfigChange} (hc : c ∈ changes setup previous current)
    (hkey : c.key = "environment" ++ "." ++ row.key) :
    (c.oldDisplayValue = "-" ∨ c.oldDisplayValue = mask) ∧ c.newDisplayValue = mask ∧
      c.oldFullValue = none ∧ c.newFullValue = none := by
  obtain ⟨item, hitem, heq⟩ := reportItem_eq_some (mem_diff_iff.mp hc)
  have hcurrent : itemAt setup current c.key = some (variableFlat setup row) :=
    itemAt_eq_some.mpr (.inr (.inl ⟨row, hrow, hkey, rfl⟩))
  rw [hcurrent, Option.some_or] at hitem
  obtain rfl := Option.some.inj hitem
  have hsensitive := isSensitive_of_locked setup hlocked
  rw [heq, changeOf, shownTexts, if_pos hsensitive, hcurrent]
  refine ⟨?_, rfl, rfl, rfl⟩
  simp only [maskedTexts]
  split
  · exact .inl rfl
  · exact .inr rfl

/-- Two pairs of states that differ in secrets alone, of which the same changed, have the
same changes. Of a variable that is locked in the current state the previous value is
not shown either, and makes no difference. -/
theorem changes_leak_no_secret (setup : SnapshotSetup) :
    (∀ previous current previous' current' : ApplicationConfig,
      AgreesBut IsLocked previous previous' → AgreesBut IsLocked current current' →
      SameStatus setup previous current previous' current' →
        changes setup previous current = changes setup previous' current') ∧
    (∀ previous previous' current : ApplicationConfig,
      AgreesBut (IsLockedIn current) previous previous' →
      SameStatus setup previous current previous' current →
        changes setup previous current = changes setup previous' current) ∧
    ∀ previous current : ApplicationConfig, ∀ row ∈ current.environmentVariables,
      row.isShownOnce = true → ∀ c ∈ changes setup previous current,
        c.key = "environment" ++ "." ++ row.key →
          (c.oldDisplayValue = "-" ∨ c.oldDisplayValue = mask) ∧ c.newDisplayValue = mask ∧
            c.oldFullValue = none ∧ c.newFullValue = none := by
  refine ⟨fun previous current previous' current' hprevious hcurrent hstatus => ?_,
    fun previous previous' current hprevious hstatus => ?_,
    fun previous current row hrow hlocked c hc hkey => change_of_locked hrow hlocked hc hkey⟩
  · exact changes_eq (hprevious.mono fun _ _ => .inl) hcurrent hstatus
  · exact changes_eq (hprevious.mono fun _ _ => .inr) (AgreesBut.refl current) hstatus

end ConfigurationSecrets

end OnePloy
