import OnePloy.ConfigurationItems

/-!
# Differences and the fingerprint

Two snapshots of an application differ somewhere if and only if their hashes
differ. Both walk the snapshot, one over flat keys and one section by section, and
both come down to the value to compare under each key; the impact, which only the
hash has, is in that value.
-/

namespace OnePloy

open Php ConfigurationDiffer

/-- What is taken of the hashes and known of the framework: a hash is not empty, and
`Arr::sortRecursive` gives a value that is written in one way where it gets one, and
of an object without arrays in it a permutation, if no key can be an index. -/
structure SnapshotSetup.Lawful (setup : SnapshotSetup) : Prop where
  sha256_injective : Function.Injective setup.sha256
  hmac_injective : Function.Injective setup.hmac
  hmac_ne : ∀ text, setup.hmac text ≠ ""
  sort_canonical : ∀ v, v.Canonical → (setup.sortRecursive v).Canonical
  sort_fields : ∀ fields : List (String × Value), fields ≠ [] →
    (∀ e ∈ fields, e.2.isScalar = true ∧ e.1 ≠ "0") →
    ∃ sorted, setup.sortRecursive (.map fields) = .map sorted ∧ sorted.Perm fields

/-! ## A setup with these laws -/

theorem lawful_readableHashes : readableHashes.Lawful where
  sha256_injective _ _ h := h
  hmac_injective _ _ h := (String.append_right_inj _).mp h
  hmac_ne text := by
    rw [readableHashes, ne_eq, String.append_eq_empty_iff]
    simp
  sort_canonical v hv := by
    cases hv with
    | map h hkeys =>
        simp only [readableHashes, sortKeysOnly]
        split
        · refine .list fun v hv => ?_
          obtain ⟨e, he, rfl⟩ := List.mem_map.mp hv
          exact h e ((List.mem_insertionSort _).mp he)
        · next hsorted => exact .map (fun e he => h e ((List.mem_insertionSort _).mp he)) hsorted
    | list h => exact .list h
    | null => exact .null
    | bool b => exact .bool b
    | int n => exact .int n
    | string s => exact .string s
  sort_fields fields hne h := by
    refine ⟨_, if_neg fun hindices => ?_, List.perm_insertionSort _ fields⟩
    have hlength : (fields.insertionSort fun e e' => e.1 ≤ e'.1).length ≠ 0 := by
      rw [List.length_insertionSort]
      exact mt List.length_eq_zero_iff.mp hne
    have hzero : "0" ∈ (fields.insertionSort fun e e' => e.1 ≤ e'.1).map Prod.fst := by
      rw [hindices]
      exact List.mem_map.mpr ⟨0, List.mem_range.mpr (Nat.pos_of_ne_zero hlength), rfl⟩
    obtain ⟨e, he, hkey⟩ := List.mem_map.mp hzero
    exact (h e ((List.mem_insertionSort _).mp he)).2 hkey

namespace ConfigurationHash

open ConfigurationItems

variable {setup : SnapshotSetup} {app app' : ApplicationConfig}

/-! ## The values to compare -/

theorem canonical_normalizeValue (h : setup.Lawful) {v : Value} (hv : v.Canonical) :
    (setup.normalizeValue v).Canonical := by
  rw [SnapshotSetup.normalizeValue]
  split
  · exact .null
  · split
    · exact h.sort_canonical v hv
    · exact hv

theorem canonical_itemWith (h : setup.Lawful) {v : Value} (hv : v.Canonical) (key label : String)
    (impact : Impact) (isSensitive : Bool) (display full : Option String) (mode : DiffMode) :
    (setup.itemWith key label v impact isSensitive display full mode).compareValue.Canonical := by
  rw [SnapshotSetup.itemWith]
  cases isSensitive with
  | true => exact .string _
  | false => exact canonical_normalizeValue h hv

theorem canonical_columnItem (h : setup.Lawful) (app : ApplicationConfig) (key label : String)
    (impact : Impact) : (setup.columnItem app key label impact).compareValue.Canonical :=
  canonical_itemWith h (Value.canonical_of_isScalar (app.column_scalar key)) ..

theorem canonical_settingItem (h : setup.Lawful) (app : ApplicationConfig) (key label : String)
    (impact : Impact) : (setup.settingItem app key label impact).compareValue.Canonical :=
  canonical_itemWith h (Value.canonical_of_isScalar (app.setting_scalar key)) ..

theorem canonical_textColumn (h : setup.Lawful) (app : ApplicationConfig) (name key label : String)
    (impact : Impact) (text : Option String) (mode : DiffMode) :
    (setup.textItem key label (app.column name) impact text mode).compareValue.Canonical :=
  canonical_itemWith h (Value.canonical_of_isScalar (app.column_scalar name)) ..

theorem canonical_decodedComposeDomains (app : ApplicationConfig) :
    ((SnapshotSetup.decodedComposeDomains app).getD .null).Canonical := by
  cases hdecoded : SnapshotSetup.decodedComposeDomains app with
  | none => exact .null
  | some v => exact app.domains_canonical v (Option.filter_eq_some_iff.mp hdecoded).1

theorem canonical_composeDomains (h : setup.Lawful) (app : ApplicationConfig) (key label : String)
    (impact : Impact) (text : Option String) (mode : DiffMode) :
    (setup.textItem key label ((SnapshotSetup.decodedComposeDomains app).getD .null) impact text
      mode).compareValue.Canonical :=
  canonical_itemWith h (canonical_decodedComposeDomains app) ..

theorem canonical_normalizedStopGracePeriod (app : ApplicationConfig) :
    (SnapshotSetup.normalizedStopGracePeriod app).Canonical := by
  rw [SnapshotSetup.normalizedStopGracePeriod]
  split
  · exact .null
  · exact .int _

theorem canonical_noindexDomains (app : ApplicationConfig) :
    (Value.list (app.noindexDomains.map .string)).Canonical := by
  refine .list fun v hv => ?_
  obtain ⟨domain, -, rfl⟩ := List.mem_map.mp hv
  exact .string domain

theorem canonical_static (h : setup.Lawful) {s : ConfigSection}
    (hs : s ∈ staticSections setup app) :
    ∀ item ∈ s.items, item.compareValue.Canonical := by
  have hpassword : (app.column "http_basic_auth_password").Canonical :=
    Value.canonical_of_isScalar (app.column_scalar _)
  simp only [staticSections, List.mem_cons, List.not_mem_nil, or_false] at hs
  rcases hs with rfl | rfl | rfl | rfl
  · simp only [SnapshotSetup.sourceItems, List.forall_mem_cons, canonical_columnItem h, true_and]
    exact fun _ h => absurd h List.not_mem_nil
  · simp only [SnapshotSetup.buildItems, List.forall_mem_cons, canonical_columnItem h,
      canonical_settingItem h, canonical_textColumn h, true_and]
    exact fun _ h => absurd h List.not_mem_nil
  · simp only [SnapshotSetup.runtimeItems, SnapshotSetup.healthCheckItems,
      SnapshotSetup.limitItems, List.forall_mem_append, List.forall_mem_cons,
      canonical_columnItem h, canonical_settingItem h, SnapshotSetup.item,
      canonical_itemWith h (canonical_normalizedStopGracePeriod app), true_and]
    simp
  · simp only [SnapshotSetup.domainItems, List.forall_mem_cons, canonical_columnItem h,
      canonical_settingItem h, canonical_textColumn h, canonical_composeDomains h,
      SnapshotSetup.item, canonical_itemWith h (canonical_noindexDomains app),
      canonical_itemWith h hpassword, true_and]
    exact fun _ h => absurd h List.not_mem_nil

theorem normalizeValue_map (fields : List (String × Value)) :
    setup.normalizeValue (.map fields) = setup.sortRecursive (.map fields) := by
  have hne : Value.map fields ≠ .string "" := nofun
  rw [SnapshotSetup.normalizeValue, if_neg hne]
  exact if_pos rfl

/-- Locked or not, a variable is compared by one hash. -/
theorem compareValue_environmentItem (h : setup.Lawful) (row : VariableRow) :
    (setup.environmentItem row).compareValue =
      .string (setup.sensitiveHash (setup.sortRecursive (setup.environmentCompareValue row))) := by
  have hsort : setup.normalizeValue (setup.environmentCompareValue row) =
      setup.sortRecursive (setup.environmentCompareValue row) := normalizeValue_map _
  rw [SnapshotSetup.environmentItem, ← hsort]
  cases row.isShownOnce with
  | true => rfl
  | false =>
      have hne : Value.string (setup.sensitiveHash
          (setup.normalizeValue (setup.environmentCompareValue row))) ≠ .string "" :=
        fun heq => h.hmac_ne _ (Value.string.inj heq)
      exact if_neg hne

def IsSameVariable (row row' : VariableRow) : Prop :=
  row.value = row'.value ∧ row.isMultiline = row'.isMultiline ∧ row.isLiteral = row'.isLiteral ∧
    row.isBuildtime = row'.isBuildtime ∧ row.isRuntime = row'.isRuntime

theorem canonical_value (row : VariableRow) :
    ((row.value.map Value.string).getD .null).Canonical := by
  cases row.value with
  | none => exact .null
  | some s => exact .string s

def variableFields (setup : SnapshotSetup) (row : VariableRow) : List (String × Value) :=
  [("value_hash", .string (setup.sensitiveHash ((row.value.map .string).getD .null))),
    ("is_multiline", .bool row.isMultiline), ("is_literal", .bool row.isLiteral),
    ("is_buildtime", .bool row.isBuildtime), ("is_runtime", .bool row.isRuntime)]

theorem environmentCompareValue_eq (row : VariableRow) :
    setup.environmentCompareValue row = .map (variableFields setup row) := rfl

theorem variableFields_spec (row : VariableRow) :
    ∀ e ∈ variableFields setup row, e.2.isScalar = true ∧ e.1 ≠ "0" := by
  simp [variableFields, Value.isScalar]

theorem canonical_environmentCompareValue (row : VariableRow) :
    (setup.environmentCompareValue row).Canonical := by
  rw [environmentCompareValue_eq]
  exact Value.canonical_cons
    (fun e he => Value.canonical_of_isScalar (variableFields_spec row e he).1) (by simp)

/-- The hash of a variable is that of no other value and no other scopes. -/
theorem sameVariable_iff (h : setup.Lawful) (row row' : VariableRow) :
    (setup.environmentItem row).compareValue = (setup.environmentItem row').compareValue ↔
      IsSameVariable row row' := by
  rw [compareValue_environmentItem h, compareValue_environmentItem h]
  constructor
  · intro heq
    have hsorted := jsonEncode_injective
      (h.sort_canonical _ (canonical_environmentCompareValue row))
      (h.sort_canonical _ (canonical_environmentCompareValue row'))
      (h.hmac_injective (Value.string.inj heq))
    obtain ⟨sorted, hsort, hperm⟩ :=
      h.sort_fields (variableFields setup row) (List.cons_ne_nil _ _) (variableFields_spec row)
    obtain ⟨sorted', hsort', hperm'⟩ :=
      h.sort_fields (variableFields setup row') (List.cons_ne_nil _ _) (variableFields_spec row')
    rw [environmentCompareValue_eq, environmentCompareValue_eq, hsort, hsort'] at hsorted
    obtain rfl := Value.map.inj hsorted
    have hmem : ∀ e ∈ variableFields setup row, e ∈ variableFields setup row' :=
      fun e he => hperm'.mem_iff.mp (hperm.mem_iff.mpr he)
    simp only [variableFields, List.forall_mem_cons] at hmem
    simp at hmem
    obtain ⟨hhash, hscopes⟩ := hmem
    have hvalue := jsonEncode_injective (canonical_value row) (canonical_value row')
      (h.hmac_injective hhash)
    refine ⟨?_, hscopes⟩
    cases hr : row.value <;> cases hr' : row'.value <;> simp_all
  · rintro ⟨hvalue, hmultiline, hliteral, hbuildtime, hruntime⟩
    rw [SnapshotSetup.environmentCompareValue, SnapshotSetup.environmentCompareValue, hvalue,
      hmultiline, hliteral, hbuildtime, hruntime]

/-! ## What stands under a key -/

theorem mountValue_spec (h : setup.Lawful) {source destination : Value}
    (hsource : source.isScalar = true) (hdestination : destination.isScalar = true) :
    setup.normalizeValue (SnapshotSetup.mountValue source destination) ≠ .null ∧
      (setup.normalizeValue (SnapshotSetup.mountValue source destination)).Canonical := by
  have hscalar : ∀ e ∈ [("source", source), ("destination", destination)],
      e.2.isScalar = true ∧ e.1 ≠ "0" := by
    simp [hsource, hdestination]
  have hcanonical : (SnapshotSetup.mountValue source destination).Canonical :=
    Value.canonical_cons (fun e he => Value.canonical_of_isScalar (hscalar e he).1) (by simp)
  obtain ⟨sorted, hsort, -⟩ := h.sort_fields _ (List.cons_ne_nil _ _) hscalar
  refine ⟨?_, canonical_normalizeValue h hcanonical⟩
  rw [SnapshotSetup.mountValue, normalizeValue_map, hsort]
  exact nofun

/-- A mount is compared by an object, and redeployed. -/
theorem storageItem_spec (h : setup.Lawful) {item : ConfigItem}
    (hitem : item ∈ setup.storageItems app) :
    item.compareValue ≠ .null ∧ item.compareValue.Canonical ∧ item.impact = .redeploy := by
  rcases List.mem_append.mp hitem with hitem | hitem
  · obtain ⟨volume, -, rfl⟩ := List.mem_map.mp hitem
    obtain ⟨hne, hcanonical⟩ := @mountValue_spec setup h
      (.string (if (volume.hostPath.map Value.string).any Value.truthy then
        volume.hostPath.getD "" else volume.name))
      (.string volume.mountPath) rfl rfl
    exact ⟨hne, hcanonical, rfl⟩
  · obtain ⟨file, -, rfl⟩ := List.mem_map.mp hitem
    have hdestination : ((file.mountPath.map Value.string).getD .null).isScalar = true := by
      cases file.mountPath <;> rfl
    obtain ⟨hne, hcanonical⟩ := @mountValue_spec setup h (.string file.fsPath) _ rfl hdestination
    exact ⟨hne, hcanonical, rfl⟩

theorem static_spec {s : ConfigSection} {item : ConfigItem} (hs : s ∈ staticSections setup app)
    (hitem : item ∈ s.items) : flatKey s item ∉ ignoredKeys ∧ item.key ≠ "0" := by
  obtain ⟨s', hs', item', hitem', hflat, hkey, -⟩ :=
    exists_static hs hitem readableHashes newApplication
  have hall : ∀ t ∈ staticSections readableHashes newApplication, ∀ i ∈ t.items,
      flatKey t i ∉ ignoredKeys ∧ i.key ≠ "0" := by decide +kernel
  rw [hflat, hkey]
  exact hall s' hs' item' hitem'

theorem itemAt_notIgnored {key : String} {x : FlatItem} (hx : itemAt setup app key = some x) :
    key ∉ ignoredKeys := by
  have hhead : ∀ front back : String, front.toList.head? ≠ some 'b' → front ≠ "" →
      front ++ "." ++ back ∉ ignoredKeys := by
    intro front back hfront hne hin
    obtain ⟨c, cs, hc⟩ := List.exists_cons_of_ne_nil (mt String.toList_eq_nil_iff.mp hne)
    have hkey := congrArg (fun s => s.toList.head?) (List.mem_singleton.mp hin)
    rw [hc] at hfront
    simp [hc] at hkey
    exact hfront (congrArg some hkey)
  rcases itemAt_eq_some.mp hx with ⟨s, hs, item, hitem, rfl, -⟩ | ⟨row, -, rfl, -⟩ |
    ⟨item, -, rfl, -⟩
  · exact (static_spec hs hitem).1
  · exact hhead _ _ (by simp) (by simp)
  · exact hhead _ _ (by simp) (by simp)

/-- What one application has and another has not is a variable or a mount. -/
theorem itemAt_dynamic (h : setup.Lawful) {key : String} {x : FlatItem}
    (hx : itemAt setup app key = some x) (hnone : itemAt setup app' key = none) :
    x.sectionKey ∈ dynamicSections ∧ x.item.compareValue ≠ .null := by
  rcases itemAt_eq_some.mp hx with ⟨s, hs, item, hitem, rfl, -⟩ | ⟨row, -, -, rfl⟩ |
    ⟨item, hitem, -, rfl⟩
  · obtain ⟨s', hs', item', hitem', hflat, -⟩ := exists_static hs hitem setup app'
    have hsome := itemAt_eq_some.mpr (.inl ⟨s', hs', item', hitem', rfl, rfl⟩)
    rw [← hflat, hnone] at hsome
    cases hsome
  · refine ⟨List.mem_cons_self .., ?_⟩
    rw [variableFlat, compareValue_environmentItem h]
    exact nofun
  · exact ⟨List.mem_cons_of_mem _ (List.mem_singleton_self _), (storageItem_spec h hitem).1⟩

def valueAt (setup : SnapshotSetup) (app : ApplicationConfig) (key : String) : Option Value :=
  (itemAt setup app key).map (·.item.compareValue)

/-- The changes are of the values to compare. -/
theorem reportItem_eq_none (h : setup.Lawful) {key : String}
    (hin : (itemAt setup app key).isSome ∨ (itemAt setup app' key).isSome) :
    reportItem key (itemAt setup app key) (itemAt setup app' key) = none ↔
      valueAt setup app key = valueAt setup app' key := by
  rw [valueAt, valueAt]
  cases hp : itemAt setup app key with
  | none =>
      cases hc : itemAt setup app' key with
      | none => simp [hp, hc] at hin
      | some c =>
          obtain ⟨hdynamic, hne⟩ := itemAt_dynamic h hc hp
          simp [reportItem, itemAt_notIgnored hc, hdynamic, compareValueOf, Ne.symm hne]
  | some p =>
      cases hc : itemAt setup app' key with
      | none =>
          obtain ⟨-, hne⟩ := itemAt_dynamic h hp hc
          simp [reportItem, itemAt_notIgnored hp, compareValueOf, hne]
      | some c => simp [reportItem, itemAt_notIgnored hp, compareValueOf]

theorem diff_eq_nil_iff (h : setup.Lawful) :
    diff (setup.toArray app) (setup.toArray app') = [] ↔
      ∀ key, valueAt setup app key = valueAt setup app' key := by
  rw [diff, OrderedMap.compare_eq_nil]
  refine forall_congr' fun key => ?_
  rw [mem_keys_iff, mem_keys_iff]
  constructor
  · intro hreport
    by_cases hin : (itemAt setup app key).isSome ∨ (itemAt setup app' key).isSome
    · exact (reportItem_eq_none h hin).mp (hreport hin)
    · obtain ⟨hnone, hnone'⟩ := not_or.mp hin
      rw [Option.not_isSome_iff_eq_none] at hnone hnone'
      rw [valueAt, valueAt, hnone, hnone']
  · exact fun heq hin => (reportItem_eq_none h hin).mpr heq

/-! ## What the hash sees -/

theorem impact_environmentItem (row : VariableRow) :
    (setup.environmentItem row).impact = if row.isBuildtime then .build else .redeploy := by
  rw [SnapshotSetup.environmentItem]
  cases row.isShownOnce <;> rfl

/-- The value to compare has the impact in it. -/
theorem impact_eq (h : setup.Lawful) {key : String} {x y : FlatItem}
    (hx : itemAt setup app key = some x) (hy : itemAt setup app' key = some y)
    (heq : x.item.compareValue = y.item.compareValue) : x.item.impact = y.item.impact := by
  have hstatic : ∀ {app app' : ApplicationConfig} {y : FlatItem} {s : ConfigSection}
      {item : ConfigItem}, s ∈ staticSections setup app → item ∈ s.items →
      itemAt setup app' (flatKey s item) = some y → item.impact = y.item.impact := by
    intro app app' y s item hs hitem hy
    obtain ⟨s', hs', item', hitem', hflat, -, himpact⟩ := exists_static hs hitem setup app'
    have hsome := itemAt_eq_some.mpr (.inl ⟨s', hs', item', hitem', rfl, rfl⟩)
    rw [← hflat, hy] at hsome
    rw [Option.some.inj hsome]
    exact himpact
  rcases itemAt_eq_some.mp hx with ⟨s, hs, item, hitem, rfl, rfl⟩ | ⟨row, -, rfl, rfl⟩ |
    ⟨item, hitem, rfl, rfl⟩
  · exact hstatic hs hitem hy
  · rcases itemAt_eq_some.mp hy with ⟨s, hs, item, hitem, hkey, rfl⟩ | ⟨row', -, -, rfl⟩ |
      ⟨item, -, hkey, -⟩
    · exact (hstatic hs hitem (hkey ▸ hx)).symm
    · have hsame := (sameVariable_iff h row row').mp heq
      rw [variableFlat, variableFlat, impact_environmentItem, impact_environmentItem,
        hsame.2.2.2.1]
    · exact absurd (congrArg (fun s => s.toList.head?) hkey) (by simp)
  · rcases itemAt_eq_some.mp hy with ⟨s, hs, item', hitem', hkey, rfl⟩ | ⟨row, -, hkey, -⟩ |
      ⟨item', hitem', -, rfl⟩
    · exact (hstatic hs hitem' (hkey ▸ hx)).symm
    · exact absurd (congrArg (fun s => s.toList.head?) hkey) (by simp)
    · rw [(storageItem_spec h hitem).2.2, (storageItem_spec h hitem').2.2]

theorem comparable_inj {i j : ConfigItem} :
    i.comparable = j.comparable ↔ i.compareValue = j.compareValue ∧ i.impact = j.impact := by
  have htext : ∀ a b : Impact, a.text = b.text ↔ a = b := by
    intro a b
    cases a <;> cases b <;> decide
  simp [ConfigItem.comparable, htext]

theorem comparable_iff_valueAt (h : setup.Lawful) (key : String) :
    (itemAt setup app key).map (·.item.comparable) =
        (itemAt setup app' key).map (·.item.comparable) ↔
      valueAt setup app key = valueAt setup app' key := by
  rw [valueAt, valueAt]
  cases hx : itemAt setup app key with
  | none => cases itemAt setup app' key <;> simp
  | some x =>
      cases hy : itemAt setup app' key with
      | none => simp
      | some y =>
          simp only [Option.map_some, Option.some.injEq, comparable_inj]
          exact and_iff_left_of_imp (impact_eq h hx hy)

theorem item_spec (h : setup.Lawful) {s : ConfigSection} (hs : s ∈ setup.toArray app)
    {item : ConfigItem} (hitem : item ∈ s.items) :
    item.compareValue.Canonical ∧ item.key ≠ "0" := by
  rw [toArray_eq] at hs
  rcases List.mem_append.mp hs with hs | hs
  · exact ⟨canonical_static h hs item hitem, (static_spec hs hitem).2⟩
  · rcases List.mem_cons.mp hs with rfl | hs
    · obtain ⟨row, -, rfl⟩ := List.mem_map.mp hitem
      refine ⟨?_, ?_⟩
      · rw [compareValue_environmentItem h]
        exact .string _
      · rw [key_environmentItem]
        intro hzero
        have hvalid := row.key.2
        rw [hzero] at hvalid
        exact absurd hvalid (by decide)
    · obtain rfl := List.mem_singleton.mp hs
      refine ⟨(storageItem_spec h hitem).2.1, ?_⟩
      rcases List.mem_append.mp hitem with hitem | hitem <;>
        obtain ⟨mount, -, rfl⟩ := List.mem_map.mp hitem <;>
        exact fun hzero => absurd (congrArg (fun s => s.toList.head?) hzero)
          (by simp [SnapshotSetup.volumeItem, SnapshotSetup.fileItem, SnapshotSetup.itemWith])

theorem canonical_sectionComparable (h : setup.Lawful) {s : ConfigSection}
    (hs : s ∈ setup.toArray app) : s.comparable.Canonical := by
  have hentry : ∀ e ∈ (s.byKey.mapValues ConfigItem.comparable).sortKeys,
      e.2.Canonical ∧ e.1 ≠ "0" := by
    rintro ⟨key, v⟩ he
    have hget := OrderedMap.get?_eq_some_iff.mpr ((List.mem_insertionSort _).mp he)
    rw [OrderedMap.get?_mapValues] at hget
    obtain ⟨item, hitem, rfl⟩ := Option.map_eq_some_iff.mp hget
    obtain ⟨hmem, rfl⟩ :=
      (get?_byKey ((wellKeyed_toArray setup app).items_nodup s hs)).mp hitem
    obtain ⟨hcanonical, hkey⟩ := item_spec h hs hmem
    refine ⟨Value.canonical_cons (fun e he => ?_) (by simp), hkey⟩
    simp only [List.mem_cons, List.not_mem_nil, or_false] at he
    rcases he with rfl | rfl
    · exact hcanonical
    · exact .string _
  exact Value.canonical_ofFields (fun e he => (hentry e he).1) fun e he => (hentry e he).2

theorem canonical_comparableSnapshot (h : setup.Lawful) (app : ApplicationConfig) :
    (comparableSnapshot (setup.toArray app)).Canonical := by
  have hsections : (Value.ofFields (sectionMap (setup.toArray app)).sortKeys).Canonical := by
    have hentry : ∀ e ∈ (sectionMap (setup.toArray app)).sortKeys,
        e.2.Canonical ∧ e.1 ≠ "0" := by
      rintro ⟨key, v⟩ he
      have hget := OrderedMap.get?_eq_some_iff.mpr ((List.mem_insertionSort _).mp he)
      obtain ⟨s, hs, rfl, rfl⟩ := (get?_sectionMap (wellKeyed_toArray setup app)).mp hget
      refine ⟨canonical_sectionComparable h hs, ?_⟩
      simp only [SnapshotSetup.toArray, List.mem_cons, List.not_mem_nil, or_false] at hs
      rcases hs with rfl | rfl | rfl | rfl | rfl | rfl <;> simp
    exact Value.canonical_ofFields (fun e he => (hentry e he).1) fun e he => (hentry e he).2
  refine Value.canonical_cons (fun e he => ?_) (by simp)
  simp only [List.mem_cons, List.not_mem_nil, or_false] at he
  rcases he with rfl | rfl
  · exact .int _
  · exact hsections

theorem hash_eq_iff (h : setup.Lawful) :
    setup.hashSnapshot (setup.toArray app) = setup.hashSnapshot (setup.toArray app') ↔
      ∀ key, valueAt setup app key = valueAt setup app' key := by
  have hjson : setup.hashSnapshot (setup.toArray app) = setup.hashSnapshot (setup.toArray app') ↔
      comparableSnapshot (setup.toArray app) = comparableSnapshot (setup.toArray app') := by
    constructor
    · intro heq
      exact jsonEncode_injective (canonical_comparableSnapshot h app)
        (canonical_comparableSnapshot h app') (h.sha256_injective heq)
    · intro heq
      rw [SnapshotSetup.hashSnapshot, SnapshotSetup.hashSnapshot, heq]
  rw [hjson, comparableSnapshot_eq_iff_items (wellKeyed_toArray setup app)
    (wellKeyed_toArray setup app') rfl]
  exact forall_congr' fun key => comparable_iff_valueAt h key

/-! ## The order of the rows, and locks -/

/-- Everything but the environment is the same, up to the order of the rows. -/
structure SameSettings (app app' : ApplicationConfig) : Prop where
  column_eq : app.column = app'.column
  setting_eq : app.setting = app'.setting
  noindexDomains_eq : app.noindexDomains = app'.noindexDomains
  composeDomains_eq : app.composeDomains = app'.composeDomains
  persistentStorages_perm : app.persistentStorages.Perm app'.persistentStorages
  fileStorages_perm : app.fileStorages.Perm app'.fileStorages

structure Reordered (app app' : ApplicationConfig) : Prop extends SameSettings app app' where
  environmentVariables_perm : app.environmentVariables.Perm app'.environmentVariables

def unlocked (row : VariableRow) : VariableRow := { row with isShownOnce := false }

structure SameButLocks (app app' : ApplicationConfig) : Prop extends SameSettings app app' where
  environmentVariables_perm :
    (app.environmentVariables.map unlocked).Perm (app'.environmentVariables.map unlocked)

theorem SameSettings.symm (h : SameSettings app app') : SameSettings app' app where
  column_eq := h.column_eq.symm
  setting_eq := h.setting_eq.symm
  noindexDomains_eq := h.noindexDomains_eq.symm
  composeDomains_eq := h.composeDomains_eq.symm
  persistentStorages_perm := h.persistentStorages_perm.symm
  fileStorages_perm := h.fileStorages_perm.symm

theorem staticSections_eq (h : SameSettings app app') :
    staticSections setup app = staticSections setup app' := by
  obtain ⟨hcolumn, hsetting, hnoindex, hcompose, -, -⟩ := h
  cases app
  cases app'
  obtain rfl := hcolumn
  obtain rfl := hsetting
  obtain rfl := hnoindex
  obtain rfl := hcompose
  rfl

/-- Only a variable need not be there in the other application. -/
theorem itemAt_settings (h : SameSettings app app') {key : String} {x : FlatItem}
    (hx : itemAt setup app key = some x) :
    itemAt setup app' key = some x ∨
      ∃ row ∈ app.environmentVariables, key = "environment" ++ "." ++ row.key ∧
        x = variableFlat setup row := by
  rcases itemAt_eq_some.mp hx with ⟨s, hs, hitem⟩ | hrow | ⟨item, hitem, hkey⟩
  · rw [staticSections_eq h] at hs
    exact .inl (itemAt_eq_some.mpr (.inl ⟨s, hs, hitem⟩))
  · exact .inr hrow
  · refine .inl (itemAt_eq_some.mpr (.inr (.inr ⟨item, ?_, hkey⟩)))
    have hperm := (h.persistentStorages_perm.map setup.volumeItem).append
      (h.fileStorages_perm.map setup.fileItem)
    exact hperm.mem_iff.mp hitem

theorem itemAt_of_reordered (h : Reordered app app') (key : String) :
    itemAt setup app key = itemAt setup app' key := by
  have hone : ∀ {app app' : ApplicationConfig} {x : FlatItem}, SameSettings app app' →
      app.environmentVariables.Perm app'.environmentVariables →
      itemAt setup app key = some x → itemAt setup app' key = some x := by
    intro app app' x hsame hperm hx
    rcases itemAt_settings hsame hx with hx | ⟨row, hrow, hkey, rfl⟩
    · exact hx
    · exact itemAt_eq_some.mpr (.inr (.inl ⟨row, hperm.mem_iff.mp hrow, hkey, rfl⟩))
  exact Option.ext fun x => ⟨hone h.toSameSettings h.environmentVariables_perm,
    hone h.toSameSettings.symm h.environmentVariables_perm.symm⟩

theorem valueAt_of_sameButLocks (h : setup.Lawful) (hsame : SameButLocks app app') (key : String) :
    valueAt setup app key = valueAt setup app' key := by
  have hone : ∀ {app app' : ApplicationConfig} {v : Value}, SameSettings app app' →
      (app.environmentVariables.map unlocked).Perm (app'.environmentVariables.map unlocked) →
      valueAt setup app key = some v → valueAt setup app' key = some v := by
    intro app app' v hsame hperm hv
    obtain ⟨x, hx, rfl⟩ := Option.map_eq_some_iff.mp hv
    rcases itemAt_settings hsame hx with hx | ⟨row, hrow, rfl, rfl⟩
    · rw [valueAt, hx]
      rfl
    · obtain ⟨row', hrow', heq⟩ :=
        List.mem_map.mp (hperm.mem_iff.mp (List.mem_map_of_mem hrow))
      simp only [unlocked, VariableRow.mk.injEq] at heq
      obtain ⟨hkey, hvalue, -, hscopes⟩ := heq
      have hitem : itemAt setup app' ("environment" ++ "." ++ row.key) =
          some (variableFlat setup row') :=
        itemAt_eq_some.mpr (.inr (.inl ⟨row', hrow', by rw [hkey], rfl⟩))
      rw [valueAt, hitem]
      exact congrArg some ((sameVariable_iff h row' row).mpr ⟨hvalue, hscopes⟩)
  exact Option.ext fun v => ⟨hone hsame.toSameSettings hsame.environmentVariables_perm,
    hone hsame.toSameSettings.symm hsame.environmentVariables_perm.symm⟩

/-- A changed variable is reported under its key. -/
theorem mem_diff_variable (h : setup.Lawful) {row row' : VariableRow}
    (hrow : row ∈ app.environmentVariables) (hrow' : row' ∈ app'.environmentVariables)
    (hkey : row.key = row'.key) (hne : ¬ IsSameVariable row row') :
    ∃ c ∈ diff (setup.toArray app) (setup.toArray app'),
      c.key = "environment" ++ "." ++ row.key := by
  have hx : itemAt setup app ("environment" ++ "." ++ row.key) =
      some (variableFlat setup row) :=
    itemAt_eq_some.mpr (.inr (.inl ⟨row, hrow, rfl, rfl⟩))
  have hy : itemAt setup app' ("environment" ++ "." ++ row.key) =
      some (variableFlat setup row') :=
    itemAt_eq_some.mpr (.inr (.inl ⟨row', hrow', by rw [hkey], rfl⟩))
  have hreport : reportItem ("environment" ++ "." ++ row.key)
      (itemAt setup app ("environment" ++ "." ++ row.key))
      (itemAt setup app' ("environment" ++ "." ++ row.key)) =
      some (changeOf ("environment" ++ "." ++ row.key) (variableFlat setup row')
        (some (variableFlat setup row)) (some (variableFlat setup row'))) := by
    have hvalue : compareValueOf (some (variableFlat setup row)) ≠
        compareValueOf (some (variableFlat setup row')) := mt (sameVariable_iff h row row').mp hne
    rw [hx, hy, reportItem, if_neg (itemAt_notIgnored hx), if_neg (by simp), if_neg hvalue]
    rfl
  exact ⟨_, mem_diff_of_report hreport⟩

/-- The changes are none exactly where the hashes are the same. The order in which the
rows are read does not matter, locks are no change, and every change of a variable's
value or scope is one. -/
theorem changes_agree_with_hash (setup : SnapshotSetup) (h : setup.Lawful) :
    (∀ app app' : ApplicationConfig, diff (setup.toArray app) (setup.toArray app') = [] ↔
      setup.hashSnapshot (setup.toArray app) = setup.hashSnapshot (setup.toArray app')) ∧
    (∀ app : ApplicationConfig, diff (setup.toArray app) (setup.toArray app) = []) ∧
    (∀ previous previous' current current' : ApplicationConfig,
      Reordered previous previous' → Reordered current current' →
      diff (setup.toArray previous) (setup.toArray current) =
          diff (setup.toArray previous') (setup.toArray current') ∧
        setup.hashSnapshot (setup.toArray current) =
          setup.hashSnapshot (setup.toArray current')) ∧
    (∀ app app' : ApplicationConfig, SameButLocks app app' →
      diff (setup.toArray app) (setup.toArray app') = []) ∧
    ∀ app app' : ApplicationConfig, ∀ row ∈ app.environmentVariables,
      ∀ row' ∈ app'.environmentVariables, row.key = row'.key → ¬ IsSameVariable row row' →
        ∃ c ∈ diff (setup.toArray app) (setup.toArray app'),
          c.key = "environment" ++ "." ++ row.key := by
  refine ⟨fun app app' => ?_, fun app => ?_, fun previous previous' current current' hp hc => ?_,
    fun app app' hsame => ?_, fun app app' row hrow row' hrow' => mem_diff_variable h hrow hrow'⟩
  · rw [diff_eq_nil_iff h, hash_eq_iff h]
  · exact (diff_eq_nil_iff h).mpr fun _ => rfl
  · refine ⟨OrderedMap.compare_same (itemAt_of_reordered hp) (itemAt_of_reordered hc), ?_⟩
    refine (hash_eq_iff h).mpr fun key => ?_
    rw [valueAt, valueAt, itemAt_of_reordered hc]
  · exact (diff_eq_nil_iff h).mpr fun key => valueAt_of_sameButLocks h hsame key

/-- An application with one variable. -/
def withToken (isShownOnce : Bool) : ApplicationConfig :=
  { newApplication with
    environmentVariables :=
      [⟨⟨"TOKEN", by decide⟩, some "abc", isShownOnce, false, false, true, true⟩]
    variables_nodup := List.nodup_singleton _ }

theorem locking_is_no_change :
    diff (readableHashes.toArray (withToken false)) (readableHashes.toArray (withToken true)) =
      [] := by
  obtain ⟨-, -, -, hlocks, -⟩ := changes_agree_with_hash readableHashes lawful_readableHashes
  exact hlocks _ _ ⟨⟨rfl, rfl, rfl, rfl, .refl _, .refl _⟩, .refl _⟩

end ConfigurationHash

end OnePloy
