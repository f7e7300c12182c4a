import OnePloy.ConfigurationDiffer

/-!
# The items of a snapshot

No two items of a section have the same key, and no section has a dot in its own,
so that a snapshot is read back from its flat items.
-/

namespace OnePloy

open Php ConfigurationDiffer

/-- No two items are under one flat key. -/
structure WellKeyed (sections : List ConfigSection) : Prop where
  sections_nodup : (sections.map (·.key)).Nodup
  no_dot : ∀ s ∈ sections, '.' ∉ s.key.toList
  items_nodup : ∀ s ∈ sections, (s.items.map (·.key)).Nodup

def flatKey (s : ConfigSection) (item : ConfigItem) : String := s.key ++ "." ++ item.key

variable {sections : List ConfigSection}

theorem flatKey_inj (h : WellKeyed sections) {s s' : ConfigSection} (hs : s ∈ sections)
    (hs' : s' ∈ sections) {k k' : String} (heq : s.key ++ "." ++ k = s'.key ++ "." ++ k') :
    s = s' ∧ k = k' := by
  have htake : ∀ (t : ConfigSection) (l : String), t ∈ sections →
      (t.key ++ "." ++ l).toList.takeWhile (· ≠ '.') = t.key.toList := by
    intro t l ht
    have hne : ∀ c ∈ t.key.toList, decide (c ≠ '.') = true := fun c hc =>
      decide_eq_true fun hdot => h.no_dot t ht (hdot ▸ hc)
    rw [String.toList_append, String.toList_append, List.append_assoc,
      List.takeWhile_append_of_pos hne]
    simp
  have hkey : s.key = s'.key := String.toList_injective (by
    rw [← htake s k hs, heq, htake s' k' hs'])
  have hsection : s = s' := List.inj_on_of_nodup_map h.sections_nodup hs hs' hkey
  refine ⟨hsection, ?_⟩
  rwa [hkey, String.append_right_inj] at heq

theorem byKey_entries {s : ConfigSection} (h : (s.items.map (·.key)).Nodup) :
    s.byKey.entries = s.items.map fun item => (item.key, item) := by
  have hfold : s.byKey = (s.items.map fun item => (item.key, item)).foldl
      (fun m e => m.set e.1 e.2) .empty := by
    rw [ConfigSection.byKey, List.foldl_map]
  rw [hfold, OrderedMap.entries_foldl_set]
  · rfl
  · simpa [OrderedMap.empty, Function.comp_def] using h

theorem nodup_flatKeys (h : WellKeyed sections) :
    ((sections.flatMap fun s => s.items.map fun item =>
      (flatKey s item, flatItem s item)).map Prod.fst).Nodup := by
  have hkeys : (sections.flatMap fun s => s.items.map fun item =>
      (flatKey s item, flatItem s item)).map Prod.fst =
        sections.flatMap fun s => s.items.map (flatKey s) := by
    rw [List.map_flatMap]
    simp [Function.comp_def]
  rw [hkeys, List.nodup_flatMap]
  constructor
  · intro s hs
    refine (List.nodup_map_iff_inj_on (h.items_nodup s hs).of_map).mpr fun i hi j hj heq => ?_
    exact List.inj_on_of_nodup_map (h.items_nodup s hs) hi hj (flatKey_inj h hs hs heq).2
  · refine (List.Nodup.of_map _ h.sections_nodup).imp_of_mem ?_
    intro s s' hs hs' hne k hk hk'
    obtain ⟨i, -, rfl⟩ := List.mem_map.mp hk
    obtain ⟨j, -, heq⟩ := List.mem_map.mp hk'
    exact hne (flatKey_inj h hs hs' heq.symm).1

theorem flattenItems_entries (h : WellKeyed sections) :
    (flattenItems sections).entries =
      sections.flatMap fun s => s.items.map fun item => (flatKey s item, flatItem s item) := by
  have hfold : ∀ (rest : List ConfigSection) (m : OrderedMap String FlatItem),
      (∀ s ∈ rest, (s.items.map (·.key)).Nodup) →
      rest.foldl (fun m s => s.byKey.entries.foldl
          (fun m e => m.set (s.key ++ "." ++ e.1) (flatItem s e.2)) m) m =
        (rest.flatMap fun s => s.items.map fun item => (flatKey s item, flatItem s item)).foldl
          (fun m e => m.set e.1 e.2) m := by
    intro rest
    induction rest with
    | nil => exact fun _ _ => rfl
    | cons s rest ih =>
        intro m hnodup
        rw [List.foldl_cons, List.flatMap_cons, List.foldl_append,
          ih _ fun t ht => hnodup t (List.mem_cons_of_mem _ ht),
          byKey_entries (hnodup s (List.mem_cons_self ..)), List.foldl_map, List.foldl_map]
        rfl
  rw [flattenItems, hfold _ _ h.items_nodup, OrderedMap.entries_foldl_set]
  · rfl
  · exact nodup_flatKeys h

/-- What stands under a flat key. -/
theorem get?_flattenItems (h : WellKeyed sections) {key : String} {x : FlatItem} :
    (flattenItems sections).get? key = some x ↔
      ∃ s ∈ sections, ∃ item ∈ s.items, key = flatKey s item ∧ x = flatItem s item := by
  rw [OrderedMap.get?_eq_some_iff, flattenItems_entries h, List.mem_flatMap]
  refine exists_congr fun s => and_congr_right fun _ => ?_
  rw [List.mem_map]
  refine exists_congr fun item => and_congr_right fun _ => ?_
  rw [Prod.mk.injEq, eq_comm, @eq_comm _ x]

/-! ## What the hash is of -/

theorem get?_byKey {s : ConfigSection} (h : (s.items.map (·.key)).Nodup) {k : String}
    {item : ConfigItem} : s.byKey.get? k = some item ↔ item ∈ s.items ∧ item.key = k := by
  rw [OrderedMap.get?_eq_some_iff, byKey_entries h, List.mem_map]
  constructor
  · rintro ⟨item, hitem, heq⟩
    obtain ⟨rfl, rfl⟩ := Prod.mk.inj heq
    exact ⟨hitem, rfl⟩
  · rintro ⟨hitem, rfl⟩
    exact ⟨item, hitem, rfl⟩

theorem sectionComparable_iff {s s' : ConfigSection} :
    s.comparable = s'.comparable ↔
      ∀ k, (s.byKey.get? k).map (·.comparable) = (s'.byKey.get? k).map (·.comparable) := by
  rw [ConfigSection.comparable, ConfigSection.comparable]
  constructor
  · intro h k
    have hsame := OrderedMap.sortKeys_eq_iff.mp (Value.ofFields_injective h) k
    rwa [OrderedMap.get?_mapValues, OrderedMap.get?_mapValues] at hsame
  · intro h
    refine congrArg _ (OrderedMap.sortKeys_eq_iff.mpr fun k => ?_)
    rw [OrderedMap.get?_mapValues, OrderedMap.get?_mapValues, h k]

/-- The sections of a snapshot by their keys, each as it is hashed. -/
def sectionMap (sections : List ConfigSection) : OrderedMap String Value :=
  sections.foldl (fun m s => m.set s.key s.comparable) .empty

theorem sectionMap_entries (h : WellKeyed sections) :
    (sectionMap sections).entries = sections.map fun s => (s.key, s.comparable) := by
  have hfold : sectionMap sections = (sections.map fun s => (s.key, s.comparable)).foldl
      (fun m e => m.set e.1 e.2) .empty := by
    rw [sectionMap, List.foldl_map]
  rw [hfold, OrderedMap.entries_foldl_set]
  · rfl
  · simpa [OrderedMap.empty, Function.comp_def] using h.sections_nodup

theorem comparableSnapshot_eq_iff {sections' : List ConfigSection} :
    comparableSnapshot sections = comparableSnapshot sections' ↔
      (sectionMap sections).Same (sectionMap sections') := by
  rw [← OrderedMap.sortKeys_eq_iff]
  constructor
  · intro h
    have hfields := Value.map.inj h
    simp only [List.cons.injEq, Prod.mk.injEq, true_and, and_true] at hfields
    exact Value.ofFields_injective hfields
  · intro h
    change Value.map [_, ("sections", .ofFields (sectionMap sections).sortKeys)] = _
    rw [h]
    rfl

/-- Under a key the section hashes what the flat snapshot has under its flat key. -/
theorem get?_section (h : WellKeyed sections) {s : ConfigSection} (hs : s ∈ sections)
    (k : String) : (s.byKey.get? k).map (flatItem s) =
      (flattenItems sections).get? (s.key ++ "." ++ k) := by
  refine Option.ext fun x => ?_
  rw [get?_flattenItems h, Option.map_eq_some_iff]
  constructor
  · rintro ⟨item, hitem, rfl⟩
    obtain ⟨hmem, rfl⟩ := (get?_byKey (h.items_nodup s hs)).mp hitem
    exact ⟨s, hs, item, hmem, rfl, rfl⟩
  · rintro ⟨s', hs', item, hitem, hkey, rfl⟩
    obtain ⟨rfl, rfl⟩ := flatKey_inj h hs hs' hkey
    exact ⟨item, (get?_byKey (h.items_nodup s hs)).mpr ⟨hitem, rfl⟩, rfl⟩

theorem sectionComparable_iff_items (h : WellKeyed sections) {sections' : List ConfigSection}
    (h' : WellKeyed sections') {s s' : ConfigSection} (hs : s ∈ sections) (hs' : s' ∈ sections')
    (hkey : s.key = s'.key) :
    s.comparable = s'.comparable ↔
      ∀ k, ((flattenItems sections).get? (s.key ++ "." ++ k)).map (·.item.comparable) =
        ((flattenItems sections').get? (s.key ++ "." ++ k)).map (·.item.comparable) := by
  have hflat : ∀ (t : ConfigSection) (k : String),
      ((t.byKey.get? k).map (flatItem t)).map (·.item.comparable) =
        (t.byKey.get? k).map (·.comparable) := fun t k => by
    rw [Option.map_map]
    rfl
  rw [sectionComparable_iff]
  refine forall_congr' fun k => ?_
  rw [← get?_section h hs, hkey, ← get?_section h' hs', hflat, hflat]

theorem get?_sectionMap (h : WellKeyed sections) {key : String} {v : Value} :
    (sectionMap sections).get? key = some v ↔ ∃ s ∈ sections, s.key = key ∧ s.comparable = v := by
  rw [OrderedMap.get?_eq_some_iff, sectionMap_entries h, List.mem_map]
  exact exists_congr fun s => and_congr_right fun _ => Prod.mk.injEq .. ▸ Iff.rfl

theorem exists_section {sections' : List ConfigSection}
    (hkeys : sections.map (·.key) = sections'.map (·.key)) {s : ConfigSection}
    (hs : s ∈ sections) : ∃ s' ∈ sections', s.key = s'.key := by
  have hmem : s.key ∈ sections'.map (·.key) := hkeys ▸ List.mem_map_of_mem hs
  obtain ⟨s', hs', heq⟩ := List.mem_map.mp hmem
  exact ⟨s', hs', heq.symm⟩

/-- One half of a comparison, from one snapshot to the other. -/
theorem sectionMap_of_items (h : WellKeyed sections) {sections' : List ConfigSection}
    (h' : WellKeyed sections') (hkeys : sections.map (·.key) = sections'.map (·.key))
    (hitems : ∀ key, ((flattenItems sections).get? key).map (·.item.comparable) =
      ((flattenItems sections').get? key).map (·.item.comparable))
    {key : String} {v : Value} (hget : (sectionMap sections).get? key = some v) :
    (sectionMap sections').get? key = some v := by
  obtain ⟨s, hs, rfl, rfl⟩ := (get?_sectionMap h).mp hget
  obtain ⟨s', hs', hkey⟩ := exists_section hkeys hs
  exact (get?_sectionMap h').mpr ⟨s', hs', hkey.symm,
    ((sectionComparable_iff_items h h' hs hs' hkey).mpr fun k => hitems _).symm⟩

theorem items_of_sectionMap (h : WellKeyed sections) {sections' : List ConfigSection}
    (h' : WellKeyed sections') (hkeys : sections.map (·.key) = sections'.map (·.key))
    (hsame : (sectionMap sections).Same (sectionMap sections')) {key : String} {v : Value}
    (hget : ((flattenItems sections).get? key).map (·.item.comparable) = some v) :
    ((flattenItems sections').get? key).map (·.item.comparable) = some v := by
  obtain ⟨x, hx, -⟩ := Option.map_eq_some_iff.mp hget
  obtain ⟨s, hs, item, -, rfl, -⟩ := (get?_flattenItems h).mp hx
  obtain ⟨s', hs', hkey⟩ := exists_section hkeys hs
  have hmap := (get?_sectionMap h).mpr ⟨s, hs, rfl, rfl⟩
  rw [hsame] at hmap
  obtain ⟨t, ht, htkey, htcomparable⟩ := (get?_sectionMap h').mp hmap
  obtain rfl := List.inj_on_of_nodup_map h'.sections_nodup ht hs' (htkey.trans hkey)
  rw [flatKey, ← (sectionComparable_iff_items h h' hs hs' hkey).mp htcomparable.symm]
  exact hget

/-- Two snapshots with the same sections are hashed alike if and only if they have the
same under each flat key. -/
theorem comparableSnapshot_eq_iff_items (h : WellKeyed sections) {sections' : List ConfigSection}
    (h' : WellKeyed sections') (hkeys : sections.map (·.key) = sections'.map (·.key)) :
    comparableSnapshot sections = comparableSnapshot sections' ↔
      ∀ key, ((flattenItems sections).get? key).map (·.item.comparable) =
        ((flattenItems sections').get? key).map (·.item.comparable) := by
  rw [comparableSnapshot_eq_iff]
  constructor
  · intro hsame key
    exact Option.ext fun v => ⟨items_of_sectionMap h h' hkeys hsame,
      items_of_sectionMap h' h hkeys.symm hsame.symm⟩
  · intro hitems key
    exact Option.ext fun v => ⟨sectionMap_of_items h h' hkeys hitems,
      sectionMap_of_items h' h hkeys.symm fun key => (hitems key).symm⟩

/-! ## A new application -/

/-- The keys of an object in order; without arrays in it this is all. -/
def sortKeysOnly : Value → Value
  | .map fields =>
      let sorted := fields.insertionSort fun e e' => e.1 ≤ e'.1
      if sorted.map Prod.fst = (List.range sorted.length).map toString then
        .list (sorted.map Prod.snd)
      else .map sorted
  | v => v

/-- Hashes that tell what they are of. -/
def readableHashes : SnapshotSetup where
  base64Decode _ := none
  sha256 text := text
  hmac text := "#" ++ text
  sortRecursive := sortKeysOnly
  limit text _ := text

/-- Nothing is set. -/
def newApplication : ApplicationConfig where
  column _ := .null
  setting _ := .null
  noindexDomains := []
  composeDomains := none
  environmentVariables := []
  persistentStorages := []
  fileStorages := []
  column_scalar _ := rfl
  setting_scalar _ := rfl
  domains_canonical _ h := nomatch h
  variables_nodup := .nil
  volumes_nodup := .nil
  files_nodup := .nil

namespace ConfigurationItems

variable {setup : SnapshotSetup} {app app' : ApplicationConfig}

/-! ## The items under the flat keys -/

def staticSections (setup : SnapshotSetup) (app : ApplicationConfig) : List ConfigSection :=
  [⟨"source", "Source", setup.sourceItems app⟩,
    ⟨"build", "Build", setup.buildItems app⟩,
    ⟨"runtime", "Runtime", setup.runtimeItems app⟩,
    ⟨"domains", "Domains & Proxy", setup.domainItems app⟩]

def environmentSection (setup : SnapshotSetup) (app : ApplicationConfig) : ConfigSection :=
  ⟨"environment", "Environment Variables", setup.environmentItems app⟩

def storageSection (setup : SnapshotSetup) (app : ApplicationConfig) : ConfigSection :=
  ⟨"storage", "Storage", setup.storageItems app⟩

theorem toArray_eq : setup.toArray app =
    staticSections setup app ++ [environmentSection setup app, storageSection setup app] := rfl

/-- Keys and impacts of the settings are the same for every application. -/
theorem fixedParts (setup setup' : SnapshotSetup) (app app' : ApplicationConfig) :
    (staticSections setup app).map
        (fun s => (s.key, s.items.map fun item => (item.key, item.impact))) =
      (staticSections setup' app').map
        (fun s => (s.key, s.items.map fun item => (item.key, item.impact))) := rfl

theorem staticKeys_nodup {s : ConfigSection} (hs : s ∈ staticSections setup app) :
    (s.items.map (·.key)).Nodup := by
  have hall : ∀ keys ∈ (staticSections readableHashes newApplication).map
      (fun s => s.items.map (·.key)), keys.Nodup := by decide +kernel
  have hsame : (staticSections setup app).map (fun s => s.items.map (·.key)) =
      (staticSections readableHashes newApplication).map (fun s => s.items.map (·.key)) := rfl
  exact hall _ (hsame ▸ List.mem_map_of_mem hs)

theorem key_environmentItem (row : VariableRow) :
    (setup.environmentItem row).key = row.key := by
  rw [SnapshotSetup.environmentItem]
  split <;> rfl

theorem variableKeys_nodup : ((environmentSection setup app).items.map (·.key)).Nodup := by
  have hkeys : (environmentSection setup app).items.map (·.key) =
      (app.environmentVariables.map (·.key)).map Subtype.val := by
    rw [environmentSection, SnapshotSetup.environmentItems, List.map_map, List.map_map]
    exact List.map_congr_left fun row _ => key_environmentItem row
  rw [hkeys]
  exact app.variables_nodup.map Subtype.val_injective

theorem mountKeys_nodup : ((storageSection setup app).items.map (·.key)).Nodup := by
  have hkeys : (storageSection setup app).items.map (·.key) =
      (app.persistentStorages.map (·.id)).map (fun id => "volume_" ++ toString id) ++
        (app.fileStorages.map (·.id)).map (fun id => "file_" ++ toString id) := by
    rw [storageSection, SnapshotSetup.storageItems, List.map_append, List.map_map, List.map_map,
      List.map_map, List.map_map]
    rfl
  have hinj : ∀ front : String, Function.Injective fun id : Nat => front ++ toString id := by
    intro front m n heq
    have htext := (String.append_right_inj _).mp heq
    exact toDigits_injective (by
      rw [← Nat.toList_repr (n := m), ← Nat.toList_repr (n := n)]
      exact congrArg String.toList htext)
  rw [hkeys, List.nodup_append]
  refine ⟨app.volumes_nodup.map (hinj _), app.files_nodup.map (hinj _), ?_⟩
  intro k hk l hl heq
  obtain ⟨m, -, rfl⟩ := List.mem_map.mp hk
  obtain ⟨n, -, rfl⟩ := List.mem_map.mp hl
  have hhead := congrArg (fun s => s.toList.head?) heq
  simp at hhead

theorem wellKeyed_toArray (setup : SnapshotSetup) (app : ApplicationConfig) :
    WellKeyed (setup.toArray app) where
  sections_nodup := by
    have hkeys : (setup.toArray app).map (·.key) =
        ["source", "build", "runtime", "domains", "environment", "storage"] := rfl
    rw [hkeys]
    decide
  no_dot s hs := by
    simp only [SnapshotSetup.toArray, List.mem_cons, List.not_mem_nil, or_false] at hs
    rcases hs with rfl | rfl | rfl | rfl | rfl | rfl <;> simp
  items_nodup s hs := by
    rw [toArray_eq] at hs
    rcases List.mem_append.mp hs with hs | hs
    · exact staticKeys_nodup hs
    · rcases List.mem_cons.mp hs with rfl | hs
      · exact variableKeys_nodup
      · obtain rfl := List.mem_singleton.mp hs
        exact mountKeys_nodup

def itemAt (setup : SnapshotSetup) (app : ApplicationConfig) (key : String) : Option FlatItem :=
  (flattenItems (setup.toArray app)).get? key

def variableFlat (setup : SnapshotSetup) (row : VariableRow) : FlatItem :=
  ⟨setup.environmentItem row, "environment", "Environment Variables"⟩

/-- An item is a setting's, a variable's or a mount's. -/
theorem itemAt_eq_some {key : String} {x : FlatItem} :
    itemAt setup app key = some x ↔
      (∃ s ∈ staticSections setup app, ∃ item ∈ s.items,
        key = flatKey s item ∧ x = flatItem s item) ∨
      (∃ row ∈ app.environmentVariables, key = "environment" ++ "." ++ row.key ∧
        x = variableFlat setup row) ∨
      ∃ item ∈ setup.storageItems app, key = "storage" ++ "." ++ item.key ∧
        x = ⟨item, "storage", "Storage"⟩ := by
  rw [itemAt, get?_flattenItems (wellKeyed_toArray setup app), toArray_eq]
  constructor
  · rintro ⟨s, hs, item, hitem, hkey, hx⟩
    rcases List.mem_append.mp hs with hs | hs
    · exact .inl ⟨s, hs, item, hitem, hkey, hx⟩
    · rcases List.mem_cons.mp hs with rfl | hs
      · obtain ⟨row, hrow, rfl⟩ := List.mem_map.mp hitem
        rw [flatKey, key_environmentItem] at hkey
        exact .inr (.inl ⟨row, hrow, hkey, hx⟩)
      · obtain rfl := List.mem_singleton.mp hs
        exact .inr (.inr ⟨item, hitem, hkey, hx⟩)
  · rintro (⟨s, hs, item, hitem, hkey, hx⟩ | ⟨row, hrow, hkey, hx⟩ | ⟨item, hitem, hkey, hx⟩)
    · exact ⟨s, List.mem_append_left _ hs, item, hitem, hkey, hx⟩
    · refine ⟨environmentSection setup app, List.mem_append_right _ (List.mem_cons_self ..),
        _, List.mem_map_of_mem hrow, ?_, hx⟩
      rw [flatKey, key_environmentItem]
      exact hkey
    · exact ⟨storageSection setup app,
        List.mem_append_right _ (List.mem_cons_of_mem _ (List.mem_singleton_self _)),
        item, hitem, hkey, hx⟩

/-- The settings are there in every application. -/
theorem exists_static {s : ConfigSection} {item : ConfigItem}
    (hs : s ∈ staticSections setup app) (hitem : item ∈ s.items) (setup' : SnapshotSetup)
    (app' : ApplicationConfig) :
    ∃ s' ∈ staticSections setup' app', ∃ item' ∈ s'.items, flatKey s item = flatKey s' item' ∧
      item.key = item'.key ∧ item.impact = item'.impact := by
  have hmem := List.mem_map_of_mem
    (f := fun s : ConfigSection => (s.key, s.items.map fun item => (item.key, item.impact))) hs
  rw [fixedParts setup setup' app app'] at hmem
  obtain ⟨s', hs', hpart⟩ := List.mem_map.mp hmem
  obtain ⟨hkey, hitems⟩ := Prod.mk.inj hpart
  have hin := List.mem_map_of_mem (f := fun item : ConfigItem => (item.key, item.impact)) hitem
  rw [← hitems] at hin
  obtain ⟨item', hitem', heq⟩ := List.mem_map.mp hin
  obtain ⟨hk, himpact⟩ := Prod.mk.inj heq
  exact ⟨s', hs', item', hitem', by rw [flatKey, flatKey, hkey, hk], hk.symm, himpact.symm⟩

/-! ## What is reported -/

theorem reportItem_eq_some {key : String} {previous current : Option FlatItem} {c : ConfigChange}
    (h : reportItem key previous current = some c) :
    ∃ item, current.or previous = some item ∧ c = changeOf key item previous current := by
  rw [reportItem] at h
  split at h
  · cases h
  · split at h
    · cases h
    · split at h
      · cases h
      · obtain ⟨item, hitem, rfl⟩ := Option.map_eq_some_iff.mp h
        exact ⟨item, hitem, rfl⟩

theorem mem_keys_iff (app : ApplicationConfig) (key : String) :
    key ∈ (flattenItems (setup.toArray app)).keys ↔ (itemAt setup app key).isSome = true := by
  rw [Option.isSome_iff_ne_none, ne_eq, itemAt, OrderedMap.get?_eq_none_iff, not_not]

theorem mem_diff_iff {c : ConfigChange} :
    c ∈ diff (setup.toArray app) (setup.toArray app') ↔
      reportItem c.key (itemAt setup app c.key) (itemAt setup app' c.key) = some c := by
  rw [diff, OrderedMap.mem_compare]
  constructor
  · rintro ⟨key, -, hreport⟩
    obtain ⟨item, -, hc⟩ := reportItem_eq_some hreport
    have hkey : c.key = key := congrArg ConfigChange.key hc
    rw [hkey]
    exact hreport
  · intro hreport
    obtain ⟨item, hitem, -⟩ := reportItem_eq_some hreport
    have hsome := congrArg Option.isSome hitem
    rw [Option.isSome_or, Option.isSome_some, Bool.or_eq_true] at hsome
    refine ⟨c.key, ?_, hreport⟩
    rw [mem_keys_iff, mem_keys_iff]
    exact hsome.symm

theorem mem_diff_of_report {key : String} {c : ConfigChange}
    (h : reportItem key (itemAt setup app key) (itemAt setup app' key) = some c) :
    c ∈ diff (setup.toArray app) (setup.toArray app') ∧ c.key = key := by
  obtain ⟨item, -, hc⟩ := reportItem_eq_some h
  have hkey : c.key = key := congrArg ConfigChange.key hc
  exact ⟨mem_diff_iff.mpr (by rw [hkey, h]), hkey⟩

end ConfigurationItems

end OnePloy
