import OnePloy.Lib.Pages

/-!
# Pages of the environment table

The table shows up to four segments one after the other: the managed variables of
production and the hard-coded ones of the compose file, then both again for previews. A
page is read without the rows before it: `environmentVariablePageRows` carries an offset
and what remains of the page through the segments, and asks each for its part only. What
it collects is the window of all the rows at that page (`pageLoop_eq`), so the pages are
the rows (`pages_are_rows`).
-/

namespace OnePloy

namespace EnvironmentPages

/-! ## Rows -/

/-- What a row reads of a managed variable. -/
structure EnvironmentVariable where
  id : Nat
  key : String
  isPreview : Bool
  deriving DecidableEq, Repr

/-- What a row reads of a variable with its value in the compose file. -/
structure HardcodedVariable where
  key : String
  serviceName : Option String
  deriving DecidableEq, Repr

inductive Kind
  | managed | hardcoded
  deriving DecidableEq, Repr

structure Row where
  id : String
  kind : Kind
  scope : String
  environmentVariable : EnvironmentVariable ⊕ HardcodedVariable
  deriving DecidableEq, Repr

def scopeName (isPreview : Bool) : String := if isPreview then "preview" else "production"

def managedEnvironmentVariableRow (v : EnvironmentVariable) : Row where
  id := "environment-" ++ toString v.id
  kind := .managed
  scope := scopeName v.isPreview
  environmentVariable := .inl v

def hardcodedEnvironmentVariableRow (isPreview : Bool) (index : Nat) (v : HardcodedVariable) :
    Row where
  id := "hardcoded-" ++ scopeName isPreview ++ "-" ++ v.key ++ "-" ++
    v.serviceName.getD "default" ++ "-" ++ toString index
  kind := .hardcoded
  scope := scopeName isPreview
  environmentVariable := .inr v

/-! ## The table -/

inductive EnvironmentFilter
  | all | production | preview
  deriving DecidableEq, Repr

inductive VariableFilter
  | managed | user | buildtime | runtime | multiline | literal
  deriving DecidableEq, Repr

structure EnvironmentTable where
  readyToLoad : Bool
  showPreview : Bool
  isApplication : Bool
  isService : Bool
  buildPack : Option String
  environmentFilter : EnvironmentFilter
  variableFilters : List VariableFilter
  /-- What `managedEnvironmentVariablesQuery` finds, in its order. -/
  managedEnvironmentVariables : Bool → List EnvironmentVariable
  /-- What the compose file has, after search, service filter and sorting. -/
  composeVariables : List HardcodedVariable
  page : Int
  perPage : Nat
  perPage_pos : 0 < perPage

structure Segment where
  kind : Kind
  isPreview : Bool
  count : Nat
  deriving DecidableEq, Repr

namespace EnvironmentTable

/-- A page size from the form is brought between 1 and 100, and the first page is shown. -/
def updatedPerPage (t : EnvironmentTable) (perPage : Int) : EnvironmentTable :=
  { t with
    page := 1
    perPage := (max 1 (min 100 perPage)).toNat
    perPage_pos := by omega }

variable (t : EnvironmentTable)

def supportsPreviewEnvironmentVariables : Bool := t.showPreview && t.isApplication

def showsHardcodedEnvironmentVariables : Bool :=
  t.isService || t.buildPack == some "dockercompose"

def includesHardcodedVariables : Bool :=
  !t.variableFilters.contains .user &&
    (t.variableFilters.filter [.buildtime, .runtime, .multiline, .literal].contains).isEmpty

def getHardcodedVariables (isPreview : Bool) : List HardcodedVariable :=
  if isPreview && !t.supportsPreviewEnvironmentVariables then []
  else if !t.isService && (!t.isApplication || t.buildPack != some "dockercompose") then []
  else t.composeVariables

/-- `hardcodedEnvironmentVariables` and its sibling for previews. -/
def hardcodedEnvironmentVariables (isPreview : Bool) : List HardcodedVariable :=
  if t.readyToLoad then t.getHardcodedVariables isPreview else []

def countManagedEnvironmentVariables (isPreview : Bool) : Nat :=
  if isPreview && !t.supportsPreviewEnvironmentVariables then 0
  else (t.managedEnvironmentVariables isPreview).length

/-- Where offset and limit are `null`, all of them. -/
def fetchManagedEnvironmentVariables (isPreview : Bool) (offset limit : Option Nat) :
    List EnvironmentVariable :=
  if isPreview && !t.supportsPreviewEnvironmentVariables then []
  else
    let skipped := (t.managedEnvironmentVariables isPreview).drop (offset.getD 0)
    match limit with
    | none => skipped
    | some limit => skipped.take limit

/-- The segments of one scope. -/
def scopeSegments (isPreview : Bool) : List Segment :=
  ⟨.managed, isPreview, t.countManagedEnvironmentVariables isPreview⟩ ::
    if t.includesHardcodedVariables && t.showsHardcodedEnvironmentVariables then
      [⟨.hardcoded, isPreview, (t.hardcodedEnvironmentVariables isPreview).length⟩]
    else []

def environmentVariableSegments : List Segment :=
  (if t.environmentFilter == .all || t.environmentFilter == .production then
    t.scopeSegments false else []) ++
  if t.supportsPreviewEnvironmentVariables &&
      (t.environmentFilter == .all || t.environmentFilter == .preview) then
    t.scopeSegments true else []

/-- What the loop over all rows pushes for a segment. -/
def segmentRows (s : Segment) : List Row :=
  match s.kind with
  | .managed =>
      (t.fetchManagedEnvironmentVariables s.isPreview none none).map managedEnvironmentVariableRow
  | .hardcoded =>
      (t.hardcodedEnvironmentVariables s.isPreview).mapIdx
        (hardcodedEnvironmentVariableRow s.isPreview)

def environmentVariableRows : List Row :=
  if t.readyToLoad then t.environmentVariableSegments.flatMap t.segmentRows else []

/-! ## A page -/

def environmentVariableRowCount : Nat :=
  if t.readyToLoad then (t.environmentVariableSegments.map (·.count)).sum else 0

def environmentVariableLastPage : Nat := Pages.lastPage t.perPage t.environmentVariableRowCount

def currentEnvironmentVariablePage : Int := min t.page t.environmentVariableLastPage

/-- What the loop of a page pushes for a segment. -/
def segmentPageRows (s : Segment) (offset take : Nat) : List Row :=
  match s.kind with
  | .managed =>
      (t.fetchManagedEnvironmentVariables s.isPreview (some offset) (some take)).map
        managedEnvironmentVariableRow
  | .hardcoded =>
      (((t.hardcodedEnvironmentVariables s.isPreview).drop offset).take take).mapIdx
        fun index => hardcodedEnvironmentVariableRow s.isPreview (offset + index)

/-- The loop over the segments, with `$offset` and `$remaining`. -/
def pageLoop : List Segment → Nat → Nat → List Row
  | [], _, _ => []
  | s :: segments, offset, remaining =>
      if s.count = 0 then pageLoop segments offset remaining
      else if s.count ≤ offset then pageLoop segments (offset - s.count) remaining
      else
        let take := min remaining (s.count - offset)
        let rows := t.segmentPageRows s offset take
        if remaining - take = 0 then rows else rows ++ pageLoop segments 0 (remaining - take)

def environmentVariablePageRows : List Row :=
  if t.readyToLoad then
    t.pageLoop t.environmentVariableSegments
      (max 0 ((t.currentEnvironmentVariablePage - 1) * t.perPage)).toNat t.perPage
  else []

/-- `setEnvironmentVariablePage`. -/
def setEnvironmentVariablePage (page : Int) : EnvironmentTable :=
  { t with page := max 1 (min page t.environmentVariableLastPage) }

end EnvironmentTable

/-! ## Segments -/

namespace EnvironmentTable

open Pages

variable {t : EnvironmentTable}

theorem fetchManaged_window (isPreview : Bool) (offset take : Nat) :
    t.fetchManagedEnvironmentVariables isPreview (some offset) (some take) =
      window (t.fetchManagedEnvironmentVariables isPreview none none) offset take := by
  unfold fetchManagedEnvironmentVariables
  split
  · simp [window]
  · rfl

/-- A segment's part of a page is the window of its rows, with the same ids. -/
theorem segmentPageRows_eq (s : Segment) (offset take : Nat) :
    t.segmentPageRows s offset take = window (t.segmentRows s) offset take := by
  unfold segmentPageRows segmentRows
  split
  · rw [fetchManaged_window, map_window]
  · exact mapIdx_window (hardcodedEnvironmentVariableRow s.isPreview) _ offset take

/-- A segment that counts its rows. -/
def Counted (t : EnvironmentTable) (s : Segment) : Prop := s.count = (t.segmentRows s).length

theorem counted_of_mem_scopeSegments {isPreview : Bool} {s : Segment}
    (hs : s ∈ t.scopeSegments isPreview) : t.Counted s := by
  rw [scopeSegments, List.mem_cons] at hs
  rcases hs with rfl | hs
  · show t.countManagedEnvironmentVariables isPreview =
      ((t.fetchManagedEnvironmentVariables isPreview none none).map _).length
    rw [List.length_map]
    unfold countManagedEnvironmentVariables fetchManagedEnvironmentVariables
    split
    · rfl
    · rfl
  · split at hs
    · rw [List.mem_singleton] at hs
      subst hs
      exact List.length_mapIdx.symm
    · exact absurd hs (List.not_mem_nil)

theorem counted_of_mem {s : Segment} (hs : s ∈ t.environmentVariableSegments) : t.Counted s := by
  rw [environmentVariableSegments, List.mem_append] at hs
  rcases hs with hs | hs
  · split at hs
    · exact counted_of_mem_scopeSegments hs
    · exact absurd hs (List.not_mem_nil)
  · split at hs
    · exact counted_of_mem_scopeSegments hs
    · exact absurd hs (List.not_mem_nil)

/-! ## The loop of a page -/

/-- By induction on the segments: an empty one and one that the offset passes change
nothing of the window but where it begins, and the one it begins in leaves what remains to
a window at the beginning of the others. -/
theorem pageLoop_eq {segments : List Segment} (h : ∀ s ∈ segments, t.Counted s)
    (offset remaining : Nat) :
    t.pageLoop segments offset remaining =
      window (segments.flatMap t.segmentRows) offset remaining := by
  induction segments generalizing offset remaining with
  | nil => simp [pageLoop, window]
  | cons s segments ih =>
      have hs : s.count = (t.segmentRows s).length := h s List.mem_cons_self
      have ih := ih fun s' hs' => h s' (List.mem_cons_of_mem s hs')
      rw [pageLoop, List.flatMap_cons]
      split
      next hzero =>
        have hnil : t.segmentRows s = [] := List.eq_nil_of_length_eq_zero (hs.symm.trans hzero)
        rw [hnil, List.nil_append]
        exact ih offset remaining
      next =>
      split
      next hpast =>
        rw [ih, hs]
        exact (window_append_right _ _ (hs ▸ hpast)).symm
      next hwithin =>
        have hoffset : offset ≤ (t.segmentRows s).length := by omega
        rw [window_append_left _ _ hoffset]
        dsimp only
        rw [segmentPageRows_eq, hs, window_min]
        split
        next hend =>
          have hrest : remaining - ((t.segmentRows s).length - offset) = 0 := by omega
          rw [hrest, window_zero, List.append_nil]
        next =>
          rw [ih]
          congr 2
          omega

/-! ## The pages of the table -/

theorem rowCount_eq : t.environmentVariableRowCount = t.environmentVariableRows.length := by
  unfold environmentVariableRowCount environmentVariableRows
  split
  · rw [List.length_flatMap]
    exact congrArg List.sum (List.map_congr_left fun s hs => counted_of_mem hs)
  · rfl

/-- The table when a page of it is asked for. -/
def atPage (t : EnvironmentTable) (page : Nat) : EnvironmentTable := { t with page := page }

/-- What `setEnvironmentVariablePage` makes of a page that there is. -/
theorem setEnvironmentVariablePage_eq {page : Nat} (hpos : 1 ≤ page)
    (hlast : page ≤ t.environmentVariableLastPage) :
    t.setEnvironmentVariablePage page = t.atPage page := by
  unfold setEnvironmentVariablePage atPage
  congr 1
  omega

theorem offset_atPage {k : Nat} (h : k < t.environmentVariableLastPage) :
    (max 0 (((t.atPage (k + 1)).currentEnvironmentVariablePage - 1) *
      (t.atPage (k + 1)).perPage)).toNat = k * t.perPage := by
  have hcurrent : (t.atPage (k + 1)).currentEnvironmentVariablePage - 1 = k := by
    show min ((k + 1 : Nat) : Int) (t.environmentVariableLastPage : Int) - 1 = k
    omega
  rw [hcurrent]
  show (max 0 ((k : Int) * (t.perPage : Int))).toNat = k * t.perPage
  rw [← Nat.cast_mul]
  omega

/-- A page of the table is that page of its rows. -/
theorem pageRows_eq {k : Nat} (h : k < t.environmentVariableLastPage) :
    (t.atPage (k + 1)).environmentVariablePageRows =
      Pages.page t.perPage t.environmentVariableRows k := by
  unfold environmentVariablePageRows environmentVariableRows
  by_cases hready : t.readyToLoad = true
  · have hready' : (t.atPage (k + 1)).readyToLoad = true := hready
    rw [if_pos hready, if_pos hready', offset_atPage h]
    exact pageLoop_eq (fun s hs => counted_of_mem hs) _ _
  · have hready' : ¬ (t.atPage (k + 1)).readyToLoad = true := hready
    rw [if_neg hready, if_neg hready']
    simp [Pages.page, window]

/-- Whatever the segments hold, the pages one after the other are the rows of the table, and
every page but the last is full. -/
theorem pages_are_rows (t : EnvironmentTable) :
    ((List.range t.environmentVariableLastPage).flatMap fun k =>
        (t.atPage (k + 1)).environmentVariablePageRows) = t.environmentVariableRows ∧
      ∀ k, k + 1 < t.environmentVariableLastPage →
        (t.atPage (k + 1)).environmentVariablePageRows.length = t.perPage := by
  constructor
  · calc ((List.range t.environmentVariableLastPage).flatMap fun k =>
          (t.atPage (k + 1)).environmentVariablePageRows)
        = (List.range t.environmentVariableLastPage).flatMap
            (Pages.page t.perPage t.environmentVariableRows) :=
          List.flatMap_congr fun k hk => pageRows_eq (List.mem_range.1 hk)
      _ = t.environmentVariableRows := by
          rw [environmentVariableLastPage, rowCount_eq]
          exact flatMap_pages t.perPage_pos _
  · intro k hk
    rw [pageRows_eq (Nat.lt_of_succ_lt hk)]
    refine length_page ?_
    rw [← rowCount_eq]
    exact full_of_lt_lastPage t.perPage_pos hk

/-- A compose application with previews, none of whose preview variables are managed. -/
def composeTable : EnvironmentTable where
  readyToLoad := true
  showPreview := true
  isApplication := true
  isService := false
  buildPack := some "dockercompose"
  environmentFilter := .all
  variableFilters := [.managed]
  managedEnvironmentVariables := fun isPreview =>
    if isPreview then [] else [⟨7, "SERVICE_URL_WEB", false⟩, ⟨9, "SERVICE_FQDN_WEB", false⟩,
      ⟨4, "SERVICE_NAME_WEB", false⟩]
  composeVariables := [⟨"TZ", none⟩, ⟨"TZ", some "web"⟩]
  page := 1
  perPage := 2
  perPage_pos := Nat.two_pos

/-- The third page begins in the middle of a segment and ends behind an empty one. -/
example : (composeTable.atPage 3).environmentVariablePageRows.map (·.id) =
    ["hardcoded-production-TZ-web-1", "hardcoded-preview-TZ-default-0"] := by decide

theorem composeTable_pages :
    ((List.range 4).flatMap fun k => (composeTable.atPage (k + 1)).environmentVariablePageRows) =
        composeTable.environmentVariableRows ∧
      (composeTable.atPage 3).environmentVariablePageRows.length = 2 :=
  ⟨(pages_are_rows composeTable).1, (pages_are_rows composeTable).2 2 (by decide)⟩

end EnvironmentTable

end EnvironmentPages

end OnePloy
