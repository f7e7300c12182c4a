import OnePloy.FilePaths
import OnePloy.Lib.OrderedMap

/-!
# The developer view of environment variables

`formatEnvironmentVariables` writes the variables of a resource as a text of
assignments, and `handleBulkSubmit` reads such a text with `parseEnvFormatToArray`,
deletes the variables it does not assign, and updates or creates the others.
-/

namespace OnePloy

open Php

/-! ## Keys -/

def isKeyStart (c : Char) : Bool := c.isAlpha || c == '_'

def isKeyChar (c : Char) : Bool := c.isAlphanum || c == '_' || c == '.'

/-- `ENVIRONMENT_VARIABLE_KEY_PATTERN`. -/
def isValidEnvironmentVariableKey (value : String) : Bool :=
  match value.toList with
  | [] => false
  | c :: cs => isKeyStart c && cs.all isKeyChar

abbrev EnvironmentKey : Type := {key : String // isValidEnvironmentVariableKey key = true}

/-- `str($key)->startsWith('SERVICE_FQDN')` and the same for its siblings. -/
def isServiceKey (key : String) : Bool :=
  strStartsWith key "SERVICE_FQDN" || strStartsWith key "SERVICE_URL" ||
    strStartsWith key "SERVICE_NAME"

/-! ## parseEnvFormatToArray -/

structure EnvData where
  value : String
  comment : Option String
deriving DecidableEq

/-- What stands before the first match of `/\s+#/`, and what stands from there on. -/
def cutAtComment : List Char → Option (List Char × List Char)
  | [] => none
  | c :: cs =>
      if isPatternSpace c && (cs.dropWhile isPatternSpace).head? == some '#' then some ([], c :: cs)
      else (cutAtComment cs).map fun p => (c :: p.1, p.2)

def rtrim (cs : List Char) : List Char := (cs.reverse.dropWhile isTrimmed).reverse

/-- `$value` and `$remainder`, of what follows a quote. -/
def cutAtQuote (quote : Char) (cs : List Char) : List Char × List Char :=
  if quote ∈ cs then (cs.takeWhile (· ≠ quote), (cs.dropWhile (· ≠ quote)).tail) else (cs, [])

/-- `$value` and `$remainder`. -/
def valueAndRemainder : List Char → List Char × List Char
  | '"' :: cs => cutAtQuote '"' cs
  | '\'' :: cs => cutAtQuote '\'' cs
  | cs =>
      match cutAtComment cs with
      | some (before, remainder) => (rtrim before, remainder)
      | none => (cs, [])

def commentOf (remainder : List Char) : Option String :=
  if '#' ∈ remainder then
    let comment := trim (String.ofList (remainder.dropWhile (· ≠ '#')).tail)
    if comment = "" then none else some comment
  else none

def envDataOf (valueAndComment : List Char) : EnvData :=
  let parts := valueAndRemainder valueAndComment
  ⟨String.ofList parts.1, commentOf parts.2⟩

/-- The key and the data of a line that is neither empty nor a comment. -/
def assignment? (line : List Char) : Option (String × EnvData) :=
  if line = [] ∨ line.head? = some '#' then none
  else if '=' ∈ line then
    some (String.ofList (line.takeWhile (· ≠ '=')), envDataOf (line.dropWhile (· ≠ '=')).tail)
  else none

def parseEnvFormatToArray (contents : String) : OrderedMap String EnvData :=
  (pieces '\n' contents.toList).foldl
    (fun env line =>
      match assignment? line with
      | some (key, data) => env.set key data
      | none => env)
    OrderedMap.empty

/-! ## Variables -/

/-- The key has passed its setter, and the value is what its accessor reads of what its
setter has trimmed. -/
structure EnvironmentVariable where
  key : EnvironmentKey
  value : Option String
  comment : Option String
  isShownOnce : Bool
  isMultiline : Bool
  trimmed : ∀ s, value = some s → trim s = s

/-- The variables of a resource; a key is created only where no variable has it. -/
structure EnvironmentSet where
  rows : List EnvironmentVariable
  nodup : (rows.map (·.key)).Nodup

namespace EnvironmentSet

def find? (set : EnvironmentSet) (key : EnvironmentKey) : Option EnvironmentVariable :=
  set.rows.find? fun row => row.key = key

/-- What is saved is the row with its key. -/
def save (set : EnvironmentSet) (row : EnvironmentVariable) : EnvironmentSet where
  rows := set.rows.map fun r => if r.key = row.key then row else r
  nodup := by
    have hkeys : (set.rows.map fun r => if r.key = row.key then row else r).map (·.key) =
        set.rows.map (·.key) := by
      rw [List.map_map]
      refine List.map_congr_left fun r _ => ?_
      rw [Function.comp_apply]
      split
      · next h => exact h.symm
      · rfl
    rw [hkeys]
    exact set.nodup

def create (set : EnvironmentSet) (row : EnvironmentVariable) (h : set.find? row.key = none) :
    EnvironmentSet where
  rows := set.rows ++ [row]
  nodup := by
    rw [List.map_append, List.nodup_append]
    refine ⟨set.nodup, List.nodup_singleton _, fun key hkey key' hkey' => ?_⟩
    obtain ⟨r, hr, rfl⟩ := List.mem_map.mp hkey
    rw [List.map_singleton, List.mem_singleton] at hkey'
    rw [hkey']
    simpa using List.find?_eq_none.mp h r hr

/-- `whereNotIn('key', $keys)->delete()`. -/
def deleteExcept (set : EnvironmentSet) (keys : List String) : EnvironmentSet where
  rows := set.rows.filter fun row => decide (row.key.val ∈ keys)
  nodup := set.nodup.sublist (List.filter_sublist.map _)

end EnvironmentSet

/-- The two sets of an application; other resources have the first one only. -/
structure EnvironmentState where
  production : EnvironmentSet
  preview : EnvironmentSet

def EnvironmentState.rows (state : EnvironmentState) (isPreview : Bool) : EnvironmentSet :=
  if isPreview then state.preview else state.production

def EnvironmentState.setRows (state : EnvironmentState) (isPreview : Bool) (set : EnvironmentSet) :
    EnvironmentState :=
  if isPreview then { state with preview := set } else { state with production := set }

/-! ## The component -/

inductive Dispatch
  | success (message : String)
  | error (message : String)

structure EnvironmentPage where
  showPreview : Bool
  isApplication : Bool
  /-- `$resource->type() === 'service' || $resource->build_pack === 'dockercompose'`. -/
  guardsCompose : Bool
  /-- `isEnvironmentVariableUsedInDockerCompose`. -/
  usedInCompose : String → Bool

/-- A line of the text; members of the team see no values. -/
def devLine (isMember : Bool) (item : EnvironmentVariable) : String :=
  if isMember then item.key.val ++ "=(Hidden, only admins can view)"
  else if item.isShownOnce then
    item.key.val ++ "=(Locked Secret, delete and add again to change)"
  else if item.isMultiline then
    item.key.val ++ "=(Multiline environment variable, edit in normal view)"
  else item.key.val ++ "=" ++ item.value.getD ""

def formatEnvironmentVariables (isMember : Bool) (items : List EnvironmentVariable) : String :=
  implode '\n' (items.map (devLine isMember))

section

/- The characters that the framework's `Str::trim` takes off. -/
variable (strTrimmed : Char → Bool) (page : EnvironmentPage)

def validatedEnvironmentVariableKey (value : String) : Except String EnvironmentKey :=
  let key := strTrim strTrimmed value
  if h : isValidEnvironmentVariableKey key = true then .ok ⟨key, h⟩
  else
    .error ("The key must start with a letter or underscore and may only contain letters, " ++
      "numbers, underscores, and dots.")

def normalizeTurn (normalized : List (EnvironmentKey × EnvData)) (entry : String × EnvData) :
    Except String (List (EnvironmentKey × EnvData)) := do
  let key ← validatedEnvironmentVariableKey strTrimmed entry.1
  if key ∈ normalized.map Prod.fst then
    throw ("Duplicate environment variable key after normalization: " ++ key.val ++ ".")
  return normalized ++ [(key, entry.2)]

def normalizeEnvironmentVariables (parsed : OrderedMap String EnvData) :
    Except String (List (EnvironmentKey × EnvData)) :=
  parsed.entries.foldlM (normalizeTurn strTrimmed) []

/-- The number of deleted variables, what is left of the set, and what is dispatched. -/
def deleteRemovedVariables (set : EnvironmentSet) (entries : List (EnvironmentKey × EnvData)) :
    Nat × EnvironmentSet × List Dispatch :=
  let keys := entries.map (·.1.val)
  let toDelete := set.rows.filter fun row => decide (row.key.val ∉ keys)
  if toDelete.isEmpty then (0, set, [])
  else
    match toDelete.find? fun row => page.guardsCompose && page.usedInCompose row.key.val with
    | some row =>
        (0, set, [.error ("Cannot delete environment variable '" ++ row.key.val ++
          "' <br><br>Please remove it from the Docker Compose file first.")])
    | none => (toDelete.length, set.deleteExcept keys, [])

/-- The row after the two comparisons; the setter of the value trims. -/
def updatedRow (found : EnvironmentVariable) (data : EnvData) : EnvironmentVariable :=
  let found :=
    if found.value ≠ some data.value then
      { found with
        value := some (trim data.value)
        trimmed := by rintro s ⟨⟩; exact trim_trim _ }
    else found
  if data.comment ≠ none ∧ found.comment ≠ data.comment then
    { found with comment := data.comment }
  else found

def rowChanges (found : EnvironmentVariable) (data : EnvData) : Bool :=
  found.value ≠ some data.value || (data.comment ≠ none && found.comment ≠ data.comment)

def newRow (key : EnvironmentKey) (data : EnvData) : EnvironmentVariable where
  key := key
  value := some (trim data.value)
  comment := data.comment
  isShownOnce := false
  isMultiline := false
  trimmed := by rintro s ⟨⟩; exact trim_trim _

/-- The `created` hook of the model copies a new variable of an application to its
previews. -/
def createVariable (state : EnvironmentState) (isPreview : Bool) (row : EnvironmentVariable)
    (h : (state.rows isPreview).find? row.key = none) : EnvironmentState :=
  let created := state.setRows isPreview ((state.rows isPreview).create row h)
  if page.isApplication && !isPreview then
    if hp : state.preview.find? row.key = none then
      { created with preview := state.preview.create row hp }
    else created
  else created

/-- A turn of the loop over the assignments, with the number of changes. -/
def updateOrCreateTurn (isPreview : Bool) (acc : EnvironmentState × Nat)
    (entry : EnvironmentKey × EnvData) : EnvironmentState × Nat :=
  if isServiceKey entry.1.val then acc
  else
    match h : (acc.1.rows isPreview).find? entry.1 with
    | some found =>
        if !found.isShownOnce && !found.isMultiline then
          if rowChanges found entry.2 then
            (acc.1.setRows isPreview ((acc.1.rows isPreview).save (updatedRow found entry.2)),
              acc.2 + 1)
          else acc
        else acc
    | none => (createVariable page acc.1 isPreview (newRow entry.1 entry.2) h, acc.2 + 1)

def updateOrCreateVariables (isPreview : Bool) (entries : List (EnvironmentKey × EnvData))
    (state : EnvironmentState) : EnvironmentState × Nat :=
  entries.foldl (updateOrCreateTurn page isPreview) (state, 0)

/-- What the submission of a text does to one of the sets: whether it changes
something, and whether it was kept from deleting something. -/
structure BulkResult where
  state : EnvironmentState
  changesMade : Bool
  errorOccurred : Bool
  dispatched : List Dispatch

def submitVariables (isPreview : Bool) (entries : List (EnvironmentKey × EnvData))
    (state : EnvironmentState) : BulkResult :=
  let deleted := deleteRemovedVariables page (state.rows isPreview) entries
  let kept := decide (deleted.1 = 0) &&
    deleted.2.1.rows.any fun row => decide (row.key.val ∉ entries.map (·.1.val))
  let updated := updateOrCreateVariables page isPreview entries
    (state.setRows isPreview deleted.2.1)
  ⟨updated.1, decide (0 < deleted.1) || decide (0 < updated.2), kept, deleted.2.2⟩

/-- The state that is left, what is dispatched, and the message of an exception. -/
def handleBulkSubmit (text textPreview : String) (state : EnvironmentState) :
    EnvironmentState × List Dispatch × Option String :=
  match normalizeEnvironmentVariables strTrimmed (parseEnvFormatToArray text) with
  | .error message => (state, [], some message)
  | .ok normalized =>
      let result := submitVariables page false normalized state
      if page.showPreview then
        match normalizeEnvironmentVariables strTrimmed (parseEnvFormatToArray textPreview) with
        | .error message => (result.state, result.dispatched, some message)
        | .ok normalizedPreview =>
            let preview := submitVariables page true normalizedPreview result.state
            let success := (result.changesMade || preview.changesMade) &&
              !(result.errorOccurred || preview.errorOccurred)
            (preview.state, result.dispatched ++ preview.dispatched ++
              if success then [.success "Environment variables updated."] else [], none)
      else
        (result.state, result.dispatched ++
          if result.changesMade && !result.errorOccurred then
            [.success "Environment variables updated."] else [], none)

end

end OnePloy
