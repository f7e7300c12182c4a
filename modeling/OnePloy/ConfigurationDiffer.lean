import OnePloy.ConfigurationSnapshot

/-!
# Differences between snapshots

`ConfigurationDiffer` compares two snapshots item by item and says of each item
that changed what to show of it: nothing of a sensitive one, the lines that differ
where the item is shown by lines, and the two texts otherwise.
-/

namespace OnePloy

open Php

inductive ChangeType
  | added
  | removed
  | changed
  deriving DecidableEq, Repr

structure ConfigChange where
  key : String
  sectionKey : String
  sectionLabel : String
  label : String
  type : ChangeType
  impact : Impact
  isSensitive : Bool
  displaySummary : Option String
  oldDisplayValue : String
  newDisplayValue : String
  oldFullValue : Option String
  newFullValue : Option String
  expandable : Bool
  deriving DecidableEq

/-- An item with the section that it is in. -/
structure FlatItem where
  item : ConfigItem
  sectionKey : String
  sectionLabel : String
  deriving DecidableEq

namespace ConfigurationDiffer

def mask : String := "••••••••"

def ignoredKeys : List String := ["build.docker_compose"]

def dynamicSections : List String := ["environment", "storage"]

/-! ## Lines -/

/-- `preg_split('/\r\n|\r|\n/', _)`. -/
def splitLines : List Char → List (List Char)
  | [] => [[]]
  | '\r' :: '\n' :: cs => [] :: splitLines cs
  | c :: cs =>
      if c = '\r' ∨ c = '\n' then [] :: splitLines cs
      else
        match splitLines cs with
        | [] => [[c]]
        | line :: lines => (c :: line) :: lines

def rtrimText (cs : List Char) : String := String.ofList (rtrim cs)

def textLines (value : Option String) : List String :=
  if blank value then []
  else
    ((splitLines (value.getD "").toList).map rtrimText).filter fun line => trim line ≠ ""

def joinLines (lines : List String) : String :=
  if lines = [] then "-" else "\n".intercalate lines

/-- The lines of each text that the other does not have. -/
def changedLines (old new : Option String) : String × String :=
  let oldLines := textLines old
  let newLines := textLines new
  (joinLines (oldLines.filter fun line => line ∉ newLines),
    joinLines (newLines.filter fun line => line ∉ oldLines))

/-! ## diff -/

def flatItem (s : ConfigSection) (item : ConfigItem) : FlatItem :=
  ⟨item, s.key, s.label⟩

def flattenItems (sections : List ConfigSection) : OrderedMap String FlatItem :=
  sections.foldl (fun m s =>
    s.byKey.entries.foldl (fun m e => m.set (s.key ++ "." ++ e.1) (flatItem s e.2)) m) .empty

/-- The texts to show of a change: those of the list, and those of its expansion. -/
structure ShownTexts where
  oldDisplay : String
  newDisplay : String
  oldFull : Option String
  newFull : Option String
  deriving DecidableEq

def maskedTexts (previous current : Option FlatItem) : ShownTexts where
  oldDisplay := if previous.isNone then "-" else mask
  newDisplay := if current.isNone then "-" else mask
  oldFull := none
  newFull := none

def displayOr (item : Option FlatItem) : String := (item.map (·.item.displayValue)).getD "-"

def fullOf (item : Option FlatItem) : Option String := item.bind (·.item.displayFull)

/-- Where no line differs, the summaries are shown. -/
def lineTexts (previous current : Option FlatItem) : ShownTexts :=
  let lines := changedLines (fullOf previous) (fullOf current)
  let shown :=
    if lines.1 = "-" ∧ lines.2 = "-" then (displayOr previous, displayOr current) else lines
  ⟨shown.1, shown.2, expandableText (some shown.1), expandableText (some shown.2)⟩

def plainTexts (previous current : Option FlatItem) : ShownTexts :=
  ⟨displayOr previous, displayOr current, fullOf previous, fullOf current⟩

def changeType (previous current : Option FlatItem) : ChangeType :=
  if previous.isNone then .added else if current.isNone then .removed else .changed

def shownTexts (item : FlatItem) (previous current : Option FlatItem) : ShownTexts :=
  if item.item.isSensitive then maskedTexts previous current
  else if item.item.diffMode = .lines ∧ changeType previous current = .changed then
    lineTexts previous current
  else plainTexts previous current

/-- The change of an item. -/
def changeOf (key : String) (item : FlatItem) (previous current : Option FlatItem) :
    ConfigChange :=
  let type := changeType previous current
  let sensitive := item.item.isSensitive
  let shown := shownTexts item previous current
  { key := key
    sectionKey := item.sectionKey
    sectionLabel := item.sectionLabel
    label := item.item.label
    type := type
    impact := item.item.impact
    isSensitive := sensitive
    displaySummary := if sensitive ∧ type = .changed then some "Changed" else none
    oldDisplayValue := shown.oldDisplay
    newDisplayValue := shown.newDisplay
    oldFullValue := shown.oldFull
    newFullValue := shown.newFull
    expandable := !sensitive && (filled shown.oldFull || filled shown.newFull) }

def compareValueOf (item : Option FlatItem) : Value := (item.map (·.item.compareValue)).getD .null

/-- A turn of the loop over the keys. -/
def reportItem (key : String) (previous current : Option FlatItem) : Option ConfigChange :=
  if key ∈ ignoredKeys then none
  else if previous.isNone ∧ ¬ current.any (fun item => item.sectionKey ∈ dynamicSections) then none
  else if compareValueOf previous = compareValueOf current then none
  else (current.or previous).map fun item => changeOf key item previous current

def diff (previousSnapshot currentSnapshot : List ConfigSection) : List ConfigChange :=
  (flattenItems previousSnapshot).compare reportItem (flattenItems currentSnapshot)

end ConfigurationDiffer

end OnePloy
