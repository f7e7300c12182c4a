import OnePloy.ComposeVolumes

/-!
# Volumes of a compose file, parsed for deployment

`applicationParser` and `serviceParser` rewrite the volumes of a service one
after the other. A bind gets a source below the directory of the application or
service, and a named volume a name of its own, which is declared at the top
level. Short or long, a bind becomes a text.

What `parseDockerVolumeString` has found last stays in a variable that no turn
of the loop resets: a long bind is written with the mode of the short volume
before it, be that of an earlier service. A volume on a network share leaves the
loop before it is put into the result.
-/

namespace OnePloy

open Conc Php

/-- What the volumes belong to. -/
inductive ParsedResource
  | application
  | service (composeParsingVersion : Nat)

structure ParserSetup where
  resource : ParsedResource
  uuid : String
  /-- `Str::slug($source, '-')`. -/
  slug : String → String
  uuid_plain : ':' ∉ uuid.toList ∧ '$' ∉ uuid.toList
  /-- What is not a letter, a digit or the separator is left out. -/
  slug_plain : ∀ source, ':' ∉ (slug source).toList

def baseConfigurationDir : String := "/data/coolify"

def ParserSetup.folder (setup : ParserSetup) : String :=
  match setup.resource with
  | .application => "/applications/"
  | .service version => if 4 ≤ version then "/services/" else "/applications/"

def ParserSetup.mainDirectory (setup : ParserSetup) : String :=
  baseConfigurationDir ++ setup.folder ++ setup.uuid

/-! ## Sources -/

def sourceIsLocal (source : String) : Bool :=
  strStartsWith source "./" || strStartsWith source "/" || strStartsWith source "~" ||
    strStartsWith source ".." || strStartsWith source "~/" || strStartsWith source "../"

/-- Another start for what starts so. -/
def replaceStart (search replace source : String) : String :=
  if strStartsWith source search then
    replace ++ String.ofList (source.toList.drop search.toList.length)
  else source

/-- No slash at the end, unless it is the root. -/
def dropSlash (source : String) : String :=
  if strEndsWith source "/" && source != "/" then String.ofList source.toList.dropLast else source

def replaceLocalSource (source replacedWith : String) : String :=
  dropSlash (replaceStart ".." replacedWith
    (replaceStart "~" replacedWith (replaceStart "." replacedWith source)))

/-! ## Arrays -/

/-- `$array[$key] = $value`. -/
def putField (fields : List (String × Value)) (key : String) (value : Value) :
    List (String × Value) :=
  match fields with
  | [] => [(key, value)]
  | field :: fields =>
      if field.1 == key then (key, value) :: fields else field :: putField fields key value

def setField (volume : Value) (key : String) (value : Value) : Value :=
  match volume with
  | .map fields => .map (putField fields key value)
  | volume => volume

/-- What `data_forget` takes out of a volume. -/
def forgetContent : Value → Value
  | .map fields =>
      .map (fields.filter fun field =>
        !(["content", "is_directory", "isDirectory"].contains field.1))
  | volume => volume

/-- An array as it is dumped: the keys of a list count up from zero. -/
def arrayOf (fields : List (String × Value)) : Value :=
  if fields.map Prod.fst = (List.range fields.length).map toString then
    .list (fields.map Prod.snd)
  else .map fields

/-! ## One volume -/

/-- What the turns of the loop share. -/
structure VolumeScan where
  /-- `$parsed['mode']`. -/
  parsedMode : Option String
  /-- `$topLevel->get('volumes')`. -/
  topLevel : List (String × Value)
  volumesParsed : List (String × Value)

/-- `$type`, `$source`, `$target` and the mode that is at hand then. -/
structure FoundVolume where
  kind : String
  source : String
  target : Option String
  mode : Option String

/-- `data_get_str`. -/
def textOf (volume : Value) (key : String) : Except String String := (volume.dataGet [key]).toText

def nullValue : String := "Call to a member function value() on null"

def checkFilled (text : String) (check : Except String Unit) : Except String Unit :=
  if (Value.string text).truthy then check else .ok ()

def findLongVolume (parsedMode : Option String) (volume : Value) : Except String FoundVolume := do
  let kind ← textOf volume "type"
  let source ← textOf volume "source"
  let target ← textOf volume "target"
  let cs := source.toList
  checkFilled source (checkSource arraySyntax
    (isSimpleEnvVar cs || isEnvVarWithDefault cs || isEnvVarWithPath cs) source)
  checkFilled target (checkTarget arraySyntax target)
  return { kind := kind, source := source, target := some target, mode := parsedMode }

def findVolume (parsedMode : Option String) : Value → Except String FoundVolume
  | .string text => do
      let parsed ← parseDockerVolumeString text
      return {
        kind := if sourceIsLocal parsed.source then "bind" else "volume"
        source := parsed.source
        target := parsed.target
        mode := parsed.mode }
  | volume => if volume.isArray then findLongVolume parsedMode volume else throw nullValue

/-- `"$source:$target"`, and the mode if there is one. -/
def mountText (source target : String) (mode : Option String) : String :=
  mode.elim (source ++ ":" ++ target) fun mode => source ++ ":" ++ target ++ ":" ++ mode

/-- Sources that stay as they are. -/
def hostSources : List String := ["/var/run/docker.sock", "/tmp", "/tmp/"]

def bindVolume (setup : ParserSetup) (found : FoundVolume) : Except String Value :=
  if hostSources.contains found.source then
    match found.target with
    | some target => .ok (.string (mountText found.source target found.mode))
    | none => throw nullValue
  else
    .ok (.string (mountText (replaceLocalSource found.source setup.mainDirectory)
      (found.target.getD "") found.mode))

/-- `driver_opts.type`. -/
def driverType (volume : Value) : Option String :=
  (volume.dataGet ["driver_opts", "type"]).asString

/-- On a network share. -/
def isRemote (topLevel : List (String × Value)) (source : String) : Bool :=
  ((topLevel.lookup source).bind driverType).any fun type => type == "cifs" || type == "nfs"

def ParserSetup.volumeName (setup : ParserSetup) (source : String) : String :=
  setup.uuid ++ "_" ++ setup.slug source

/-- The row of a volume must have a mount path. -/
def namedVolume (name : String) (found : FoundVolume) (volume : Value) : Except String Value :=
  match found.target with
  | none => throw "null value in column \"mount_path\" violates not-null constraint"
  | some target =>
      match volume with
      | .string _ => .ok (.string (mountText name target found.mode))
      | volume => .ok (setField volume "source" (.string name))

def parseVolume (setup : ParserSetup) (scan : VolumeScan) (entry : String × Value) :
    Except String VolumeScan := do
  let (index, volume) := entry
  let found ← findVolume scan.parsedMode volume
  let scan := { scan with parsedMode := found.mode }
  if found.kind = "bind" then
    let bind ← bindVolume setup found
    return { scan with volumesParsed := scan.volumesParsed ++ [(index, bind)] }
  else if found.kind = "volume" then
    if isRemote scan.topLevel found.source then return scan
    else
      let name := setup.volumeName found.source
      let named ← namedVolume name found volume
      return { scan with
        topLevel := putField scan.topLevel name (.map [("name", .string name)])
        volumesParsed := scan.volumesParsed ++ [(index, named)] }
  else return { scan with volumesParsed := scan.volumesParsed ++ [(index, volume)] }

/-! ## The services -/

/-- `$payload['volumes']`. -/
def payloadVolumes (volumes : Value) (volumesParsed : List (String × Value)) : Value :=
  if volumesParsed.isEmpty then
    match volumes with
    | .list items => .list (items.map forgetContent)
    | .map fields => .map (fields.map fun field => (field.1, forgetContent field.2))
    | volumes => volumes
  else arrayOf (volumesParsed.map fun entry => (entry.1, forgetContent entry.2))

/-- The state after a service, and its volumes. -/
def parseServiceVolumes (setup : ParserSetup) (scan : VolumeScan) (volumes : Value) :
    Except String (VolumeScan × Value) := do
  let scan ← (entries volumes).foldlM (parseVolume setup) { scan with volumesParsed := [] }
  return (scan, payloadVolumes volumes scan.volumesParsed)

def parseServices (setup : ParserSetup) :
    VolumeScan → List Value → Except String (List Value)
  | _, [] => .ok []
  | scan, volumes :: services => do
      let (scan, payload) ← parseServiceVolumes setup scan volumes
      let payloads ← parseServices setup scan services
      return payload :: payloads

/-- Predefined volumes that are not null. -/
def predefinedVolumes (compose : Value) : List (String × Value) :=
  (((compose.child "volumes").map entries).getD []).filter fun
    | (_, .null) => false
    | _ => true

/-- The volumes of each service, in the order of the services. -/
def volumesOfServices (compose : Value) : List Value :=
  (((compose.child "services").map entries).getD []).map fun service =>
    (service.2.child "volumes").getD (.list [])

/-- The volumes in the compose file that is deployed, service by service. -/
def composeParser (setup : ParserSetup) (compose : Value) : Except String (List Value) :=
  parseServices setup
    { parsedMode := none, topLevel := predefinedVolumes compose, volumesParsed := [] }
    (volumesOfServices compose)

end OnePloy
