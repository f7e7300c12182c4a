import OnePloy.ComposeDomains
import OnePloy.EnvironmentVariables
import OnePloy.Lib.KeyedDiff
import OnePloy.Lib.Json
import OnePloy.Lib.PhpNumber
import Mathlib.Data.String.Basic

/-!
# Snapshots of a configuration

A snapshot keeps of every setting a value to compare and texts to show. Of an
environment variable it compares a keyed hash of its value and its scopes, locked
or not; of a locked one, and of the password for basic authentication, it has no
text to show in full.
-/

namespace OnePloy

open Php

/-- Hashes, and what the framework does to texts and arrays. -/
structure SnapshotSetup where
  /-- `base64_decode`, strictly. -/
  base64Decode : String → Option String
  /-- `hash('sha256', _)`. -/
  sha256 : String → String
  /-- `hash_hmac('sha256', _, _)`, with the key of the platform. -/
  hmac : String → String
  /-- `Arr::sortRecursive`. -/
  sortRecursive : Value → Value
  /-- `str($value)->limit($limit)`. -/
  limit : String → Nat → String

inductive DiffMode
  | default
  | lines
  deriving DecidableEq, Repr

inductive Impact
  | build
  | redeploy
  deriving DecidableEq, Repr

def Impact.text : Impact → String
  | build => "build"
  | redeploy => "redeploy"

structure ConfigItem where
  key : String
  label : String
  impact : Impact
  isSensitive : Bool
  diffMode : DiffMode
  compareValue : Value
  displayValue : String
  displayFull : Option String
  deriving DecidableEq

structure ConfigSection where
  key : String
  label : String
  items : List ConfigItem

/-! ## Texts -/

/-- `SINGLE_LINE_LIMIT`. -/
def singleLineLimit : Nat := 40

def expandableText : Option String → Option String
  | none => none
  | some s =>
      let value := trim s
      if value = "" then none
      else if '\n' ∈ value.toList ∨ singleLineLimit < value.length then some value
      else none

/-- `(string)`, and null for null. -/
def asNullableString : Value → Option String
  | .null => none
  | v => v.toText.toOption

def enabledOr (enabled : Bool) : String := if enabled then "enabled" else "disabled"

namespace SnapshotSetup

variable (setup : SnapshotSetup)

def summarizeText : Option String → String
  | none => "-"
  | some s =>
      let value := trim s
      if value = "" then "-"
      else
        let lines := value.toList.count '\n' + 1
        if 1 < lines then setup.limit value 80 ++ " (" ++ toString lines ++ " lines)"
        else setup.limit value singleLineLimit

def sensitiveHash (value : Value) : String := setup.hmac (jsonEncode value)

def normalizeValue (value : Value) : Value :=
  if value = .string "" then .null
  else if value.isArray then setup.sortRecursive value
  else value

def displayValue : Value → String
  | .null => "-"
  | .bool b => if b then "Enabled" else "Disabled"
  | .list items => setup.summarizeText (some (jsonEncode (.list items)))
  | .map fields => setup.summarizeText (some (jsonEncode (.map fields)))
  | v => setup.summarizeText (asNullableString v)

def stringifyValue : Value → Option String
  | .null | .bool _ => none
  | .list items => some (jsonEncode (.list items))
  | .map fields => some (jsonEncode (.map fields))
  | v => asNullableString v

/-- `item`, where no text is given for a value. -/
def itemWith (key label : String) (value : Value) (impact : Impact) (isSensitive : Bool)
    (displayValue? displayFull? : Option String) (diffMode : DiffMode) : ConfigItem :=
  let normalizedValue := setup.normalizeValue value
  { key := key
    label := label
    impact := impact
    isSensitive := isSensitive
    diffMode := diffMode
    compareValue :=
      if isSensitive then .string (setup.sensitiveHash normalizedValue) else normalizedValue
    displayValue := displayValue?.getD (setup.displayValue normalizedValue)
    displayFull :=
      if isSensitive then none
      else expandableText (displayFull?.or (stringifyValue normalizedValue)) }

/-- `item` with its defaults. -/
def item (key label : String) (value : Value) (impact : Impact) : ConfigItem :=
  setup.itemWith key label value impact false none none .default

/-- `item` of a text that is shown in full. -/
def textItem (key label : String) (value : Value) (impact : Impact) (text : Option String)
    (diffMode : DiffMode) : ConfigItem :=
  setup.itemWith key label value impact false (some (setup.summarizeText text)) text diffMode

end SnapshotSetup

/-! ## The state of an application -/

/-- A row of `environment_variables`; `value` is what its accessor reads. -/
structure VariableRow where
  key : EnvironmentKey
  value : Option String
  isShownOnce : Bool
  isMultiline : Bool
  isLiteral : Bool
  isBuildtime : Bool
  isRuntime : Bool
  deriving DecidableEq

/-- A row of `local_persistent_volumes`. -/
structure VolumeMount where
  id : Nat
  name : String
  mountPath : String
  hostPath : Option String
  deriving DecidableEq

/-- A row of `local_file_volumes`. -/
structure FileMount where
  id : Nat
  fsPath : String
  mountPath : Option String
  isDirectory : Bool
  deriving DecidableEq

/-- An application with its settings and the rows that belong to it. No column
holds a fraction. Two hold arrays: `noindexDomains` are the domains of
`noindex_domains`, and `composeDomains` is what `docker_compose_domains` decodes to,
if it is not blank. -/
structure ApplicationConfig where
  column : String → Value
  setting : String → Value
  noindexDomains : List String
  composeDomains : Option Value
  environmentVariables : List VariableRow
  persistentStorages : List VolumeMount
  fileStorages : List FileMount
  column_scalar : ∀ name, (column name).isScalar = true
  setting_scalar : ∀ name, (setting name).isScalar = true
  domains_canonical : ∀ v, composeDomains = some v → v.Canonical
  variables_nodup : (environmentVariables.map (·.key)).Nodup
  volumes_nodup : (persistentStorages.map (·.id)).Nodup
  files_nodup : (fileStorages.map (·.id)).Nodup

namespace ApplicationConfig

def text (app : ApplicationConfig) (name : String) : Option String :=
  asNullableString (app.column name)

end ApplicationConfig

def defaultStopGracePeriodSeconds : Int := 30

namespace SnapshotSetup

variable (setup : SnapshotSetup)

/-! ## Items -/

def decodedComposeDomains (app : ApplicationConfig) : Option Value :=
  app.composeDomains.filter Value.isArray

/-- `$service.': '.…`, of one service. -/
def composeDomainLine (service : String) (value : Value) : String :=
  let domain := value.dataGet ["domain"]
  service ++ ": " ++ if isFilledValue domain then (asNullableString domain).getD "Array" else "-"

def composeDomainsText (app : ApplicationConfig) : Option String :=
  let lines := fun (entries : List (String × Value)) =>
    some ("\n".intercalate
      ((entries.map fun e => composeDomainLine e.1 e.2).insertionSort (· ≤ ·)))
  match decodedComposeDomains app with
  | some (.map fields) => if fields = [] then none else lines fields
  | some (.list items) =>
      if items = [] then none else lines (items.zipIdx.map fun p => (toString p.2, p.1))
  | _ => none

def decodeCustomLabels (value : Option String) : Option String :=
  if blank value then none else value.map fun s => (setup.base64Decode s).getD s

/-- `(int)`, of a column. -/
def integerOf : Value → Int
  | .int n => n
  | .bool b => if b then 1 else 0
  | .string s => intCast s
  | _ => 0

def normalizedStopGracePeriod (app : ApplicationConfig) : Value :=
  let stopGracePeriod := app.setting "stop_grace_period"
  if stopGracePeriod = .null ∨ integerOf stopGracePeriod = defaultStopGracePeriodSeconds then .null
  else .int (integerOf stopGracePeriod)

section Items

variable (app : ApplicationConfig)

def columnItem (key label : String) (impact : Impact) : ConfigItem :=
  setup.item key label (app.column key) impact

def settingItem (key label : String) (impact : Impact) : ConfigItem :=
  setup.item key label (app.setting key) impact

def sourceItems : List ConfigItem :=
  [setup.columnItem app "git_repository" "Repository" .build,
    setup.columnItem app "git_branch" "Branch" .build,
    setup.columnItem app "git_commit_sha" "Commit SHA" .build,
    setup.columnItem app "source_id" "Source ID" .build,
    setup.columnItem app "source_type" "Source type" .build,
    setup.columnItem app "private_key_id" "Private key" .build]

def buildItems : List ConfigItem :=
  [setup.columnItem app "build_pack" "Build pack" .build,
    setup.settingItem app "is_static" "Static site" .build,
    setup.settingItem app "is_spa" "Single-page application" .build,
    setup.columnItem app "static_image" "Static image" .build,
    setup.columnItem app "base_directory" "Base directory" .build,
    setup.columnItem app "publish_directory" "Publish directory" .build,
    setup.columnItem app "install_command" "Install command" .build,
    setup.columnItem app "build_command" "Build command" .build,
    setup.textItem "dockerfile" "Dockerfile" (app.column "dockerfile") .build
      (app.text "dockerfile") .default,
    setup.columnItem app "dockerfile_location" "Dockerfile location" .build,
    setup.columnItem app "dockerfile_target_build" "Dockerfile target" .build,
    setup.columnItem app "docker_compose_location" "Docker Compose location" .build,
    setup.textItem "docker_compose_raw" "Docker Compose" (app.column "docker_compose_raw") .build
      (app.text "docker_compose_raw") .lines,
    setup.columnItem app "docker_compose_custom_build_command" "Docker Compose custom build command"
      .build,
    setup.settingItem app "is_git_submodules_enabled" "Git submodules" .build,
    setup.settingItem app "is_git_lfs_enabled" "Git LFS" .build,
    setup.settingItem app "is_git_shallow_clone_enabled" "Shallow clone" .build,
    setup.settingItem app "is_env_sorting_enabled" "Sort environment variables" .build,
    setup.columnItem app "custom_docker_run_options" "Custom Docker run options" .redeploy,
    setup.settingItem app "use_build_secrets" "Use build secrets" .build,
    setup.settingItem app "inject_build_args_to_dockerfile" "Inject build args to Dockerfile"
      .build,
    setup.settingItem app "include_source_commit_in_build" "Include source commit in build" .build,
    setup.settingItem app "disable_build_cache" "Disable build cache" .build,
    setup.settingItem app "is_build_server_enabled" "Build server" .build]

def healthCheckItems : List ConfigItem :=
  [setup.columnItem app "health_check_enabled" "Health check enabled" .redeploy,
    setup.columnItem app "health_check_path" "Health check path" .redeploy,
    setup.columnItem app "health_check_port" "Health check port" .redeploy,
    setup.columnItem app "health_check_host" "Health check host" .redeploy,
    setup.columnItem app "health_check_method" "Health check method" .redeploy,
    setup.columnItem app "health_check_return_code" "Health check return code" .redeploy,
    setup.columnItem app "health_check_scheme" "Health check scheme" .redeploy,
    setup.columnItem app "health_check_response_text" "Health check response text" .redeploy,
    setup.columnItem app "health_check_interval" "Health check interval" .redeploy,
    setup.columnItem app "health_check_timeout" "Health check timeout" .redeploy,
    setup.columnItem app "health_check_retries" "Health check retries" .redeploy,
    setup.columnItem app "health_check_start_period" "Health check start period" .redeploy,
    setup.columnItem app "health_check_type" "Health check type" .redeploy,
    setup.columnItem app "health_check_command" "Health check command" .redeploy]

def limitItems : List ConfigItem :=
  [setup.columnItem app "limits_memory" "Memory limit" .redeploy,
    setup.columnItem app "limits_memory_swap" "Memory swap limit" .redeploy,
    setup.columnItem app "limits_memory_swappiness" "Memory swappiness" .redeploy,
    setup.columnItem app "limits_memory_reservation" "Memory reservation" .redeploy,
    setup.columnItem app "limits_cpus" "CPU limit" .redeploy,
    setup.columnItem app "limits_cpuset" "CPU set" .redeploy,
    setup.columnItem app "limits_cpu_shares" "CPU shares" .redeploy,
    setup.columnItem app "swarm_replicas" "Swarm replicas" .redeploy,
    setup.columnItem app "swarm_placement_constraints" "Swarm placement constraints" .redeploy]

def runtimeItems : List ConfigItem :=
  [setup.columnItem app "docker_registry_image_name" "Docker image" .redeploy,
    setup.columnItem app "docker_registry_image_tag" "Docker image tag or hash" .redeploy,
    setup.columnItem app "start_command" "Start command" .redeploy,
    setup.columnItem app "pre_deployment_command" "Pre-deployment command" .redeploy,
    setup.columnItem app "pre_deployment_command_container" "Pre-deployment command container"
      .redeploy,
    setup.columnItem app "post_deployment_command" "Post-deployment command" .redeploy,
    setup.columnItem app "post_deployment_command_container" "Post-deployment command container"
      .redeploy,
    setup.columnItem app "docker_compose_custom_start_command" "Docker Compose custom start command"
      .redeploy,
    setup.columnItem app "ports_exposes" "Exposed ports" .redeploy,
    setup.columnItem app "ports_mappings" "Port mappings" .redeploy,
    setup.columnItem app "custom_network_aliases" "Network aliases" .redeploy,
    setup.settingItem app "connect_to_docker_network" "Connect to Docker network" .redeploy,
    setup.settingItem app "custom_internal_name" "Custom container name" .redeploy,
    setup.settingItem app "is_consistent_container_name_enabled" "Consistent container name"
      .redeploy,
    setup.settingItem app "is_container_label_escape_enabled" "Escape container labels" .redeploy,
    setup.settingItem app "is_container_label_readonly_enabled" "Read-only container labels"
      .redeploy,
    setup.settingItem app "is_log_drain_enabled" "Log drain" .redeploy,
    setup.settingItem app "is_swarm_only_worker_nodes" "Swarm worker nodes only" .redeploy,
    setup.item "stop_grace_period" "Stop grace period" (normalizedStopGracePeriod app) .redeploy,
    setup.settingItem app "is_preserve_repository_enabled" "Preserve repository" .redeploy,
    setup.settingItem app "is_raw_compose_deployment_enabled" "Raw Compose deployment" .redeploy,
    setup.settingItem app "is_gpu_enabled" "GPU enabled" .redeploy,
    setup.settingItem app "gpu_driver" "GPU driver" .redeploy,
    setup.settingItem app "gpu_count" "GPU count" .redeploy,
    setup.settingItem app "gpu_device_ids" "GPU device IDs" .redeploy,
    setup.settingItem app "gpu_options" "GPU options" .redeploy] ++
    setup.healthCheckItems app ++ setup.limitItems app

def domainItems : List ConfigItem :=
  [setup.columnItem app "fqdn" "Domains" .redeploy,
    setup.item "noindex_domains" "Search engine indexing"
      (.list (app.noindexDomains.map .string)) .redeploy,
    setup.textItem "docker_compose_domains" "Service domains"
      ((decodedComposeDomains app).getD .null) .redeploy (composeDomainsText app)
      .lines,
    setup.columnItem app "redirect" "Redirect" .redeploy,
    setup.textItem "custom_labels" "Container labels" (app.column "custom_labels") .redeploy
      (setup.decodeCustomLabels (app.text "custom_labels")) .lines,
    setup.textItem "custom_nginx_configuration" "Custom Nginx configuration"
      (app.column "custom_nginx_configuration") .build (app.text "custom_nginx_configuration")
      .default,
    setup.settingItem app "is_force_https_enabled" "Force HTTPS" .redeploy,
    setup.settingItem app "is_gzip_enabled" "Gzip" .redeploy,
    setup.settingItem app "is_stripprefix_enabled" "Strip prefix" .redeploy,
    setup.columnItem app "is_http_basic_auth_enabled" "HTTP basic auth" .redeploy,
    setup.columnItem app "http_basic_auth_username" "HTTP basic auth username" .redeploy,
    setup.itemWith "http_basic_auth_password" "HTTP basic auth password"
      (app.column "http_basic_auth_password") .redeploy true none none .default]

end Items

/-! ### Environment variables -/

def environmentFlags (row : VariableRow) : String :=
  ", ".intercalate
    ((if row.isBuildtime then ["build-time"] else []) ++
      (if row.isRuntime then ["runtime"] else []) ++
      (if row.isMultiline then ["multiline"] else []) ++
      (if row.isLiteral then ["literal"] else []))

def environmentDisplayValue (row : VariableRow) : String :=
  let flags := environmentFlags row
  if flags = "" then "Hidden" else "Hidden (" ++ flags ++ ")"

/-- One line for the value and for each scope. -/
def environmentLines (row : VariableRow) : String :=
  let value := row.value.getD ""
  "\n".intercalate
    ((if filled (some value) then [value] else []) ++
      ["Available at build: " ++ enabledOr row.isBuildtime,
        "Available at runtime: " ++ enabledOr row.isRuntime,
        "Multiline: " ++ enabledOr row.isMultiline,
        "Literal: " ++ enabledOr row.isLiteral])

def environmentCompareValue (row : VariableRow) : Value :=
  .map [("value_hash", .string (setup.sensitiveHash ((row.value.map .string).getD .null))),
    ("is_multiline", .bool row.isMultiline), ("is_literal", .bool row.isLiteral),
    ("is_buildtime", .bool row.isBuildtime), ("is_runtime", .bool row.isRuntime)]

def environmentItem (row : VariableRow) : ConfigItem :=
  let impact := if row.isBuildtime then Impact.build else .redeploy
  let compareValue := setup.environmentCompareValue row
  if row.isShownOnce then
    setup.itemWith row.key row.key compareValue impact true (some (environmentDisplayValue row))
      none .default
  else
    setup.itemWith row.key row.key
      (.string (setup.sensitiveHash (setup.normalizeValue compareValue))) impact false
      (some (setup.summarizeText (some (row.value.getD ""))))
      (some (environmentLines row)) .lines

/-- The order of the rows, which `sortBy` changes, is left to `sortKeys`. -/
def environmentItems (app : ApplicationConfig) : List ConfigItem :=
  app.environmentVariables.map setup.environmentItem

/-! ### Mounts -/

def mountValue (source destination : Value) : Value :=
  .map [("source", source), ("destination", destination)]

def volumeItem (volume : VolumeMount) : ConfigItem :=
  let source :=
    if (volume.hostPath.map Value.string).any Value.truthy then volume.hostPath.getD ""
    else volume.name
  setup.itemWith ("volume_" ++ toString volume.id) "Volume mount"
    (mountValue (.string source) (.string volume.mountPath)) .redeploy false
    (some (source ++ " → " ++ volume.mountPath)) none .default

def fileItem (file : FileMount) : ConfigItem :=
  setup.itemWith ("file_" ++ toString file.id)
    (if file.isDirectory then "Directory mount" else "File mount")
    (mountValue (.string file.fsPath) ((file.mountPath.map .string).getD .null)) .redeploy false
    (some (file.fsPath ++ " → " ++ file.mountPath.getD "")) none .default

def storageItems (app : ApplicationConfig) : List ConfigItem :=
  app.persistentStorages.map setup.volumeItem ++ app.fileStorages.map setup.fileItem

/-! ## Snapshots and their hash -/

/-- The sections of `toArray`. -/
def toArray (app : ApplicationConfig) : List ConfigSection :=
  [⟨"source", "Source", setup.sourceItems app⟩,
    ⟨"build", "Build", setup.buildItems app⟩,
    ⟨"runtime", "Runtime", setup.runtimeItems app⟩,
    ⟨"domains", "Domains & Proxy", setup.domainItems app⟩,
    ⟨"environment", "Environment Variables", setup.environmentItems app⟩,
    ⟨"storage", "Storage", setup.storageItems app⟩]

def schemaVersion : Int := 1

end SnapshotSetup

/-- The items of a section by their keys. -/
def ConfigSection.byKey (s : ConfigSection) : OrderedMap String ConfigItem :=
  s.items.foldl (fun m item => m.set item.key item) .empty

def ConfigItem.comparable (item : ConfigItem) : Value :=
  .map [("compare_value", item.compareValue), ("impact", .string item.impact.text)]

def ConfigSection.comparable (s : ConfigSection) : Value :=
  .ofFields (s.byKey.mapValues ConfigItem.comparable).sortKeys

def comparableSnapshot (sections : List ConfigSection) : Value :=
  let byKey : OrderedMap String Value :=
    sections.foldl (fun m s => m.set s.key s.comparable) .empty
  .map [("schema_version", .int SnapshotSetup.schemaVersion),
    ("sections", .ofFields byKey.sortKeys)]

def SnapshotSetup.hashSnapshot (setup : SnapshotSetup) (sections : List ConfigSection) : String :=
  setup.sha256 (jsonEncode (comparableSnapshot sections))

end OnePloy
