import OnePloy.Lib.PhpText

/-!
# Compose services that are databases

`isDatabaseImage` looks for the last part of the image's name in a list, and
`isDatabaseImageWithContext` at five sections of the service. What it sees of them
depends on how they are written: the name ends at the first colon, variables in a map
are seen without their names, and services in a list only by their positions.
-/

namespace OnePloy

open Php

namespace DatabaseImage

/-- `DATABASE_DOCKER_IMAGES`. -/
def databaseDockerImages : List String :=
  ["bitnami/mariadb", "bitnami/mongodb", "bitnami/redis", "bitnamilegacy/mariadb",
    "bitnamilegacy/mongodb", "bitnamilegacy/redis", "bitnamisecure/mariadb",
    "bitnamisecure/mongodb", "bitnamisecure/redis", "mysql", "bitnami/mysql",
    "bitnamilegacy/mysql", "bitnamisecure/mysql", "mysql/mysql-server", "mariadb",
    "postgis/postgis", "postgres", "bitnami/postgresql", "bitnamilegacy/postgresql",
    "bitnamisecure/postgresql", "supabase/postgres", "elestio/postgres", "mongo", "redis",
    "memcached", "couchdb", "neo4j", "influxdb", "clickhouse/clickhouse-server",
    "timescaledb/timescaledb", "timescaledb", "timescaledb-ha", "pgvector/pgvector"]

/-- `Str::before`. -/
def strBefore (c : Char) (s : String) : String := String.ofList (s.toList.takeWhile (· ≠ c))

/-- The part behind the last slash, if there is one. -/
def baseName (name : String) : String :=
  if strContains name "/" then afterLast '/' name else name

/-- The image up to its tag. -/
def imageName (image : String) : String :=
  strBefore ':' (if strContains image ":" then image else image ++ ":latest")

def isKnownDatabase (name : String) : Bool :=
  databaseDockerImages.any fun image => baseName name == baseName image

/-- `Str::contains` with several needles. -/
def containsAny (haystack : String) (needles : List String) : Bool :=
  needles.any (strContains haystack)

def knownApplicationPatterns : List String :=
  ["supertokens/supertokens-mysql", "supertokens/supertokens-postgresql",
    "supertokens/supertokens-mongodb",
    "registry.supertokens.io/supertokens/supertokens-mysql",
    "registry.supertokens.io/supertokens/supertokens-postgresql",
    "registry.supertokens.io/supertokens/supertokens-mongodb",
    "registry.supertokens.io/supertokens", "metabase/metabase", "amancevice/superset",
    "nocodb/nocodb", "ghcr.io/umami-software/umami", "infisical/infisical",
    "postgrest/postgrest", "supabase/postgres-meta", "bluewaveuptime/uptime_redis"]

def databasePorts : List String :=
  ["3306", "5432", "27017", "6379", "8086", "9200", "7687", "8123"]

def databaseVariables : List String :=
  ["MYSQL_ROOT_PASSWORD", "POSTGRES_PASSWORD", "MONGO_INITDB_ROOT_PASSWORD", "REDIS_PASSWORD"]

def applicationVariables : List String := ["SERVICE_FQDN", "API_KEYS", "APP_", "APPLICATION_"]

def databaseHealthchecks : List String :=
  ["PG_ISREADY", "MYSQLADMIN PING", "MONGO", "REDIS-CLI PING"]

def applicationHealthchecks : List String :=
  ["CURL", "WGET", "HTTP://", "HTTPS://", "/HEALTH", "/API/", "/HELLO"]

def databaseServices : List String := ["mysql", "postgres", "mongo", "redis", "mariadb"]

/-- What `foreach` runs over. -/
def elements : Value → List Value
  | .list items => items
  | .map fields => fields.map Prod.snd
  | _ => []

/-- The keys `foreach` runs over, as texts. -/
def elementKeys : Value → List String
  | .list items => items.zipIdx.map fun q => toString q.2
  | .map fields => fields.map Prod.fst
  | _ => []

def hasStandardDbPort : List Value → Except String Bool
  | [] => .ok false
  | port :: ports =>
      port.toText.bind fun text =>
        if containsAny text databasePorts then .ok true else hasStandardDbPort ports

/-- What is seen in a section: signs of a database, and signs of an application. -/
structure Signs where
  database : Bool := false
  application : Bool := false
  deriving DecidableEq

/-- The variables, one by one. -/
def environmentSigns (signs : Signs) : List Value → Except String Signs
  | [] => .ok signs
  | env :: rest =>
      env.toText.bind fun text =>
        environmentSigns
          ⟨signs.database || containsAny (strtoupper text) databaseVariables,
            signs.application || containsAny (strtoupper text) applicationVariables⟩ rest

/-- The texts of several values. -/
def texts : List Value → Except String (List String)
  | [] => .ok []
  | v :: vs => v.toText.bind fun text => (texts vs).map (text :: ·)

def healthcheckText : Value → Except String String
  | .list items => (texts items).map (implode ' ')
  | .map fields => (texts (fields.map Prod.snd)).map (implode ' ')
  | .string s => .ok s
  | _ => .ok ""

def healthcheckSigns (text : String) : Signs :=
  if Value.truthy (.string text) then
    ⟨containsAny (strtoupper text) databaseHealthchecks,
      containsAny (strtoupper text) applicationHealthchecks⟩
  else {}

def dependsOnDatabases (dependsOn : Value) : Bool :=
  (elementKeys dependsOn).any fun name => containsAny name databaseServices

/-- The decision logic: the first rule that applies. -/
def decision (port : Bool) (environment healthcheck : Signs) (depends : Bool) : Bool :=
  if environment.application && depends then false
  else if healthcheck.application then false
  else if port && healthcheck.database then true
  else if environment.database then true
  else if depends then false
  else true

def isDatabaseImageWithContext (name : String) (serviceConfig : Value) : Except String Bool :=
  if knownApplicationPatterns.any (strContains name) then .ok false
  else
    (hasStandardDbPort (elements (serviceConfig.dataGetOr (.list []) ["ports"]))).bind fun port =>
      (environmentSigns {} (elements (serviceConfig.dataGetOr (.list []) ["environment"]))).bind
        fun environment =>
          (healthcheckText (serviceConfig.dataGetOr (.list []) ["healthcheck", "test"])).map
            fun text =>
              decision port environment (healthcheckSigns text)
                (dependsOnDatabases (serviceConfig.dataGetOr (.list []) ["depends_on"]))

def isDatabaseImage (image : Option String) (serviceConfig : Option Value) :
    Except String Bool :=
  match image with
  | none => .ok false
  | some image =>
      if !isKnownDatabase (imageName image) then .ok false
      else
        match serviceConfig with
        | some config => isDatabaseImageWithContext (imageName image) config
        | none => .ok true

/-! ## Services and how they are written -/

/-- A part of an image's name. -/
structure Part where
  text : List Char
  nonempty : text ≠ []
  plain : ∀ c ∈ text, c ≠ '/' ∧ c ≠ ':' ∧ c ≠ '@'

/-- The value of a variable. -/
inductive Setting
  | text (s : String)
  | number (n : Int)

def Setting.value : Setting → Value
  | .text s => .string s
  | .number n => .int n

def Setting.string : Setting → String
  | .text s => s
  | .number n => toString n

/-- A compose service, apart from its notation; `rest` has its other sections. -/
structure ComposeService where
  /-- The parts of the image's name in front of the last. -/
  folders : List Part
  repository : Part
  environment : List (String × Setting)
  environment_nodup : (environment.map Prod.fst).Nodup
  dependsOn : List (String × Value)
  dependsOn_nodup : (dependsOn.map Prod.fst).Nodup
  rest : List (String × Value)
  rest_keys : ∀ e ∈ rest, e.1 ≠ "environment" ∧ e.1 ≠ "depends_on"

/-- How a service is written. -/
structure Writing where
  /-- The registry's host, and its port. -/
  registry : Option (Part × Option Part)
  tag : Option Part
  /-- Algorithm and checksum. -/
  digest : Option (Part × Part)
  environmentListed : Bool
  dependsOnListed : Bool

namespace Writing

variable (w : Writing) (s : ComposeService)

def pathText : List Char :=
  ['/'].intercalate ((s.folders ++ [s.repository]).map Part.text)

def registryText : List Char :=
  match w.registry with
  | none => []
  | some (host, none) => host.text ++ ['/']
  | some (host, some port) => host.text ++ ':' :: (port.text ++ ['/'])

def tagText : List Char := w.tag.elim [] fun tag => ':' :: tag.text

def digestText : List Char :=
  w.digest.elim [] fun digest => '@' :: (digest.1.text ++ ':' :: digest.2.text)

def image : String :=
  String.ofList (w.registryText ++ (pathText s ++ (w.tagText ++ w.digestText)))

def environmentValue : Value :=
  if w.environmentListed then
    .list (s.environment.map fun e => .string (e.1 ++ "=" ++ e.2.string))
  else .map (s.environment.map fun e => (e.1, e.2.value))

def dependsOnValue : Value :=
  if w.dependsOnListed then .list (s.dependsOn.map fun e => .string e.1)
  else .map s.dependsOn

def config : Value :=
  .map (("environment", w.environmentValue s) :: ("depends_on", w.dependsOnValue s) :: s.rest)

/-- The answer for a service in this notation. -/
def answer : Except String Bool := isDatabaseImage (some (w.image s)) (some (w.config s))

end Writing

/-! ## The name -/

theorem strContains_character {s needle : String} {c : Char} (h : needle.toList = [c]) :
    strContains s needle = true ↔ c ∈ s.toList := by
  rw [strContains_iff, h]
  exact List.singleton_infix_iff _ _

theorem takeWhile_name {a : List Char} (h : ':' ∉ a) (b : List Char) :
    (a ++ b).takeWhile (· ≠ ':') = a ++ b.takeWhile (· ≠ ':') :=
  List.takeWhile_append_of_pos fun _ hc => decide_eq_true fun heq => h (heq ▸ hc)

theorem imageName_eq (image : String) :
    imageName image = String.ofList (image.toList.takeWhile (· ≠ ':')) := by
  rw [imageName, strBefore]
  split
  · rfl
  · next h =>
    have hcolon : ':' ∉ image.toList := fun hmem => h ((strContains_character rfl).mpr hmem)
    have hself := takeWhile_name hcolon []
    rw [List.append_nil] at hself
    have hlatest : (":latest".toList).takeWhile (· ≠ ':') = ([] : List Char).takeWhile (· ≠ ':') :=
      rfl
    rw [String.toList_append, takeWhile_name hcolon, hself, hlatest]

theorem Part.notMem (p : Part) : '/' ∉ p.text ∧ ':' ∉ p.text ∧ '@' ∉ p.text :=
  ⟨fun h => (p.plain _ h).1 rfl, fun h => (p.plain _ h).2.1 rfl, fun h => (p.plain _ h).2.2 rfl⟩

/-- In front of the last part of a name. -/
def IsFolder (front : List Char) : Prop := front = [] ∨ ∃ front', front = front' ++ ['/']

theorem IsFolder.append {front : List Char} (h : IsFolder front) (a : List Char) :
    IsFolder (a ++ '/' :: front) := by
  rcases h with rfl | ⟨front', rfl⟩
  exacts [.inr ⟨a, rfl⟩, .inr ⟨a ++ '/' :: front', by simp⟩]

theorem baseName_of_last {front last : List Char} (hfront : IsFolder front) (hlast : '/' ∉ last) :
    baseName (String.ofList (front ++ last)) = String.ofList last := by
  rcases hfront with rfl | ⟨front, rfl⟩
  · rw [List.nil_append, baseName, if_neg]
    rw [strContains_character rfl, String.toList_ofList]
    exact hlast
  · have hsplit : (String.ofList (front ++ ['/'] ++ last)).toList = front ++ '/' :: last := by
      rw [String.toList_ofList, List.append_assoc]
      rfl
    have hslash : '/' ∈ (String.ofList (front ++ ['/'] ++ last)).toList := by
      rw [hsplit]
      exact List.mem_append_right _ (List.mem_cons_self ..)
    rw [baseName, if_pos ((strContains_character rfl).mpr hslash), afterLast]
    have hpieces := pieces_append_sep '/' front last
    rw [pieces_of_notMem hlast] at hpieces
    simp only [hsplit, hpieces, List.getLast_append_singleton]

namespace Writing

theorem pathText_split (s : ComposeService) :
    ∃ front, pathText s = front ++ s.repository.text ∧ IsFolder front ∧ ':' ∉ front := by
  rw [pathText]
  induction s.folders with
  | nil => exact ⟨[], by simp, .inl rfl, List.not_mem_nil⟩
  | cons folder folders ih =>
      obtain ⟨front, hfront, hfolder, hcolon⟩ := ih
      obtain ⟨part, parts, hparts⟩ := List.exists_cons_of_ne_nil
        (show (folders ++ [s.repository]).map Part.text ≠ [] by simp)
      refine ⟨folder.text ++ '/' :: front, ?_, hfolder.append _, ?_⟩
      · rw [hparts] at hfront
        rw [List.cons_append, List.map_cons, hparts, intercalate_cons_cons, hfront]
        simp
      · rw [List.mem_append, List.mem_cons, not_or, not_or]
        exact ⟨folder.notMem.2.1, by decide, hcolon⟩

variable (w : Writing) (s : ComposeService)

/-- A checksum without a tag: its algorithm belongs to the name. -/
def stub : List Char :=
  if w.tag.isSome then [] else w.digest.elim [] fun digest => '@' :: digest.1.text

/-- The name that is seen. -/
def seenName : List Char :=
  match w.registry with
  | none => pathText s ++ w.stub
  | some (host, none) => host.text ++ '/' :: (pathText s ++ w.stub)
  | some (host, some _) => host.text

theorem takeWhile_behind : (w.tagText ++ w.digestText).takeWhile (· ≠ ':') = w.stub := by
  rw [tagText, digestText, stub]
  cases w.tag with
  | some tag => rfl
  | none =>
      cases w.digest with
      | none => rfl
      | some digest =>
          have hcolon : ':' ∉ '@' :: digest.1.text :=
            fun h => digest.1.notMem.2.1 ((List.mem_cons.mp h).resolve_left (by decide))
          exact (takeWhile_name hcolon _).trans (List.append_nil _)

theorem imageName_image : imageName (w.image s) = String.ofList (w.seenName s) := by
  obtain ⟨front, hpath, -, hcolon⟩ := pathText_split s
  have hname : ':' ∉ pathText s := by
    rw [hpath, List.mem_append, not_or]
    exact ⟨hcolon, s.repository.notMem.2.1⟩
  have hbehind := takeWhile_name hname (w.tagText ++ w.digestText)
  rw [takeWhile_behind] at hbehind
  rw [imageName_eq, image, String.toList_ofList, registryText, seenName]
  congr 1
  match w.registry with
  | none => exact hbehind
  | some (host, none) =>
      have hhost : ':' ∉ host.text ++ ['/'] := by
        rw [List.mem_append, not_or]
        exact ⟨host.notMem.2.1, by decide⟩
      dsimp only
      rw [takeWhile_name hhost, hbehind, List.append_assoc]
      rfl
  | some (host, some port) =>
      dsimp only
      rw [List.append_assoc, takeWhile_name host.notMem.2.1]
      exact List.append_nil _

/-- The registry has no port, and a checksum comes behind a tag. -/
structure NameSeen : Prop where
  port : ∀ host port, w.registry ≠ some (host, some port)
  tag : w.digest.isSome = true → w.tag.isSome = true

variable {w}

theorem NameSeen.stub (h : w.NameSeen) : w.stub = [] := by
  rw [Writing.stub]
  split
  · rfl
  · next htag =>
    cases hdigest : w.digest with
    | none => rfl
    | some digest => exact absurd (h.tag (by rw [hdigest]; rfl)) htag

theorem NameSeen.baseName (h : w.NameSeen) :
    baseName (imageName (w.image s)) = String.ofList s.repository.text := by
  obtain ⟨front, hpath, hfolder, -⟩ := pathText_split s
  rw [imageName_image, seenName, h.stub, List.append_nil, hpath]
  match hregistry : w.registry with
  | none => exact baseName_of_last hfolder s.repository.notMem.1
  | some (host, none) =>
      dsimp only
      rw [← List.cons_append, ← List.append_assoc]
      exact baseName_of_last (hfolder.append _) s.repository.notMem.1
  | some (host, some port) => exact absurd hregistry (h.port host port)

end Writing

/-! ## The sections -/

/-- What texts of variables are signs of. -/
def variableSigns (variableTexts : List String) : Signs where
  database := variableTexts.any fun text => containsAny (strtoupper text) databaseVariables
  application := variableTexts.any fun text => containsAny (strtoupper text) applicationVariables

theorem environmentSigns_texts {items : List Value} {variableTexts : List String}
    (h : items.map Value.toText = variableTexts.map .ok) (signs : Signs) :
    environmentSigns signs items =
      .ok ⟨signs.database || (variableSigns variableTexts).database,
        signs.application || (variableSigns variableTexts).application⟩ := by
  induction items generalizing variableTexts signs with
  | nil =>
      obtain rfl := List.map_eq_nil_iff.mp h.symm
      simp [environmentSigns, variableSigns]
  | cons item items ih =>
      obtain ⟨text, variableTexts, rfl⟩ := List.exists_cons_of_ne_nil
        (show variableTexts ≠ [] by rintro rfl; cases h)
      rw [List.map_cons, List.map_cons] at h
      rw [environmentSigns, (List.cons.inj h).1]
      refine (ih (List.cons.inj h).2 _).trans ?_
      simp [variableSigns, Bool.or_assoc]

/-- A position is no name. -/
theorem position_not_database (n : Nat) : containsAny (toString n) databaseServices = false := by
  rw [containsAny, List.any_eq_false]
  intro needle hneedle hcontains
  have hsub := (strContains_iff.mp hcontains).subset
  have hdigits : ∀ c ∈ needle.toList, c.isDigit = true := fun c hc => by
    have hc := hsub hc
    rw [Nat.toString_eq_repr, Nat.repr, String.toList_ofList] at hc
    exact isDigit_of_mem_toDigits hc
  have hletters : databaseServices.all (fun needle => needle.toList.any (!·.isDigit)) = true := by
    decide +kernel
  obtain ⟨c, hc, hno⟩ := List.any_eq_true.mp (List.all_eq_true.mp hletters needle hneedle)
  rw [hdigits c hc] at hno
  cases hno

namespace Writing

variable (w : Writing) (s : ComposeService)

theorem config_environment : (w.config s).dataGetOr (.list []) ["environment"] =
    w.environmentValue s := rfl

theorem config_dependsOn : (w.config s).dataGetOr (.list []) ["depends_on"] =
    w.dependsOnValue s := rfl

/-- The other sections are the same in every notation. -/
theorem config_rest {key : String} (henvironment : key ≠ "environment")
    (hdependsOn : key ≠ "depends_on") (path : List String) :
    (w.config s).dataGetOr (.list []) (key :: path) =
      (Value.map s.rest).dataGetOr (.list []) (key :: path) := by
  have hlookup : (w.config s).child key = s.rest.lookup key := by
    rw [config, Value.child, List.lookup_cons, List.lookup_cons, beq_false_of_ne henvironment,
      beq_false_of_ne hdependsOn]
  rw [Value.dataGetOr, Value.dataGetOr, hlookup]
  rfl

/-- The variables as they are seen. -/
def seenVariables : List String :=
  s.environment.map fun e =>
    if w.environmentListed then e.1 ++ "=" ++ e.2.string else e.2.string

theorem environmentSigns_config :
    environmentSigns {} (elements ((w.config s).dataGetOr (.list []) ["environment"])) =
      .ok (variableSigns (w.seenVariables s)) := by
  rw [config_environment, @environmentSigns_texts _ (w.seenVariables s)]
  · rfl
  · rw [environmentValue, seenVariables]
    split
    · simp [elements, Value.toText]
    · rw [elements, List.map_map, List.map_map, List.map_map]
      refine List.map_congr_left fun e _ => ?_
      cases h : e.2 <;> simp [h, Setting.value, Setting.string, Value.toText]

/-- Whether a database is seen among the services it depends on. -/
def seenDependsOn : Bool :=
  !w.dependsOnListed && s.dependsOn.any fun e => containsAny e.1 databaseServices

theorem dependsOn_config :
    dependsOnDatabases ((w.config s).dataGetOr (.list []) ["depends_on"]) =
      w.seenDependsOn s := by
  rw [config_dependsOn, dependsOnValue, seenDependsOn]
  cases w.dependsOnListed with
  | true =>
      rw [if_pos rfl, dependsOnDatabases, Bool.not_true, Bool.false_and, List.any_eq_false]
      intro name hname
      obtain ⟨q, -, rfl⟩ := List.mem_map.mp hname
      rw [position_not_database]
      exact Bool.false_ne_true
  | false =>
      rw [if_neg Bool.false_ne_true, dependsOnDatabases, elementKeys, List.any_map]
      rfl

end Writing

/-- The sections that have one notation. -/
def ComposeService.ports (s : ComposeService) : Except String Bool :=
  hasStandardDbPort (elements ((Value.map s.rest).dataGetOr (.list []) ["ports"]))

def ComposeService.healthcheck (s : ComposeService) : Except String Signs :=
  (healthcheckText ((Value.map s.rest).dataGetOr (.list []) ["healthcheck", "test"])).map
    healthcheckSigns

/-- The answer, by what is seen. -/
theorem answer_eq (w : Writing) (s : ComposeService) :
    w.answer s =
      if !isKnownDatabase (imageName (w.image s)) ||
          knownApplicationPatterns.any (strContains (imageName (w.image s))) then .ok false
      else s.ports.bind fun port => s.healthcheck.map fun healthcheck =>
        decision port (variableSigns (w.seenVariables s)) healthcheck (w.seenDependsOn s) := by
  rw [Writing.answer, isDatabaseImage, isDatabaseImageWithContext, w.environmentSigns_config,
    w.dependsOn_config, w.config_rest s (by decide) (by decide),
    w.config_rest s (by decide) (by decide)]
  rw [ComposeService.ports, ComposeService.healthcheck]
  generalize isKnownDatabase (imageName (w.image s)) = known
  generalize knownApplicationPatterns.any (strContains (imageName (w.image s))) = application
  generalize hasStandardDbPort _ = ports
  generalize healthcheckText _ = text
  cases known with
  | false => rfl
  | true =>
      cases application with
      | true => rfl
      | false => cases ports <;> cases text <;> rfl

/-! ## What depends on the notation -/

/-- The healthcheck asks for a page, and no section is in the way of seeing it. -/
structure HttpChecked (s : ComposeService) : Prop where
  ports : ∃ port, s.ports = .ok port
  healthcheck : ∃ signs, s.healthcheck = .ok signs ∧ signs.application = true

/-- Two notations show the same. -/
structure SeenAlike (s : ComposeService) (w w' : Writing) : Prop where
  name : w.NameSeen
  name' : w'.NameSeen
  /-- The registry makes no difference to the known applications. -/
  application : ∀ pattern ∈ knownApplicationPatterns,
    strContains (imageName (w.image s)) pattern = strContains (imageName (w'.image s)) pattern
  /-- The names of the variables are seen in both, or tell nothing. -/
  environment : w.environmentListed = w'.environmentListed ∨
    ∀ e ∈ s.environment, ∀ needle ∈ databaseVariables ++ applicationVariables,
      strContains (strtoupper (e.1 ++ "=" ++ e.2.string)) needle = true →
        strContains (strtoupper e.2.string) needle = true
  dependsOn : w.dependsOnListed = w'.dependsOnListed ∨
    ∀ e ∈ s.dependsOn, containsAny e.1 databaseServices = false

theorem answer_of_httpChecked {s : ComposeService} (h : HttpChecked s) (w : Writing) :
    w.answer s = .ok false := by
  obtain ⟨port, hport⟩ := h.ports
  obtain ⟨signs, hsigns, happlication⟩ := h.healthcheck
  rw [answer_eq, hport, hsigns]
  split
  · rfl
  · show Except.ok (decision port _ signs _) = _
    rw [decision, happlication, if_pos rfl, ite_self]

theorem strtoupper_append (a b : String) :
    strtoupper (a ++ b) = strtoupper a ++ strtoupper b := by
  rw [strtoupper, String.toList_append, List.map_append, String.ofList_append]
  rfl

theorem strContains_append {a b needle : String} (h : strContains b needle = true) :
    strContains (a ++ b) needle = true := by
  rw [strContains_iff] at h ⊢
  rw [String.toList_append]
  exact h.trans (List.suffix_append ..).isInfix

/-- Where the name adds none of the needles, the variable may be written either way. -/
theorem containsAny_seen {needles : List String} {name value : String}
    (h : ∀ needle ∈ needles, strContains (strtoupper (name ++ "=" ++ value)) needle = true →
      strContains (strtoupper value) needle = true) (listed : Bool) :
    containsAny (strtoupper (if listed then name ++ "=" ++ value else value)) needles =
      containsAny (strtoupper value) needles := by
  cases listed with
  | false => rfl
  | true =>
      rw [if_pos rfl, Bool.eq_iff_iff, containsAny, containsAny, List.any_eq_true,
        List.any_eq_true]
      constructor
      · rintro ⟨needle, hmem, hcontains⟩
        exact ⟨needle, hmem, h needle hmem hcontains⟩
      · rintro ⟨needle, hmem, hcontains⟩
        refine ⟨needle, hmem, ?_⟩
        rw [strtoupper_append]
        exact strContains_append hcontains

theorem variableSigns_alike {s : ComposeService}
    (h : ∀ e ∈ s.environment, ∀ needle ∈ databaseVariables ++ applicationVariables,
      strContains (strtoupper (e.1 ++ "=" ++ e.2.string)) needle = true →
        strContains (strtoupper e.2.string) needle = true) (w w' : Writing) :
    variableSigns (w.seenVariables s) = variableSigns (w'.seenVariables s) := by
  have hany : ∀ (w : Writing) (needles : List String),
      needles ⊆ databaseVariables ++ applicationVariables →
      ((w.seenVariables s).any fun text => containsAny (strtoupper text) needles) =
        s.environment.any fun e => containsAny (strtoupper e.2.string) needles := by
    intro w needles hneedles
    rw [Writing.seenVariables, List.any_map, Bool.eq_iff_iff, List.any_eq_true, List.any_eq_true]
    refine exists_congr fun e => and_congr_right fun he => ?_
    have hseen := containsAny_seen (fun needle hmem => h e he needle (hneedles hmem))
      w.environmentListed
    rw [Function.comp_apply, hseen]
  rw [variableSigns, variableSigns, hany w _ (List.subset_append_left ..),
    hany w _ (List.subset_append_right ..), hany w' _ (List.subset_append_left ..),
    hany w' _ (List.subset_append_right ..)]

theorem any_congr_mem {α : Type} {l : List α} {p q : α → Bool} (h : ∀ a ∈ l, p a = q a) :
    l.any p = l.any q := by
  rw [Bool.eq_iff_iff, List.any_eq_true, List.any_eq_true]
  exact exists_congr fun a => and_congr_right fun ha => by rw [h a ha]

theorem answer_alike {s : ComposeService} {w w' : Writing} (h : SeenAlike s w w') :
    w.answer s = w'.answer s := by
  have hknown : isKnownDatabase (imageName (w.image s)) =
      isKnownDatabase (imageName (w'.image s)) := by
    rw [isKnownDatabase, isKnownDatabase, h.name.baseName, h.name'.baseName]
  have henvironment : variableSigns (w.seenVariables s) = variableSigns (w'.seenVariables s) := by
    rcases h.environment with heq | hnames
    · rw [Writing.seenVariables, Writing.seenVariables, heq]
    · exact variableSigns_alike hnames w w'
  have hdependsOn : w.seenDependsOn s = w'.seenDependsOn s := by
    rcases h.dependsOn with heq | hnone
    · rw [Writing.seenDependsOn, Writing.seenDependsOn, heq]
    · have hany : (s.dependsOn.any fun e => containsAny e.1 databaseServices) = false := by
        rw [List.any_eq_false]
        exact fun e he => by rw [hnone e he]; exact Bool.false_ne_true
      rw [Writing.seenDependsOn, Writing.seenDependsOn, hany, Bool.and_false, Bool.and_false]
  rw [answer_eq, answer_eq, hknown, any_congr_mem h.application, henvironment, hdependsOn]

/-- Without a database to depend on, only a page to ask for speaks against one. -/
theorem decision_without_dependencies (port : Bool) (environment healthcheck : Signs) :
    decision port environment healthcheck false = !healthcheck.application := by
  rw [decision, Bool.and_false, if_neg Bool.false_ne_true]
  cases healthcheck.application with
  | true => rfl
  | false =>
      rw [if_neg Bool.false_ne_true, if_neg Bool.false_ne_true, ite_self, ite_self]
      rfl

/-- A registry with a port, of this host. -/
def portWriting (host : Part) : Writing where
  registry := some (host, some ⟨['5', '0', '0', '0'], nofun, by simp⟩)
  tag := none
  digest := none
  environmentListed := true
  dependsOnListed := true

/-- Behind a registry with a port, only its host is seen. -/
theorem imageName_port (host : Part) (s : ComposeService) :
    imageName ((portWriting host).image s) = String.ofList host.text :=
  (portWriting host).imageName_image s

/-- Every known application is named with its folder. -/
theorem application_of_plain {name : String} (h : '/' ∉ name.toList) :
    knownApplicationPatterns.any (strContains name) = false := by
  have hfolders : knownApplicationPatterns.all (·.toList.contains '/') = true := by
    decide +kernel
  rw [List.any_eq_false]
  intro pattern hpattern hcontains
  have hfolder := List.contains_iff_mem.mp (List.all_eq_true.mp hfolders pattern hpattern)
  exact h ((strContains_iff.mp hcontains).subset hfolder)

theorem known_of_mem {name : String} (h : name ∈ databaseDockerImages) :
    isKnownDatabase name = true :=
  List.any_eq_true.mpr ⟨name, h, beq_self_eq_true _⟩

theorem hub_unknown : isKnownDatabase (String.ofList ['h', 'u', 'b']) = false := by
  decide +kernel

theorem httpChecked_of_independent {s : ComposeService}
    (h : ∀ w w' : Writing, w.answer s = w'.answer s) : HttpChecked s := by
  let other : Part := ⟨['h', 'u', 'b'], nofun, by simp⟩
  let database : Part := ⟨['r', 'e', 'd', 'i', 's'], nofun, by simp⟩
  have hother : (portWriting other).answer s = .ok false := by
    rw [answer_eq, imageName_port, show isKnownDatabase (String.ofList other.text) = false from
      hub_unknown]
    rfl
  have hdatabase := (h (portWriting database) (portWriting other)).trans hother
  have hknown : isKnownDatabase (String.ofList database.text) = true :=
    known_of_mem (show "redis" ∈ databaseDockerImages by simp [databaseDockerImages])
  have happlication : knownApplicationPatterns.any (strContains (String.ofList database.text)) =
      false := application_of_plain (by rw [String.toList_ofList]; decide)
  rw [answer_eq, imageName_port, hknown, happlication] at hdatabase
  have hdepends : (portWriting database).seenDependsOn s = false := rfl
  rw [hdepends] at hdatabase
  cases hports : s.ports with
  | error err =>
      rw [hports] at hdatabase
      cases hdatabase
  | ok port =>
      cases hhealthcheck : s.healthcheck with
      | error err =>
          rw [hports, hhealthcheck] at hdatabase
          cases hdatabase
      | ok signs =>
          rw [hports, hhealthcheck] at hdatabase
          refine ⟨⟨port, hports⟩, signs, hhealthcheck, ?_⟩
          have hdecision : decision port _ signs false = false := Except.ok.inj hdatabase
          rwa [decision_without_dependencies, Bool.not_eq_false'] at hdecision

/-- The answer is the same in all notations exactly for services whose healthcheck asks for
a page; and in two notations that show the same, it is the same. -/
theorem independent_iff_httpChecked (s : ComposeService) :
    ((∀ w w' : Writing, w.answer s = w'.answer s) ↔ HttpChecked s) ∧
      ∀ w w' : Writing, SeenAlike s w w' → w.answer s = w'.answer s := by
  refine ⟨⟨httpChecked_of_independent, fun h w w' => ?_⟩, fun w w' => answer_alike⟩
  rw [answer_of_httpChecked h, answer_of_httpChecked h]

/-- `postgres`, with a password. -/
def postgresService : ComposeService where
  folders := []
  repository := ⟨['p', 'o', 's', 't', 'g', 'r', 'e', 's'], nofun, by simp⟩
  environment := [("POSTGRES_PASSWORD", .text "secret")]
  environment_nodup := by simp
  dependsOn := []
  dependsOn_nodup := List.nodup_nil
  rest := []
  rest_keys := nofun

/-- `docker.io/postgres:16`. -/
def taggedWriting : Writing where
  registry := some (⟨"docker.io".toList, by decide, by simp⟩, none)
  tag := some ⟨['1', '6'], nofun, by simp⟩
  digest := none
  environmentListed := true
  dependsOnListed := true

/-- `postgres`. -/
def bareWriting : Writing where
  registry := none
  tag := none
  digest := none
  environmentListed := true
  dependsOnListed := false

theorem tagged_postgres_alike :
    taggedWriting.answer postgresService = bareWriting.answer postgresService :=
  (independent_iff_httpChecked postgresService).2 _ _
    { name := ⟨nofun, nofun⟩
      name' := ⟨nofun, nofun⟩
      application := by
        rw [Writing.imageName_image, Writing.imageName_image]
        decide +kernel
      environment := .inl rfl
      dependsOn := .inr nofun }

theorem port_hides_database :
    bareWriting.answer postgresService = .ok true ∧
      (portWriting ⟨['h', 'u', 'b'], nofun, by simp⟩).answer postgresService = .ok false := by
  constructor
  · have hknown : isKnownDatabase (String.ofList ['p', 'o', 's', 't', 'g', 'r', 'e', 's']) = true :=
      known_of_mem (show "postgres" ∈ databaseDockerImages by simp [databaseDockerImages])
    have happlication : knownApplicationPatterns.any
        (strContains (String.ofList ['p', 'o', 's', 't', 'g', 'r', 'e', 's'])) = false :=
      application_of_plain (by rw [String.toList_ofList]; decide)
    rw [answer_eq, Writing.imageName_image,
      show bareWriting.seenName postgresService = ['p', 'o', 's', 't', 'g', 'r', 'e', 's'] from rfl,
      hknown, happlication]
    decide +kernel
  · rw [answer_eq, imageName_port, hub_unknown]
    rfl

end DatabaseImage

end OnePloy
