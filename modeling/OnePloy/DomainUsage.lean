import OnePloy.Lib.PhpText

/-!
# The checks for domains in use

`checkDomainUsage` looks through the applications, the service applications and
the instance settings for the domains of a resource that is about to be saved;
`checkIfDomainIsAlreadyUsedViaAPI` does so for a list of domains. The columns
hold domains as comma lists, and `docker_compose_domains` one such list for each
service.

How PHP compares two numeric texts is a parameter (`numericEq`).
-/

namespace OnePloy

open Php

/-! ## Rows -/

/-- A uuid is never empty for PHP. -/
structure Uuid where
  text : String
  truthy : (Value.string text).truthy = true

instance : DecidableEq Uuid := fun a b =>
  decidable_of_iff (a.text = b.text) (by cases a; cases b; simp)

inductive BuildPack
  | nixpacks
  | static
  | dockerfile
  | dockercompose
  | railpack
  | dockerimage
deriving DecidableEq

structure UsageApplication where
  uuid : Uuid
  /-- `environment.project.team`. -/
  team : Option Nat
  name : String
  link : Option String
  buildPack : BuildPack
  fqdn : Option String
  /-- The `domain` of each service. -/
  dockerComposeDomains : List (String × Option String)

structure UsageServiceApplication where
  uuid : Uuid
  /-- `service.environment.project.team`. -/
  team : Option Nat
  serviceName : String
  serviceLink : Option String
  fqdn : Option String

/-- What the checks look through. -/
structure DomainStores where
  applications : List UsageApplication
  serviceApplications : List UsageServiceApplication
  instanceFqdn : Option String

/-- What domains are proposed for. -/
inductive DomainResource
  | application (app : UsageApplication)
  | serviceApplication (app : UsageServiceApplication)

namespace DomainResource

def uuid : DomainResource → Uuid
  | .application app => app.uuid
  | .serviceApplication app => app.uuid

def team : DomainResource → Option Nat
  | .application app => app.team
  | .serviceApplication app => app.team

end DomainResource

/-! ## Domains -/

/-- Without a slash at its end. -/
def nakedDomain (domain : String) : String :=
  if strEndsWith domain "/" then String.ofList domain.toList.dropLast else domain

/-- `collect(explode(',', $fqdn))->filter(fn ($fqdn) => $fqdn !== '')`. -/
def listOfDomains (fqdn : String) : List String := (explode ',' fqdn).filter (· ≠ "")

/-- `fqdns`. -/
def fqdns : Option String → List String
  | none => []
  | some fqdn => explode ',' fqdn

/-- `data_get($settings, 'fqdn')`, if it is not empty for PHP. -/
def DomainStores.instanceDomain (stores : DomainStores) : Option String :=
  stores.instanceFqdn.filter fun fqdn => (Value.string fqdn).truthy

inductive ConflictType
  | application
  | service
  | onePloyInstance

structure DomainConflict where
  domain : String
  resourceName : String
  /-- `checkDomainUsage` links the resource. -/
  resourceLink : Option String
  /-- `checkIfDomainIsAlreadyUsedViaAPI` names it. -/
  resourceUuid : Option String
  resourceType : ConflictType
  serviceName : Option String
  message : String

structure DomainUsage where
  conflicts : List DomainConflict
  hasConflicts : Bool

def DomainUsage.of (conflicts : List DomainConflict) : DomainUsage :=
  ⟨conflicts, decide (0 < conflicts.length)⟩

section

variable (numericEq : String → String → Bool)

/-- `==` of two texts. -/
def looseEq (a b : String) : Bool :=
  a == b || ((numericInt? a).isSome && (numericInt? b).isSome && numericEq a b)

/-- `$domains->contains($naked_domain)`. -/
def containsDomain (domains : List String) (naked : String) : Bool :=
  domains.any fun domain => looseEq numericEq naked domain

/-! ## checkDomainUsage -/

/-- The domains of the resource as the check reads them: for a compose application
each value of `docker_compose_domains` as it stands. -/
def DomainResource.proposed : DomainResource → List String
  | .application app =>
      if app.buildPack = .dockercompose then app.dockerComposeDomains.map fun s => s.2.getD ""
      else fqdns app.fqdn
  | .serviceApplication app => fqdns app.fqdn

/-- The loop over the domains of an application or a service application. -/
def usageConflicts (resource : Option DomainResource) (domains : List String) (uuid : Uuid)
    (fqdn : Option String) (conflict : String → DomainConflict) : List DomainConflict :=
  (listOfDomains (fqdn.getD "")).flatMap fun domain =>
    let naked := nakedDomain domain
    if containsDomain numericEq domains naked then
      match resource with
      | some resource => if resource.uuid ≠ uuid then [conflict naked] else []
      -- a domain that has lost its slash is an object
      | none =>
          if strEndsWith domain "/" || (Value.string domain).truthy then [conflict naked] else []
    else []

def usedByApplication (resource : Option DomainResource) (domains : List String)
    (app : UsageApplication) : List DomainConflict :=
  usageConflicts numericEq resource domains app.uuid app.fqdn fun naked =>
    { domain := naked
      resourceName := app.name
      resourceLink := app.link
      resourceUuid := none
      resourceType := .application
      serviceName := none
      message := "Domain " ++ naked ++ " is already in use by application '" ++ app.name ++ "'" }

def usedByService (resource : Option DomainResource) (domains : List String)
    (app : UsageServiceApplication) : List DomainConflict :=
  usageConflicts numericEq resource domains app.uuid app.fqdn fun naked =>
    { domain := naked
      resourceName := app.serviceName
      resourceLink := app.serviceLink
      resourceUuid := none
      resourceType := .service
      serviceName := none
      message := "Domain " ++ naked ++ " is already in use by service '" ++ app.serviceName ++ "'" }

/-- The conflict with the instance, whose `resource_link` is `#` in the one check and
left out in the other. -/
def usedByInstance (link : Option String) (domains : List String) (stores : DomainStores) :
    List DomainConflict :=
  match stores.instanceDomain with
  | none => []
  | some domain =>
      let naked := nakedDomain domain
      if containsDomain numericEq domains naked then
        [{ domain := naked
           resourceName := "OnePloy Instance"
           resourceLink := link
           resourceUuid := none
           resourceType := .onePloyInstance
           serviceName := none
           message := "Domain " ++ naked ++ " is already in use by this OnePloy instance" }]
      else []

def checkDomainUsage (stores : DomainStores) (resource : Option DomainResource)
    (domain : Option String) : DomainUsage :=
  let currentTeam := resource.bind (·.team)
  let inTeam (team : Option Nat) := currentTeam.all fun t => team == some t
  let proposed := match resource with
    | some resource => some resource.proposed
    | none => (domain.filter fun d => (Value.string d).truthy).map fun d => [d]
  match proposed with
  | none => ⟨[], false⟩
  | some domains =>
      let domains := domains.map nakedDomain
      let apps := stores.applications.filter fun app => inTeam app.team
      let serviceApps := stores.serviceApplications.filter fun app => inTeam app.team
      .of (apps.flatMap (usedByApplication numericEq resource domains) ++
        serviceApps.flatMap (usedByService numericEq resource domains) ++
        if resource.isSome then usedByInstance numericEq (some "#") domains stores else [])

/-! ## checkIfDomainIsAlreadyUsedViaAPI -/

/-- The loop over a list of domains. -/
def apiConflicts (domains : List String) (value : String) (conflict : String → DomainConflict) :
    List DomainConflict :=
  (((listOfDomains value).map nakedDomain).filter (containsDomain numericEq domains)).map conflict

/-- The conflicts with one service of a compose application. -/
def usedByComposeServiceViaAPI (domains : List String) (app : UsageApplication)
    (service : String × Option String) : List DomainConflict :=
  match service.2.filter fun value => (Value.string value).truthy with
  | none => []
  | some domainValue =>
      apiConflicts numericEq domains domainValue fun naked =>
        { domain := naked
          resourceName := app.name
          resourceLink := none
          resourceUuid := some app.uuid.text
          resourceType := .application
          serviceName := some service.1
          message := "Domain " ++ naked ++ " is already in use by application '" ++ app.name ++
            "' (service: " ++ service.1 ++ ")" }

def usedByApplicationViaAPI (domains : List String) (app : UsageApplication) :
    List DomainConflict :=
  (match app.fqdn with
    | none => []
    | some fqdn =>
        apiConflicts numericEq domains fqdn fun naked =>
          { domain := naked
            resourceName := app.name
            resourceLink := none
            resourceUuid := some app.uuid.text
            resourceType := .application
            serviceName := none
            message := "Domain " ++ naked ++ " is already in use by application '" ++ app.name ++
              "'" }) ++
    if app.buildPack = .dockercompose then
      app.dockerComposeDomains.flatMap (usedByComposeServiceViaAPI numericEq domains app)
    else []

/-- A service application that is found through its team has a service. -/
def usedByServiceViaAPI (domains : List String) (app : UsageServiceApplication) :
    List DomainConflict :=
  apiConflicts numericEq domains (app.fqdn.getD "") fun naked =>
    { domain := naked
      resourceName := app.serviceName
      resourceLink := none
      resourceUuid := some app.uuid.text
      resourceType := .service
      serviceName := none
      message := "Domain " ++ naked ++ " is already in use by service '" ++ app.serviceName ++ "'" }

def checkIfDomainIsAlreadyUsedViaAPI (stores : DomainStores) (domains : List String)
    (teamId : Option Nat) (uuid : Option Uuid) : Except String DomainUsage :=
  match teamId with
  | none => .error "Team ID is required."
  | some teamId =>
      let domains := domains.map nakedDomain
      let applications := stores.applications.filter fun app =>
        app.team == some teamId && uuid.all fun u => app.uuid ≠ u
      let serviceApplications := stores.serviceApplications.filter fun app =>
        app.team == some teamId && uuid.all fun u => app.uuid ≠ u
      .ok (.of (applications.flatMap (usedByApplicationViaAPI numericEq domains) ++
        serviceApplications.flatMap (usedByServiceViaAPI numericEq domains) ++
        usedByInstance numericEq none domains stores))

end

end OnePloy
