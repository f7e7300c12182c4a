import OnePloy.ComposeShort
import OnePloy.FilePaths
import OnePloy.Lib.OrderedMap

/-!
# Service URLs with a port

`updateCompose` writes two variables, `SERVICE_URL_<name>` and
`SERVICE_FQDN_<name>`, for every service name that the compose file declares, and
two more for every port of it. The port goes behind what the domain is without
one, and that ends with the path.
-/

namespace OnePloy

open Php

/-- What `Spatie\Url\Url` says of a text. -/
structure ServiceUrl where
  scheme : String
  host : String
  port : Option Nat
  path : String
  deriving DecidableEq, Repr

/-- The framework and the URL library. -/
structure UrlSetup where
  /-- `Url::fromString`, where it does not throw. -/
  fromString : String → Option ServiceUrl
  /-- The schemes that it takes, in lower case. -/
  isScheme : String → Bool
  /-- `Str::lower`. -/
  lower : String → String
  /-- The characters that `Str::trim` takes off. -/
  strTrimmed : Char → Bool

structure DomainUrlParts where
  scheme : String
  host : String
  path : String

/-- One `/` is no path. -/
def barePath (path : String) : String := if path = "" ∨ path = "/" then "" else path

def firstDomainFromList (fqdns : Option String) : String :=
  trim ((explode ',' (fqdns.getD "")).headD "")

/-- `Str::beforeLast`, with one character. -/
def beforeLast (c : Char) (s : String) : String :=
  match cutLast c s.toList with
  | some (before, _) => String.ofList before
  | none => s

structure ParsedVariable where
  serviceName : String
  port : Option String
  hasPort : Bool

/-- An element of `$serviceNamesToProcess`. -/
structure ServiceNames where
  base : String
  ports : List String

/-- The variables of one service name, with or without a port. -/
structure ServicePair where
  name : String
  port : Option String
  url : String
  fqdn : String
  deriving DecidableEq, Repr

namespace ServicePair

def suffix (pair : ServicePair) : String :=
  match pair.port with
  | none => pair.name
  | some port => pair.name ++ "_" ++ port

def urlKey (pair : ServicePair) : String := "SERVICE_URL_" ++ pair.suffix

def fqdnKey (pair : ServicePair) : String := "SERVICE_FQDN_" ++ pair.suffix

/-- The two calls of `updateOrCreate`. -/
def write (vars : OrderedMap String String) (pair : ServicePair) :
    OrderedMap String String :=
  (vars.set pair.urlKey pair.url).set pair.fqdnKey pair.fqdn

end ServicePair

/-! ## The names that the compose file declares -/

/-- What of `SERVICE_URL_…` or `SERVICE_FQDN_…` names the service. -/
def serviceNameOf (key : String) (hasPort : Bool) : Option String :=
  let name := fun (front : String) =>
    if hasPort then beforeLast '_' (strAfter key front) else strAfter key front
  if strStartsWith key "SERVICE_URL_" then some (name "SERVICE_URL_")
  else if strStartsWith key "SERVICE_FQDN_" then some (name "SERVICE_FQDN_")
  else none

def isServiceVariable (key : String) : Bool :=
  strStartsWith key "SERVICE_FQDN_" || strStartsWith key "SERVICE_URL_"

/-- A key that PHP keeps as an integer. -/
def isIntegerKey (key : String) : Bool :=
  match key.toList with
  | '-' :: '0' :: _ => false
  | '-' :: digits => !digits.isEmpty && digits.all Char.isDigit
  | ['0'] => true
  | '0' :: _ => false
  | digits => !digits.isEmpty && digits.all Char.isDigit

namespace UrlSetup

variable (setup : UrlSetup)

def parseServiceEnvironmentVariable (key : String) : ParsedVariable :=
  let lastSegment := afterLast '_' key
  let hasPort := ctypeDigit lastSegment
  { serviceName := ((serviceNameOf key hasPort).map setup.lower).getD ""
    port := if hasPort then some lastSegment else none
    hasPort := hasPort }

def listedVariable : Value → Option String
  | .string value => some (strTrim setup.strTrimmed (explodeOnce '=' value).1)
  | _ => none

def mappedVariable (entry : String × Value) : Option String :=
  if isIntegerKey entry.1 then setup.listedVariable entry.2 else some entry.1

/-- `$templateVariableNames`. A loop over what is no array is an error. -/
def templateVariableNames : Value → Option (List String)
  | .null => some []
  | .list items =>
      some ((items.filterMap setup.listedVariable).filter isServiceVariable).eraseDups
  | .map fields =>
      some ((fields.filterMap setup.mappedVariable).filter isServiceVariable).eraseDups
  | _ => none

/-- A turn of the loop that fills `$serviceNamesToProcess`. -/
def processVariable (services : OrderedMap String ServiceNames) (templateVarName : String) :
    OrderedMap String ServiceNames :=
  let parsed := setup.parseServiceEnvironmentVariable templateVarName
  match serviceNameOf templateVarName parsed.hasPort with
  | none => services
  | some serviceName =>
      let serviceKey := setup.lower serviceName
      let service := (services.get? serviceKey).getD ⟨serviceName, []⟩
      let ports := (parsed.port.filter fun port => Value.truthy (.string port)).toList
      services.set serviceKey { service with ports := service.ports ++ ports }

def serviceNamesToProcess (names : List String) : List ServiceNames :=
  (names.foldl setup.processVariable .empty).entries.map Prod.snd

/-! ## The values -/

def parseDomainUrlParts (fqdn : String) : Option DomainUrlParts :=
  (setup.fromString fqdn).bind fun url =>
    if url.host = "" then none else some ⟨url.scheme, url.host, barePath url.path⟩

def getFqdnWithoutPort (fqdn : String) : String :=
  match setup.parseDomainUrlParts fqdn with
  | none => fqdn
  | some parts =>
      if parts.scheme = "" then fqdn else parts.scheme ++ "://" ++ parts.host ++ parts.path

def getHostWithoutPort (fqdn : String) : String :=
  match setup.parseDomainUrlParts fqdn with
  | none => fqdn
  | some parts => parts.host ++ parts.path

/-- `$allPorts`: the ports of the template, and that of the domain behind them. -/
def allPorts (service : ServiceNames) (port : Option Nat) : List String :=
  let ports := service.ports.eraseDups
  let isNew := fun (n : Nat) => n != 0 && !ports.any fun p => digitsValue p.toList == n
  ports ++ ((port.filter isNew).map fun n => toString n).toList

/-- The variables of one service name. -/
def servicePairs (firstFqdn : String) (url : ServiceUrl) (service : ServiceNames) :
    List ServicePair :=
  let urlValue := setup.getFqdnWithoutPort firstFqdn
  let fqdnValue := setup.getHostWithoutPort firstFqdn
  ⟨service.base, none, urlValue, fqdnValue⟩ ::
    (allPorts service url.port).map fun portNum =>
      ⟨service.base, some portNum, urlValue ++ ":" ++ portNum, fqdnValue ++ ":" ++ portNum⟩

/-- What `updateCompose` writes for the names that a template declares. -/
def pairs (fqdn : Option String) (names : List String) : List ServicePair :=
  if fqdn.any fun s => Value.truthy (.string s) then
    let firstFqdn := firstDomainFromList fqdn
    match setup.fromString firstFqdn with
    | none => []
    | some url => (setup.serviceNamesToProcess names).flatMap (setup.servicePairs firstFqdn url)
  else []

/-- The deletions of one service name. -/
def deleteService (vars : OrderedMap String String) (service : ServiceNames) :
    OrderedMap String String :=
  let names := service.base :: service.ports.map fun port => service.base ++ "_" ++ port
  vars.filter fun key _ =>
    !names.any fun name => key = "SERVICE_URL_" ++ name || key = "SERVICE_FQDN_" ++ name

/-- The variables of the service after `updateCompose`; an error leaves what is
written until then. -/
def updateCompose (environment : Value) (fqdn : Option String)
    (vars : OrderedMap String String) : OrderedMap String String :=
  match setup.templateVariableNames environment with
  | none => vars
  | some names =>
      (setup.pairs fqdn names).foldl ServicePair.write
        ((setup.serviceNamesToProcess names).foldl deleteService vars)

end UrlSetup

/-! ## What is documented of URLs -/

/-- The text is read as a port. -/
def IsPort (text : String) : Prop :=
  ctypeDigit text = true ∧ text.toList.length ≤ 5 ∧ digitsValue text.toList < 65536

instance (text : String) : Decidable (IsPort text) :=
  inferInstanceAs (Decidable (_ ∧ _ ∧ _))

/-- No character of the text ends a host. -/
def IsHost (text : String) : Prop :=
  text ≠ "" ∧ ∀ c ∈ text.toList, c ≠ '/' ∧ c ≠ '?' ∧ c ≠ '#' ∧ c ≠ '@'

instance (text : String) : Decidable (IsHost text) :=
  decidable_of_iff
    (text ≠ "" ∧ (text.toList.all fun c => c != '/' && c != '?' && c != '#' && c != '@') = true)
    (by simp [IsHost, and_assoc])

/-- What `Url::fromString` is documented to do, which `parse_url` does for it: a text
is split at `://`, at the port and at the path, where there is none it is `/`, and a
number that is no port makes a text no URL. -/
structure UrlSetup.SplitsUrls (setup : UrlSetup) : Prop where
  parts : ∀ text url, setup.fromString text = some url → url.scheme ≠ "" → url.host ≠ "" →
    setup.isScheme url.scheme = true ∧ IsHost url.host ∧
      (url.path = "" ∨ url.path.toList.head? = some '/')
  joined : ∀ scheme host port, setup.isScheme scheme = true → IsHost host → IsPort port →
    setup.fromString (scheme ++ "://" ++ host ++ ":" ++ port) =
      some ⟨scheme, host, some (digitsValue port.toList), "/"⟩
  noPort : ∀ scheme host digits, setup.isScheme scheme = true → IsHost host →
    ctypeDigit digits = true → ¬ IsPort digits →
    setup.fromString (scheme ++ "://" ++ host ++ ":" ++ digits) = none

/-! ## Which pairs are valid -/

/-- The URL is the domain with the port, and so is what stands without a scheme. -/
structure ServicePair.Valid (setup : UrlSetup) (domain : ServiceUrl) (port : String)
    (pair : ServicePair) : Prop where
  url : ∃ url, setup.fromString pair.url = some url ∧ url.scheme = domain.scheme ∧
    url.host = domain.host ∧ url.port = some (digitsValue port.toList) ∧
    barePath url.path = barePath domain.path
  fqdn : pair.fqdn = domain.host ++ ":" ++ port ++ barePath domain.path

namespace UrlSetup

variable {setup : UrlSetup}

section Ports

/-- All ports of the names are digits. -/
def PortsNumeric (services : OrderedMap String ServiceNames) : Prop :=
  ∀ e ∈ services.entries, ∀ port ∈ e.2.ports, ctypeDigit port = true

theorem portsNumeric_processVariable {services : OrderedMap String ServiceNames}
    (h : PortsNumeric services) (name : String) :
    PortsNumeric (setup.processVariable services name) := by
  rw [processVariable]
  cases hname : serviceNameOf name (setup.parseServiceEnvironmentVariable name).hasPort with
  | none => exact h
  | some serviceName =>
      intro e he port hport
      rcases OrderedMap.mem_set.mp he with rfl | ⟨hold, -⟩
      · rcases List.mem_append.mp hport with hport | hport
        · cases hget : services.get? (setup.lower serviceName) with
          | none => simp [hget] at hport
          | some service =>
              rw [hget, Option.getD_some] at hport
              exact h _ (OrderedMap.get?_eq_some_iff.mp hget) port hport
        · obtain ⟨hparsed, -⟩ := Option.filter_eq_some_iff.mp (Option.mem_toList.mp hport)
          rw [parseServiceEnvironmentVariable, Option.ite_none_right_eq_some] at hparsed
          exact Option.some.inj hparsed.2 ▸ hparsed.1
      · exact h e hold port hport

theorem portsNumeric_names {names : List String} {service : ServiceNames}
    (h : service ∈ setup.serviceNamesToProcess names) :
    ∀ port ∈ service.ports, ctypeDigit port = true := by
  have hfold : ∀ (names : List String) (services : OrderedMap String ServiceNames),
      PortsNumeric services → PortsNumeric (names.foldl setup.processVariable services) := by
    intro names
    induction names with
    | nil => exact fun _ h => h
    | cons name names ih => exact fun services h => ih _ (portsNumeric_processVariable h name)
  obtain ⟨e, he, rfl⟩ := List.mem_map.mp h
  exact hfold names .empty (fun e he => absurd he List.not_mem_nil) e he

theorem ctypeDigit_toString (n : Nat) : ctypeDigit (toString n) = true := by
  have hdigits : (toString n).toList = Nat.toDigits 10 n := Nat.toList_repr
  rw [ctypeDigit, hdigits, Bool.and_eq_true, List.all_eq_true]
  exact ⟨by simp [Nat.toDigits_ne_nil], fun c hc => isDigit_of_mem_toDigits hc⟩

theorem ctypeDigit_allPorts {service : ServiceNames} {port : Option Nat}
    (h : ∀ p ∈ service.ports, ctypeDigit p = true) :
    ∀ p ∈ allPorts service port, ctypeDigit p = true := by
  intro p hp
  rcases List.mem_append.mp hp with hp | hp
  · exact h p (List.mem_eraseDups.mp hp)
  · obtain ⟨n, -, rfl⟩ := Option.map_eq_some_iff.mp (Option.mem_toList.mp hp)
    exact ctypeDigit_toString n

end Ports

/-- What a pair with a port is made of. -/
theorem eq_of_mem_pairs {fqdn : Option String} {names : List String} {pair : ServicePair}
    {port : String} {domain : ServiceUrl}
    (hdomain : setup.fromString (firstDomainFromList fqdn) = some domain)
    (hpair : pair ∈ setup.pairs fqdn names) (hport : pair.port = some port) :
    ctypeDigit port = true ∧
      pair.url = setup.getFqdnWithoutPort (firstDomainFromList fqdn) ++ ":" ++ port ∧
      pair.fqdn = setup.getHostWithoutPort (firstDomainFromList fqdn) ++ ":" ++ port := by
  rw [pairs] at hpair
  split at hpair
  · simp only [hdomain] at hpair
    obtain ⟨service, hservice, hpair⟩ := List.mem_flatMap.mp hpair
    rcases List.mem_cons.mp hpair with rfl | hpair
    · cases hport
    · obtain ⟨p, hp, rfl⟩ := List.mem_map.mp hpair
      cases hport
      exact ⟨ctypeDigit_allPorts (portsNumeric_names hservice) _ hp, rfl, rfl⟩
  · exact absurd hpair List.not_mem_nil

/-! ### What stands in the variables -/

theorem mem_write {vars : OrderedMap String String} {pair : ServicePair} {e : String × String}
    (h : e ∈ (pair.write vars).entries) :
    e = (pair.urlKey, pair.url) ∨ e = (pair.fqdnKey, pair.fqdn) ∨ e ∈ vars.entries := by
  rcases OrderedMap.mem_set.mp h with rfl | ⟨h, -⟩
  · exact .inr (.inl rfl)
  · rcases OrderedMap.mem_set.mp h with rfl | ⟨h, -⟩
    · exact .inl rfl
    · exact .inr (.inr h)

theorem mem_foldl_write {pairs : List ServicePair} {vars : OrderedMap String String}
    {e : String × String} (h : e ∈ (pairs.foldl ServicePair.write vars).entries) :
    e ∈ vars.entries ∨
      ∃ pair ∈ pairs, e = (pair.urlKey, pair.url) ∨ e = (pair.fqdnKey, pair.fqdn) := by
  induction pairs generalizing vars with
  | nil => exact .inl h
  | cons pair pairs ih =>
      rcases ih h with h | ⟨other, hother, h⟩
      · rcases mem_write h with h | h | h
        · exact .inr ⟨pair, List.mem_cons_self .., .inl h⟩
        · exact .inr ⟨pair, List.mem_cons_self .., .inr h⟩
        · exact .inl h
      · exact .inr ⟨other, List.mem_cons_of_mem _ hother, h⟩

theorem mem_foldl_deleteService {services : List ServiceNames} {vars : OrderedMap String String}
    {e : String × String} (h : e ∈ (services.foldl deleteService vars).entries) :
    e ∈ vars.entries := by
  induction services generalizing vars with
  | nil => exact h
  | cons service services ih => exact (List.mem_filter.mp (ih h)).1

/-- A variable after `updateCompose` is one that it has written, or an old one. -/
theorem mem_updateCompose {environment : Value} {fqdn : Option String} {names : List String}
    {vars : OrderedMap String String} {e : String × String}
    (hnames : setup.templateVariableNames environment = some names)
    (h : e ∈ (setup.updateCompose environment fqdn vars).entries) :
    e ∈ vars.entries ∨ ∃ pair ∈ setup.pairs fqdn names,
      e = (pair.urlKey, pair.url) ∨ e = (pair.fqdnKey, pair.fqdn) := by
  rw [updateCompose, hnames] at h
  exact (mem_foldl_write h).imp_left mem_foldl_deleteService

/-! ### When they are valid -/

theorem head_barePath {path : String} (h : path = "" ∨ path.toList.head? = some '/') :
    barePath path = "" ∨ (barePath path).toList.head? = some '/' := by
  rw [barePath]
  split
  · exact .inl rfl
  · next hne => exact h.imp_left fun hempty => absurd (.inl hempty) hne

/-- A service domain without its port. -/
theorem withoutPort {fqdn : String} {domain : ServiceUrl}
    (hdomain : setup.fromString fqdn = some domain) (hscheme : domain.scheme ≠ "")
    (hhost : domain.host ≠ "") :
    setup.getFqdnWithoutPort fqdn = domain.scheme ++ "://" ++ domain.host ++ barePath domain.path ∧
      setup.getHostWithoutPort fqdn = domain.host ++ barePath domain.path := by
  have hparts : setup.parseDomainUrlParts fqdn =
      some ⟨domain.scheme, domain.host, barePath domain.path⟩ := by
    rw [parseDomainUrlParts, hdomain, Option.bind_some, if_neg hhost]
  rw [getFqdnWithoutPort, getHostWithoutPort, hparts]
  exact ⟨if_neg hscheme, rfl⟩

/-- The variables with a port are valid if and only if the domain has no path and the
number is a port. -/
theorem pair_valid_iff (h : setup.SplitsUrls) {fqdn : Option String} {names : List String}
    {pair : ServicePair} {port : String} {domain : ServiceUrl}
    (hdomain : setup.fromString (firstDomainFromList fqdn) = some domain)
    (hscheme : domain.scheme ≠ "") (hhost : domain.host ≠ "")
    (hpair : pair ∈ setup.pairs fqdn names) (hport : pair.port = some port) :
    pair.Valid setup domain port ↔ barePath domain.path = "" ∧ IsPort port := by
  obtain ⟨hdigits, hurl, hfqdn⟩ := eq_of_mem_pairs hdomain hpair hport
  obtain ⟨hurlValue, hfqdnValue⟩ := withoutPort hdomain hscheme hhost
  obtain ⟨hvalid, hishost, hpath⟩ := h.parts _ _ hdomain hscheme hhost
  rw [hurlValue] at hurl
  rw [hfqdnValue] at hfqdn
  constructor
  · rintro ⟨⟨url, hfrom, -⟩, hvalue⟩
    have hbare : barePath domain.path = "" := by
      rw [hfqdn] at hvalue
      simp only [String.append_assoc, String.append_right_inj] at hvalue
      rcases head_barePath hpath with hbare | hhead
      · exact hbare
      · have hheads := congrArg (fun s => s.toList.head?) hvalue
        simp [hhead] at hheads
    refine ⟨hbare, ?_⟩
    by_contra hnot
    rw [hurl, hbare, String.append_empty, h.noPort _ _ _ hvalid hishost hdigits hnot] at hfrom
    cases hfrom
  · rintro ⟨hbare, hisport⟩
    rw [hbare, String.append_empty] at hurl hfqdn
    have hfrom := h.joined _ _ _ hvalid hishost hisport
    rw [← hurl] at hfrom
    refine ⟨⟨_, hfrom, rfl, rfl, rfl, hbare.symm⟩, ?_⟩
    rw [hfqdn, hbare, String.append_empty]

end UrlSetup

/-! ### Domains with a path, and without one -/

/-- The text behind the scheme, split at the path and at the port. -/
def splitHost (scheme : String) (rest : List Char) : Option ServiceUrl :=
  let authority := rest.takeWhile (· ≠ '/')
  let path := rest.dropWhile (· ≠ '/')
  let url := fun (host : List Char) (port : Option Nat) =>
    if IsHost (String.ofList host) then
      some ⟨scheme, String.ofList host, port, if path = [] then "/" else String.ofList path⟩
    else none
  match cutLast ':' authority with
  | none => url authority none
  | some (host, port) =>
      if IsPort (String.ofList port) then url host (some (digitsValue port)) else none

/-- URLs over HTTP without a user, a query and a fragment. -/
def webUrls : UrlSetup where
  fromString text :=
    match cut "://".toList text.toList with
    | some (scheme, rest) =>
        if scheme = "http".toList ∨ scheme = "https".toList then
          splitHost (String.ofList scheme) rest
        else none
    | none => none
  isScheme scheme := scheme = "http" || scheme = "https"
  lower := strtolower
  strTrimmed := isTrimmed

theorem isScheme_webUrls {scheme : String} :
    webUrls.isScheme scheme = true ↔ scheme = "http" ∨ scheme = "https" := by
  show (decide (scheme = "http") || decide (scheme = "https")) = true ↔ _
  rw [Bool.or_eq_true, decide_eq_true_eq, decide_eq_true_eq]

theorem fromString_webUrls {scheme : String} (hscheme : webUrls.isScheme scheme = true)
    (rest : String) :
    webUrls.fromString (scheme ++ "://" ++ rest) = splitHost scheme rest.toList := by
  have hcut : cut "://".toList (scheme ++ "://" ++ rest).toList =
      some (scheme.toList, rest.toList) := by
    rw [String.toList_append, String.toList_append]
    obtain rfl | rfl := isScheme_webUrls.mp hscheme
    all_goals simp [cut, List.isPrefixOf]
  have hlist : scheme.toList = "http".toList ∨ scheme.toList = "https".toList := by
    rw [String.toList_inj, String.toList_inj]
    exact isScheme_webUrls.mp hscheme
  simp only [webUrls, hcut]
  rw [if_pos hlist, String.ofList_toList]

theorem ne_of_isDigit {c x : Char} (hc : c.isDigit = true) (hx : x.isDigit = false) : c ≠ x := by
  rintro rfl
  rw [hc] at hx
  cases hx

theorem splitHost_joined (scheme : String) {host digits : String} (hhost : IsHost host)
    (hdigits : ctypeDigit digits = true) :
    splitHost scheme (host ++ ":" ++ digits).toList =
      if IsPort digits then some ⟨scheme, host, some (digitsValue digits.toList), "/"⟩
      else none := by
  have hall : ∀ c ∈ digits.toList, c.isDigit = true :=
    List.all_eq_true.mp (Bool.and_eq_true_iff.mp hdigits).2
  have htext : (host ++ ":" ++ digits).toList = host.toList ++ ':' :: digits.toList := by
    simp
  have hslash : ∀ c ∈ host.toList ++ ':' :: digits.toList, decide (c ≠ '/') = true := by
    intro c hc
    rcases List.mem_append.mp hc with hc | hc
    · exact decide_eq_true (hhost.2 c hc).1
    · rcases List.mem_cons.mp hc with rfl | hc
      · rfl
      · exact decide_eq_true (ne_of_isDigit (hall c hc) rfl)
  have hcolon : ':' ∉ digits.toList := fun hc => ne_of_isDigit (hall _ hc) rfl rfl
  rw [htext, splitHost, List.takeWhile_eq_self_iff.mpr hslash,
    List.dropWhile_eq_nil_iff.mpr hslash, cutLast_append hcolon]
  simp [hhost]

theorem splitHost_parts {scheme : String} {rest : List Char} {url : ServiceUrl}
    (h : splitHost scheme rest = some url) :
    url.scheme = scheme ∧ IsHost url.host ∧ url.path.toList.head? = some '/' := by
  have hurl : ∀ (host : List Char) (port : Option Nat),
      (if IsHost (String.ofList host) then
        some (ServiceUrl.mk scheme (String.ofList host) port
          (if rest.dropWhile (· ≠ '/') = [] then "/"
            else String.ofList (rest.dropWhile (· ≠ '/')))) else none) = some url →
      url.scheme = scheme ∧ IsHost url.host ∧ url.path.toList.head? = some '/' := by
    intro host port h
    obtain ⟨hhost, h⟩ := Option.ite_none_right_eq_some.mp h
    obtain rfl := Option.some.inj h
    refine ⟨rfl, hhost, ?_⟩
    have hhead := List.head?_dropWhile_not (fun c : Char => decide (c ≠ '/')) rest
    cases hpath : rest.dropWhile (fun c : Char => decide (c ≠ '/')) with
    | nil => simp
    | cons c cs =>
        rw [hpath] at hhead
        simpa [hpath] using hhead
  rw [splitHost] at h
  split at h
  · exact hurl _ _ h
  · obtain ⟨-, h⟩ := Option.ite_none_right_eq_some.mp h
    exact hurl _ _ h

theorem splitsUrls_webUrls : webUrls.SplitsUrls where
  parts text url h _ _ := by
    simp only [webUrls] at h
    split at h
    · next scheme rest hcut =>
        obtain ⟨hlist, h⟩ := Option.ite_none_right_eq_some.mp h
        obtain ⟨hscheme, hhost, hpath⟩ := splitHost_parts h
        refine ⟨?_, hhost, .inr hpath⟩
        rw [hscheme]
        refine isScheme_webUrls.mpr ?_
        rcases hlist with rfl | rfl
        · exact .inl String.ofList_toList
        · exact .inr String.ofList_toList
    · cases h
  joined scheme host port hscheme hhost hport := by
    have htext : scheme ++ "://" ++ host ++ ":" ++ port =
        scheme ++ "://" ++ (host ++ ":" ++ port) := by
      simp only [String.append_assoc]
    rw [htext, fromString_webUrls hscheme, splitHost_joined scheme hhost hport.1, if_pos hport]
  noPort scheme host digits hscheme hhost hdigits hnot := by
    have htext : scheme ++ "://" ++ host ++ ":" ++ digits =
        scheme ++ "://" ++ (host ++ ":" ++ digits) := by
      simp only [String.append_assoc]
    rw [htext, fromString_webUrls hscheme, splitHost_joined scheme hhost hdigits, if_neg hnot]

theorem realtime_port_valid :
    ServicePair.Valid webUrls ⟨"http", "git.example.com", some 80, "/"⟩ "3000"
        ⟨"REALTIME", some "3000", "http://git.example.com:3000", "git.example.com:3000"⟩ ↔
      barePath "/" = "" ∧ IsPort "3000" :=
  @UrlSetup.pair_valid_iff webUrls splitsUrls_webUrls (some "http://git.example.com:80")
    ["SERVICE_URL_REALTIME_3000"] _ "3000" ⟨"http", "git.example.com", some 80, "/"⟩
    (by decide +kernel) (by decide) (by decide) (by decide +kernel) rfl

/-- The URL is `http://git.example.com/v1/realtime:3000`. -/
theorem port_behind_path :
    ¬ ∀ (setup : UrlSetup) (fqdn : Option String) (names : List String) (domain : ServiceUrl)
      (pair : ServicePair) (port : String), setup.SplitsUrls →
      setup.fromString (firstDomainFromList fqdn) = some domain → domain.scheme ≠ "" →
      domain.host ≠ "" → IsPort port → pair ∈ setup.pairs fqdn names → pair.port = some port →
      pair.Valid setup domain port := by
  intro h
  have hvalid := h webUrls (some "http://git.example.com:80/v1/realtime")
    ["SERVICE_URL_REALTIME_3000"] ⟨"http", "git.example.com", some 80, "/v1/realtime"⟩
    ⟨"REALTIME", some "3000", "http://git.example.com/v1/realtime:3000",
      "git.example.com/v1/realtime:3000"⟩ "3000" splitsUrls_webUrls (by decide +kernel)
    (by decide) (by decide) (by decide +kernel) (by decide +kernel) rfl
  exact absurd hvalid.fqdn (by decide +kernel)

end OnePloy
