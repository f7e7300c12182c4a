import OnePloy.Lib.IpAddress

/-!
# SafeWebhookUrl

The rule that webhook addresses are validated by, and the options that a request
to one is made with. Both look the host up and ask `isAllowedIp` of every answer,
in their own order: `validate` when the address is saved, `resolveUrlForRequest`
when it is used.

What DNS answers is a parameter of the rule, and a URL is what PHP takes it apart
into.
-/

namespace OnePloy

open Php Net

/-! ## Values -/

/-- `normalizeHostForIpCheck`. -/
def normalizeHostForIpCheck (host : String) : String :=
  if strStartsWith host "[" && strEndsWith host "]" then
    String.ofList (host.toList.drop 1).dropLast
  else host

/-- What `FILTER_VALIDATE_URL` and `parse_url` say of a text. In a valid URL over
HTTP only an IPv6 address stands in brackets. -/
structure PhpUrl where
  isValid : Bool
  scheme : Option String
  host : Option String
  port : Option Nat
  brackets : isValid = true → ["https", "http"].contains (strtolower (scheme.getD "")) = true →
    ∀ h, host = some h → normalizeHostForIpCheck (strtolower h) ≠ strtolower h →
      ∃ bits, inetPton (normalizeHostForIpCheck (strtolower h)) = some (.v6 bits)

/-- A text that `FILTER_VALIDATE_IP` lets through, with the address it denotes. -/
structure IpText where
  text : String
  addr : IpAddr
  valid : inetPton text = some addr

def ipText? (text : String) : Option IpText :=
  match h : inetPton text with
  | none => none
  | some addr => some ⟨text, addr, h⟩

/-- `webhook_allowed_internal_hosts`. -/
inductive AllowedHosts
  | text (s : String)
  | list (entries : List String)
  | other

structure WebhookSettings where
  allowedInternalHosts : AllowedHosts
  allowLocalhost : Bool
  customDnsServers : String

/-- The rule, with what it finds when it is used: the settings, unless they cannot
be read, and what DNS answers. -/
structure SafeWebhookUrl where
  resolver : Option (String → List String)
  trustedInternalHosts : List String
  instanceSettings : Option WebhookSettings
  systemDns : String → List String
  /-- By server and host. -/
  customDns : String → String → List String
  settingsUrl : String

/-! ## Ranges -/

/-- `$ipLong & $mask` on both sides, in 64 bits. -/
def ipv4InCidr (ip : BitVec 32) (cidr : String) : Bool :=
  let parts := explodeOnce '/' cidr
  match parts.2.bind numericInt? with
  | none => false
  | some length =>
      if length < 0 ∨ 32 < length then false
      else match inetPton parts.1 with
        | some (.v4 network) =>
            let mask := if length = 0 then 0 else (-1 : BitVec 64) <<< (32 - length.toNat)
            ip.setWidth 64 &&& mask == network.setWidth 64 &&& mask
        | _ => false

def binaryInCidr (ipBytes networkBytes : List (BitVec 8)) (length : Nat) : Bool :=
  let bytes := length / 8
  let bits := length % 8
  if 0 < bytes ∧ ipBytes.take bytes ≠ networkBytes.take bytes then false
  else if bits = 0 then true
  else
    let mask := 0xFF#8 <<< (8 - bits)
    (ipBytes[bytes]?).getD 0 &&& mask == (networkBytes[bytes]?).getD 0 &&& mask

def ipInCidr (ip : IpAddr) (cidr : String) : Bool :=
  let parts := explodeOnce '/' cidr
  match parts.2.bind numericInt? with
  | none => false
  | some length =>
      match ip, inetPton parts.1 with
      | .v4 ip, some (.v4 _) => ipv4InCidr ip cidr
      | .v6 ip, some (.v6 network) =>
          if length < 0 ∨ 128 < length then false
          else binaryInCidr (packed ip) (packed network) length.toNat
      | _, _ => false

/-- The ranges that `FILTER_FLAG_NO_PRIV_RANGE` excludes. -/
def privateRanges : List String :=
  ["10.0.0.0/8", "172.16.0.0/12", "192.168.0.0/16", "fc00::/7"]

/-- The ranges that `FILTER_FLAG_NO_RES_RANGE` excludes. -/
def reservedRanges : List String :=
  ["0.0.0.0/8", "127.0.0.0/8", "169.254.0.0/16", "240.0.0.0/4", "::1/128", "::/128",
    "::ffff:0:0/96", "fe80::/10"]

/-- The ranges of `isSpecialUseIpv4`. -/
def specialUseIpv4 : List String :=
  ["0.0.0.0/8", "100.64.0.0/10", "127.0.0.0/8", "169.254.0.0/16", "192.0.0.0/24", "192.0.2.0/24",
    "198.18.0.0/15", "198.51.100.0/24", "203.0.113.0/24", "224.0.0.0/4", "240.0.0.0/4",
    "255.255.255.255/32"]

/-- The ranges of `isSpecialUseIpv6`. -/
def specialUseIpv6 : List String :=
  ["::/128", "::1/128", "::ffff:0:0/96", "64:ff9b::/96", "100::/64", "2001::/23", "2001:2::/48",
    "2001:db8::/32", "2002::/16", "fc00::/7", "fe80::/10", "ff00::/8"]

/-! ## Addresses -/

/-- `extractIpv4FromMappedIpv6`. -/
def extractIpv4FromMappedIpv6 : IpAddr → Option IpAddr
  | .v4 _ => none
  | .v6 ip =>
      if (packed ip).take 12 = List.replicate 10 0 ++ [0xFF, 0xFF] then
        some (.v4 (ip.extractLsb' 0 32))
      else none

/-- `isSpecialUseIpv6`. -/
def isSpecialUseIpv6 (ip : BitVec 128) : Bool :=
  specialUseIpv6.any fun cidr =>
    let parts := explodeOnce '/' cidr
    match inetPton parts.1 with
    | some (.v6 network) =>
        binaryInCidr (packed ip) (packed network) ((parts.2.bind numericInt?).getD 0).toNat
    | _ => false

def isLinkLocalIp : IpAddr → Bool
  | .v4 ip => ipv4InCidr ip "169.254.0.0/16"
  | .v6 ip => ipInCidr (.v6 ip) "fe80::/10"

def isSpecialUseIp : IpAddr → Bool
  | .v4 ip => specialUseIpv4.any (ipv4InCidr ip)
  | .v6 ip => isSpecialUseIpv6 ip

def isPublicIp (ip : IpAddr) : Bool :=
  let ip := (extractIpv4FromMappedIpv6 ip).getD ip
  !(privateRanges ++ reservedRanges).any (ipInCidr ip) && !isSpecialUseIp ip

def isLocalhostIp (ip : IpAddr) : Bool :=
  match (extractIpv4FromMappedIpv6 ip).getD ip with
  | .v4 ip => ipv4InCidr ip "127.0.0.0/8"
  | .v6 ip => some (.v6 ip) == inetPton "::1"

def isPrivateIp (ip : IpAddr) : Bool :=
  privateRanges.any (ipInCidr ((extractIpv4FromMappedIpv6 ip).getD ip))

def isBlockedHostname (host : String) : Bool :=
  host == "localhost" || strEndsWith host ".local" || strEndsWith host ".internal" ||
    strEndsWith host ".cluster.local"

namespace SafeWebhookUrl

variable (rule : SafeWebhookUrl)

def allowlistEntries : List String :=
  let entries := match rule.instanceSettings.map (·.allowedInternalHosts) with
    | some (.text s) => explode ',' s
    | some (.list entries) => entries
    | _ => []
  (entries.map fun entry => rtrimChar '.' (strtolower (trim entry))).filter
    fun entry => entry != "" && entry != "0"

def allowLocalhost : Bool := rule.instanceSettings.any (·.allowLocalhost)

def isAllowedHostname (host : String) : Bool :=
  (rule.trustedInternalHosts.map strtolower).contains host ||
    rule.allowlistEntries.any fun entry => !strContains entry "/" && strtolower entry == host

def isAllowlistedIp (ip : IpAddr) : Bool :=
  rule.allowlistEntries.any fun entry =>
    if strContains entry "/" then ipInCidr ip entry else inetPton entry == some ip

def isAllowedIp (ip : IpAddr) (host : String) : Bool :=
  let ip := (extractIpv4FromMappedIpv6 ip).getD ip
  if isLinkLocalIp ip then false
  else if isPublicIp ip then true
  else if isLocalhostIp ip then
    rule.allowLocalhost && (rule.isAllowedHostname host || rule.isAllowlistedIp ip)
  else if isPrivateIp ip then rule.isAllowedHostname host || rule.isAllowlistedIp ip
  else rule.isAllowlistedIp ip

/-! ## Names -/

def customDnsServers : List String :=
  match rule.instanceSettings with
  | none => []
  | some settings => ((explode ',' settings.customDnsServers).map trim).filter
      fun server => (inetPton server).isSome

/-- `array_values(array_unique($ips))`, of those that are addresses. -/
def uniqueIps (ips : List String) : List IpText := ips.eraseDups.filterMap ipText?

def resolveHost (host : String) : List IpText :=
  match rule.resolver with
  | some resolver => (resolver host).filterMap ipText?
  | none =>
      if host = "localhost" then ["127.0.0.1", "::1"].filterMap ipText?
      else
        let custom := uniqueIps (rule.customDnsServers.flatMap fun server =>
          rule.customDns server host)
        if custom.isEmpty then uniqueIps (rule.systemDns host) else custom

/-! ## validate -/

def privateTargetMessage (attr : String) : String :=
  "The " ++ attr ++ " points to a local or private address that is not allowed. " ++
    "Configure allowed internal targets: " ++ rule.settingsUrl ++ "#endpoint-section"

/-- The loop over the resolved addresses. -/
def firstBlocked (ips : List IpText) (host : String) : Option IpText :=
  ips.find? fun ip => !rule.isAllowedIp ip.addr host

/-- The message it fails with, if it does. -/
def validate (attr : String) (url : PhpUrl) : Option String :=
  if !url.isValid then some "The :attribute must be a valid URL."
  else
    let scheme := strtolower (url.scheme.getD "")
    if !(["https", "http"].contains scheme) then
      some "The :attribute must use the http or https scheme."
    else
      let host := url.host.getD ""
      if host = "" ∨ host = "0" then some "The :attribute must contain a valid host."
      else if strEndsWith host "." then
        some "The :attribute host must not end with a trailing dot."
      else
        let hostForIpCheck := normalizeHostForIpCheck (strtolower host)
        let hostForDns := rtrimChar '.' hostForIpCheck
        if isBlockedHostname hostForDns && !rule.isAllowedHostname hostForDns then
          some (rule.privateTargetMessage attr)
        else match inetPton hostForIpCheck with
          | some ip =>
              if rule.isAllowedIp ip hostForDns then none
              else some (if isLinkLocalIp ip then
                "The :attribute must not point to link-local addresses."
              else rule.privateTargetMessage attr)
          | none =>
              let resolvedIps := rule.resolveHost hostForDns
              if resolvedIps.isEmpty then some "The :attribute host could not be resolved."
              else (rule.firstBlocked resolvedIps hostForDns).map fun ip =>
                if isLinkLocalIp ip.addr then
                  "The :attribute must not resolve to a link-local address."
                else rule.privateTargetMessage attr

/-! ## Requests -/

structure RequestTarget where
  host : String
  port : Nat
  ips : List IpText

/-- `new self(trustedInternalHosts: $trustedInternalHosts)`. -/
def forRequest : SafeWebhookUrl := { rule with resolver := none }

def resolveUrlForRequest (url : PhpUrl) : Except String RequestTarget :=
  let host := url.host.getD ""
  if host = "" then .error "Webhook URL host could not be resolved."
  else if strEndsWith host "." then .error "Webhook URL host must not end with a trailing dot."
  else
    let scheme := strtolower (url.scheme.getD "")
    let port := (url.port.filter (· ≠ 0)).getD (if scheme = "https" then 443 else 80)
    let hostForDns := rtrimChar '.' (normalizeHostForIpCheck (strtolower host))
    match inetPton hostForDns with
    | some ip =>
        if rule.forRequest.isAllowedIp ip hostForDns then .ok ⟨hostForDns, port, []⟩
        else .error "Webhook URL resolved to an unsafe IP address."
    | none =>
        let resolvedIps := rule.forRequest.resolveHost hostForDns
        if resolvedIps.isEmpty then .error "Webhook URL host could not be resolved."
        else if (rule.forRequest.firstBlocked resolvedIps hostForDns).isSome then
          .error "Webhook URL resolved to an unsafe IP address."
        else .ok ⟨hostForDns, port, resolvedIps⟩

structure HttpClientOptions where
  allowRedirects : Bool
  /-- `CURLOPT_RESOLVE`. -/
  curlResolve : Option (List String)

def pinnedAddress (ip : IpText) : String :=
  if ip.addr.isV6 then "[" ++ ip.text ++ "]" else ip.text

/-- `hasCurlResolve` is `defined('CURLOPT_RESOLVE')`. -/
def httpClientOptions (hasCurlResolve : Bool) (url : PhpUrl) : Except String HttpClientOptions :=
  if !hasCurlResolve then .error "Webhook URL DNS pinning is unavailable."
  else do
    let target ← rule.resolveUrlForRequest url
    if target.ips.isEmpty || (inetPton target.host).isSome then pure ⟨false, none⟩
    else
      let addresses := ",".intercalate (target.ips.map pinnedAddress)
      pure ⟨false, some [target.host ++ ":" ++ toString target.port ++ ":" ++ addresses]⟩

end SafeWebhookUrl

end OnePloy
