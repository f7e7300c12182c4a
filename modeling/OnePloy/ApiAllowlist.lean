import OnePloy.Lib.Elimination
import OnePloy.Lib.IpText
import OnePloy.Lib.PhpNumber

/-!
# The allow-list of the API

Entries are addresses and blocks of either family; `0.0.0.0`, alone or with any
subnet, stands for everyone. `ValidIpOrCidr.validate` says which texts the settings
form accepts, `checkIPAgainstAllowlist` which clients a list lets in,
`ApiAllowed.handle` which requests go on, and `deduplicateAllowlist` drops the
entries that another one makes redundant.
-/

namespace OnePloy

open Php Net

/-- `empty($s)`. -/
def emptyText (s : String) : Bool := !(Value.string s).truthy

/-- `filter_var($ip, FILTER_VALIDATE_IP, FILTER_FLAG_IPV6) !== false`. -/
def isIpv6 (ip : String) : Bool := (inetPton ip).any IpAddr.isV6

def maxMask (ip : String) : Nat := if isIpv6 ip then 128 else 32

/-! ## ValidIpOrCidr -/

namespace ValidIpOrCidr

/-- The entry goes to `$invalidEntries`. -/
def isInvalid (entry : String) : Bool :=
  if emptyText entry then false
  else if strStartsWith entry "0.0.0.0" then false
  else if strContains entry "/" then
    match explode '/' entry with
    | [ip, mask] =>
        !(inetPton ip).isSome || !isNumeric mask || decide (numericValue mask < 0) ||
          decide ((maxMask ip : ℚ) < numericValue mask)
    | _ => true
  else !(inetPton entry).isSome

/-- What `$fail` is called with. -/
def validate (value : String) : Option String :=
  if emptyText value then none
  else if value = "0.0.0.0" then none
  else
    let invalidEntries := ((explode ',' value).map trim).filter isInvalid
    if invalidEntries.isEmpty then none
    else
      some ("The following entries are not valid IP addresses or CIDR notations: " ++
        ", ".intercalate invalidEntries)

end ValidIpOrCidr

/-! ## checkIPAgainstAllowlist -/

/-- `[$subnet, $mask] = explode('/', $allowed)`, of a text with a slash. -/
def subnetAndMask (allowed : String) : String × String :=
  match explode '/' allowed with
  | subnet :: mask :: _ => (subnet, mask)
  | _ => (allowed, "")

/-- `inet_pton`, as the bytes that it gives. -/
def packedIp (ip : String) : Option (List (BitVec 8)) :=
  (inetPton ip).map fun
    | .v4 bits => (List.range 4).map fun k => bits.extractLsb' (8 * (3 - k)) 8
    | .v6 bits => packed bits

def ip2long (ip : String) : Option (BitVec 64) := (ipv4? ip.toList).map (BitVec.setWidth 64)

/-- `$maskBin`. -/
def maskBytes (mask : Nat) : List (BitVec 8) :=
  let bytes := List.replicate (mask / 8) 0xFF#8
  let remainder := mask % 8
  let bytes := if 0 < remainder then bytes ++ [0xFF#8 &&& (0xFF#8 <<< (8 - remainder))] else bytes
  bytes ++ List.replicate (16 - bytes.length) 0

/-- `&` of two byte strings is as long as the shorter one. -/
def andBytes (xs ys : List (BitVec 8)) : List (BitVec 8) := List.zipWith (· &&& ·) xs ys

/-- The client is in the block. -/
def blockMatches (ip subnet : String) (mask : Int) : Bool :=
  if mask < 0 ∨ (maxMask subnet : Int) < mask then false
  else if isIpv6 subnet then
    match packedIp ip, packedIp subnet with
    | some ipBin, some subnetBin =>
        andBytes ipBin (maskBytes mask.toNat) == andBytes subnetBin (maskBytes mask.toNat)
    | _, _ => false
  else
    match ip2long ip, ip2long subnet with
    | some ipLong, some subnetLong =>
        let maskLong : BitVec 64 := ~~~((1#64 <<< (32 - mask.toNat)) - 1#64)
        ipLong &&& maskLong == subnetLong &&& maskLong
    | _, _ => false

/-- One turn of the loop: the entry lets the client in. -/
def entryMatches (ip allowed : String) : Bool :=
  let allowed := trim allowed
  if emptyText allowed then false
  else if strContains allowed "/" then
    let parts := subnetAndMask allowed
    if parts.1 = "0.0.0.0" then true else blockMatches ip parts.1 (intCast parts.2)
  else if allowed = "0.0.0.0" then true
  else ip == allowed

def checkIPAgainstAllowlist (ip : String) (allowlist : List String) : Bool :=
  allowlist.any (entryMatches ip)

/-! ## ApiAllowed -/

/-- `$settings`, as far as the middleware reads it. -/
structure ApiSettings where
  isApiEnabled : Bool
  allowedIps : Option String

/-- The message of the answer 403, or the request goes on. -/
def ApiAllowed.handle (isCloud : Bool) (settings : ApiSettings) (ip : String) : Option String :=
  if isCloud then none
  else if settings.isApiEnabled = false then some "API is disabled."
  else
    match settings.allowedIps.filter fun text => !emptyText text with
    | none => none
    | some text =>
        if trim text = "0.0.0.0" then none
        else
          let allowedIps := ((explode ',' text).map trim).filter fun entry => !emptyText entry
          if !allowedIps.isEmpty && !checkIPAgainstAllowlist ip allowedIps then
            some "You are not allowed to access the API."
          else none

/-! ## deduplicateAllowlist -/

/-- An entry of `$parsed`. -/
structure ParsedEntry where
  original : String
  ip : String
  mask : Int
deriving DecidableEq

/-- An empty entry is skipped. -/
def parseEntry (entry : String) : Option ParsedEntry :=
  let entry := trim entry
  if emptyText entry then none
  else if entry = "0.0.0.0" then some ⟨entry, "0.0.0.0", 0⟩
  else if strContains entry "/" then
    let parts := subnetAndMask entry
    some ⟨entry, parts.1, intCast parts.2⟩
  else some ⟨entry, entry, maxMask entry⟩

def ParsedEntry.cidr (p : ParsedEntry) : String := p.ip ++ "/" ++ toString p.mask

/-- The test that makes the second entry redundant. -/
def ParsedEntry.covers (p q : ParsedEntry) : Bool :=
  decide (p.mask ≤ q.mask) && checkIPAgainstAllowlist q.ip [p.cidr]

/-- The two loops over `$redundant` are those of the library; the originals of what
they leave are the result. -/
def deduplicateAllowlist (entries : List String) : List String :=
  if entries.length ≤ 1 then entries
  else (Elimination.remaining ParsedEntry.covers (entries.filterMap parseEntry)).map (·.original)

end OnePloy
