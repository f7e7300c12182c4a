import OnePloy.HandoffReserve
import OnePloy.Lib.QueryString

/-!
# HandoffLink

The link that sends a visitor of the marketing site to the checkout. The site signs
what the link says and puts it into the query string as it is; the application takes
the query string apart, trims what it finds, checks the signature over what is left,
and then whether it may be accepted.

WordPress, the hash and the checks of the application's framework are parameters,
with what is known of them beside them.
-/

namespace OnePloy

open Php

/-! ## What both sides use -/

/-- `hash_hmac('sha256', …)`, in hexadecimal digits. -/
structure HmacSha256 where
  digest : Text → Text → Text
  length : ∀ data key, (digest data key).length = 64
  lowerHex : ∀ data key, ∀ c ∈ digest data key, c.isDigit = true ∨ c ∈ "abcdef".toList

/-- A positive integer of 64 bits. -/
def IsId (n : Int) : Prop := 1 ≤ n ∧ n < 2 ^ 63

namespace HandoffPayload

/-- The payload with its keys sorted, without those that are null. -/
def fields (payload : HandoffPayload) : List (Text × Text) :=
  [("campaign".toList, payload.campaign), ("issued_at".toList, decimal payload.issuedAt),
    ("key_id".toList, payload.keyId), ("nonce".toList, payload.nonce),
    ("price_id".toList, decimal payload.priceId), ("provider".toList, payload.provider)] ++
  (payload.returnUrl.map fun url => ("return_url".toList, url)).toList ++
  [("source".toList, payload.source)]

def signature (hmac : HmacSha256) (secret : Text) (payload : HandoffPayload) : Text :=
  hmac.digest (httpBuildQuery payload.fields) secret

end HandoffPayload

/-! ## The site -/

/-- `preg_match('/^[A-Za-z0-9._-]{1,64}$/', $key_id)`, for an identifier in one line. -/
def isKeyIdChar (c : Char) : Bool := c.isAlphanum || c == '.' || c == '_' || c == '-'

/-- A UUID in the form of version 4. -/
def IsUuid (uuid : Text) : Prop :=
  (uuid.filter (· ≠ '-')).length = 32 ∧
    ∀ c ∈ uuid.filter (· ≠ '-'), c.isDigit = true ∨ c ∈ "abcdef".toList

structure BridgeSite where
  secret : Text
  keyId : Text
  appUrl : Text
  sanitizeTextField : Text → Text
  sanitizeKey : Text → Text
  keyId_form : keyId ≠ [] ∧ keyId.length ≤ 64 ∧ ∀ c ∈ keyId, isKeyIdChar c = true
  appUrl_form : '?' ∉ appUrl ∧ '#' ∉ appUrl

namespace BridgeSite

/-- `add_query_arg`, on a URL without arguments. -/
def addQueryArg (arguments : List (Text × Text)) (url : Text) : Text :=
  url ++ '?' :: joinArguments arguments

def provider (site : BridgeSite) (provider : Text) : Text :=
  let provider := site.sanitizeKey provider
  if ["paypal".toList, "stripe".toList, "razorpay".toList].contains provider then provider
  else "paypal".toList

/-- The payload that `signed_checkout_url` signs. -/
def handoff (site : BridgeSite) (priceId : Int) (provider campaign returnUrl : Text) (time : Int)
    (uuid : Text) : HandoffPayload where
  priceId := priceId
  provider := site.provider provider
  issuedAt := time
  nonce := uuid.filter (· ≠ '-')
  keyId := site.keyId
  source := "wordpress".toList
  campaign := (site.sanitizeTextField campaign).take 100
  returnUrl := some returnUrl

/-- `signed_checkout_url`, at some time, with the UUID that is generated. -/
def signedCheckoutUrl (site : BridgeSite) (hmac : HmacSha256) (priceId : Int)
    (provider campaign returnUrl : Text) (time : Int) (uuid : Text) : Except String Text :=
  if site.secret.isEmpty then
    .error "Secure checkout is not configured on this WordPress site."
  else
    let payload := site.handoff priceId provider campaign returnUrl time uuid
    .ok (addQueryArg
      (payload.fields ++ [("signature".toList, payload.signature hmac site.secret)])
      (site.appUrl ++ "/marketing/checkout".toList))

end BridgeSite

/-! ## The application -/

def queryString (url : Text) : Text := ((url.dropWhile (· ≠ '?')).tail).takeWhile (· ≠ '#')

/-- Characters that nothing trims or decodes. -/
def isPlainChar (c : Char) : Bool := c.isAlphanum || c == '-' || c == '_' || c == '.'

/-- The middleware that trims what a request holds. -/
structure TrimStrings where
  trim : Text → Text
  isInfix : ∀ s, trim s <:+: s
  plain : ∀ s, (∀ c ∈ s, isPlainChar c = true) → trim s = s

/-- `filled` of a text. -/
def isFilled (s : Text) : Bool := s.any fun c => !isTrimmed c

/-- The rule `url:https`, which no blank text passes. -/
structure HttpsRule where
  accepts : Text → Bool
  filled : ∀ s, accepts s = true → isFilled s = true

structure UrlParts where
  scheme : Option Text
  host : Option Text
  port : Option Nat

/-- The application: its configuration, and what its framework and its catalogue say. -/
structure HandoffApp where
  secret : Text
  keyId : Text
  marketingUrl : Text
  ttlSeconds : Int
  parseUrl : Text → UrlParts
  trimStrings : TrimStrings
  httpsRule : HttpsRule
  /-- Whether `activePrice` finds the price. -/
  activePrice : Int → Bool

namespace HandoffApp

variable (app : HandoffApp)

/-- `$request->query()[$name]`, when it is there and not null. -/
def input (query : Text) (name : Text) : Option QueryValue :=
  match lastOf name (parseQuery query) with
  | none => none
  | some .array => some .array
  | some (.text s) =>
      let trimmed := app.trimStrings.trim s
      if trimmed.isEmpty then none else some (.text trimmed)

end HandoffApp

/-! ## Rules -/

/-- `mb_strlen`: the bytes that begin a character. -/
def mbStrlen (s : Text) : Nat := s.countP fun c => !(0x80 ≤ c.toNat && c.toNat < 0xC0)

/-- `/^[…]+$/`; a line feed may follow. -/
def isOneOrMore (inClass : Char → Bool) (s : Text) : Bool :=
  let body := if s.getLast? = some '\n' then s.dropLast else s
  !body.isEmpty && body.all inClass

/-- `filter_var($s, FILTER_VALIDATE_INT)`. -/
def filterInt? (s : Text) : Option Int :=
  let isSpace := fun c : Char => c == ' ' || c == '\t' || c == '\n' || c == '\r' || c == '\x0B'
  let body := ((s.dropWhile isSpace).reverse.dropWhile isSpace).reverse
  let signed := takeSign body
  let digits := signed.2
  let n := signed.1 * digitsValue digits
  if digits = [] ∨ digits.any (fun c => !c.isDigit) ∨ (digits.head? = some '0' ∧ digits ≠ ['0']) ∨
      n < -2 ^ 63 ∨ 2 ^ 63 ≤ n then none
  else some n

/-- A required field that must be a text with some property. -/
def requiredText (accepts : Text → Bool) : Option QueryValue → Option Text
  | some (.text s) => if isFilled s && accepts s then some s else none
  | _ => none

/-- `required`, `integer`, `min:1`. -/
def requiredId (value : Option QueryValue) : Option Int :=
  (requiredText (fun _ => true) value).bind fun s =>
    (filterInt? s).bind fun n => if 1 ≤ n then some n else none

/-- A field that may be missing or blank. -/
def nullableText (accepts : Text → Bool) : Option QueryValue → Option (Option Text)
  | none => some none
  | some .array => none
  | some (.text s) => if !isFilled s || accepts s then some (some s) else none

namespace HandoffApp

variable (app : HandoffApp)

def isNonceChar (c : Char) : Bool := c.isAlphanum || c == '_' || c == '-'

/-- `validatedPayload`. -/
def validatedPayload (input : Text → Option QueryValue) (requireSignature : Bool) :
    Option HandoffPayload := do
  let priceId ← requiredId (input "price_id".toList)
  let provider ← requiredText
    (["paypal".toList, "stripe".toList, "razorpay".toList].contains ·) (input "provider".toList)
  let issuedAt ← requiredId (input "issued_at".toList)
  let nonce ← requiredText
    (fun s => decide (16 ≤ mbStrlen s ∧ mbStrlen s ≤ 100) && isOneOrMore isNonceChar s)
    (input "nonce".toList)
  let keyId ← requiredText
    (fun s => decide (mbStrlen s ≤ 64) && isOneOrMore isKeyIdChar s) (input "key_id".toList)
  let source ← requiredText (["wordpress".toList].contains ·) (input "source".toList)
  let campaign ← nullableText (fun s => decide (mbStrlen s ≤ 100)) (input "campaign".toList)
  let returnUrl ← nullableText
    (fun s => app.httpsRule.accepts s && decide (mbStrlen s ≤ 2048)) (input "return_url".toList)
  if requireSignature then
    let _ ← requiredText (fun s => decide (mbStrlen s = 64) && isOneOrMore isHexDigit s)
      (input "signature".toList)
  return {
    priceId := priceId
    provider := provider.map Char.toLower
    issuedAt := issuedAt
    nonce := nonce
    keyId := keyId
    source := source
    campaign := campaign.getD []
    returnUrl := returnUrl.filter isFilled }

/-- `origin`. -/
def origin (url : Text) : Option Text :=
  let parts := app.parseUrl url
  let scheme := (parts.scheme.getD []).map Char.toLower
  let host := (parts.host.getD []).map Char.toLower
  if scheme ≠ "https".toList ∨ host = [] then none
  else
    some (scheme ++ "://".toList ++ host ++
      match parts.port with
      | none => []
      | some port => if port = 0 then [] else ':' :: Nat.toDigits 10 port)

/-- `returnUrlAllowed`. -/
def returnUrlAllowed (returnUrl : Text) : Bool :=
  if app.marketingUrl.isEmpty then false
  else (app.origin returnUrl).isSome &&
    (app.origin app.marketingUrl).getD [] == (app.origin returnUrl).getD []

/-- `assertAcceptable`. -/
def assertAcceptable (payload : HandoffPayload) (now : Int) : Except String HandoffPayload :=
  if payload.issuedAt < timestamp now - bridgeTtl app.ttlSeconds ∨
      timestamp now + 60 < payload.issuedAt then
    .error "The WordPress checkout handoff has expired."
  else if app.keyId ≠ payload.keyId then
    .error "The WordPress checkout handoff key is invalid."
  else if payload.returnUrl.any (fun url => !app.returnUrlAllowed url) then
    .error "The WordPress checkout return URL is not allowed."
  else if !app.activePrice payload.priceId then
    .error "The selected WordPress checkout price is unavailable."
  else .ok payload

/-- The signature that came with the request, as it is compared. -/
def givenSignature (input : Text → Option QueryValue) : Text :=
  match input "signature".toList with
  | some (.text s) => s.map Char.toLower
  | _ => []

/-- `validate`. -/
def validate (hmac : HmacSha256) (input : Text → Option QueryValue) (now : Int) :
    Except String HandoffPayload :=
  if app.secret.isEmpty then .error "The WordPress bridge is not configured."
  else
    match app.validatedPayload input true with
    | none => .error "The WordPress checkout handoff is invalid."
    | some payload =>
        if payload.signature hmac app.secret ≠ givenSignature input then
          .error "The WordPress checkout handoff signature is invalid."
        else app.assertAcceptable payload now

end HandoffApp

end OnePloy
