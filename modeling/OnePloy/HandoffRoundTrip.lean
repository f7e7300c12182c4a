import OnePloy.HandoffLink

/-!
# HandoffRoundTrip

When the application accepts the link that the site built and finds in it what the
site signed. Everything but the campaign and the return URL is made of characters
that the way through the query string leaves alone; those two come through exactly
when they hold nothing that ends an argument or the query, nothing that decoding
changes and nothing at their ends that is trimmed.
-/

namespace OnePloy

open Php

/-! ## Plain texts -/

def Plain (s : Text) : Prop := ∀ c ∈ s, isPlainChar c = true

theorem isPlainChar_of_isDigit {c : Char} (h : c.isDigit = true) : isPlainChar c = true := by
  simp [isPlainChar, Char.isAlphanum, h]

theorem isPlainChar_of_hex {c : Char} (h : c.isDigit = true ∨ c ∈ "abcdef".toList) :
    isPlainChar c = true := by
  rcases h with h | h
  · exact isPlainChar_of_isDigit h
  · have hall : "abcdef".toList.all isPlainChar = true := by decide
    exact List.all_eq_true.mp hall c h

theorem Plain.notMem {s : Text} (h : Plain s) {c : Char} (hc : isPlainChar c = false) : c ∉ s := by
  intro hmem
  rw [h c hmem] at hc
  cases hc

theorem Plain.urldecode_eq {s : Text} (h : Plain s) : urldecode s = s :=
  urldecode_of_notMem (h.notMem (by decide)) (h.notMem (by decide))

theorem isTrimmed_of_isPlainChar {c : Char} (h : isPlainChar c = true) : isTrimmed c = false := by
  by_contra htrim
  rw [Bool.not_eq_false, isTrimmed] at htrim
  simp only [Bool.or_eq_true, beq_iff_eq] at htrim
  rcases htrim with ((((rfl | rfl) | rfl) | rfl) | rfl) | rfl <;> revert h <;> decide

theorem Plain.isFilled_eq {s : Text} (h : Plain s) (hne : s ≠ []) : isFilled s = true := by
  cases s with
  | nil => exact absurd rfl hne
  | cons c cs =>
      simp [isFilled, isTrimmed_of_isPlainChar (h c (List.mem_cons_self ..))]

theorem plain_decimal (n : Int) : Plain (decimal n) := by
  intro c hc
  rcases mem_decimal hc with rfl | h
  · decide
  · exact isPlainChar_of_isDigit h

/-! ## Identifiers -/

theorem digitsValue_toDigits (n : Nat) : digitsValue (Nat.toDigits 10 n) = n := by
  have h : digitsValue (Nat.toDigits 10 n) = Nat.ofDigitChars 10 (Nat.toDigits 10 n) 0 := by
    rw [digitsValue, Nat.ofDigitChars_eq_foldl]
    simp only [Nat.mul_comm]
  rw [h, Nat.ofDigitChars_ten_toDigits]

/-- The digits of a positive number do not begin with zero. -/
theorem head?_toDigits_ne {n : Nat} (h : 0 < n) : (Nat.toDigits 10 n).head? ≠ some '0' := by
  induction n using Nat.strongRecOn with
  | ind n ih =>
      by_cases hlt : n < 10
      · intro heq
        have hvalue := digitsValue_toDigits n
        rw [Nat.toDigits_of_lt_base hlt] at heq hvalue
        obtain hdigit : n.digitChar = '0' := by simpa using heq
        rw [hdigit] at hvalue
        have : digitsValue ['0'] = 0 := by decide
        omega
      · rw [Nat.toDigits_of_base_le (by omega) (by omega), List.head?_append]
        have hrest := ih (n / 10) (by omega) (by omega)
        cases hd : (Nat.toDigits 10 (n / 10)).head? with
        | none => exact absurd (List.head?_eq_none_iff.mp hd) Nat.toDigits_ne_nil
        | some c =>
            rw [hd] at hrest
            simpa using hrest

theorem takeSign_of_isDigit {s : List Char} (h : ∀ c ∈ s, c.isDigit = true) :
    takeSign s = (1, s) := by
  cases s with
  | nil => rfl
  | cons c cs =>
      have hc := h c (List.mem_cons_self ..)
      unfold takeSign
      split
      · next heq =>
        rw [(List.cons.inj heq).1] at hc
        exact absurd hc (by decide)
      · next heq =>
        rw [(List.cons.inj heq).1] at hc
        exact absurd hc (by decide)
      · rfl

theorem dropWhile_eq_self {p : Char → Bool} {s : List Char} (h : ∀ c ∈ s, p c = false) :
    s.dropWhile p = s := by
  cases s with
  | nil => rfl
  | cons c cs => rw [List.dropWhile_cons_of_neg (by simp [h c (List.mem_cons_self ..)])]

theorem filterInt?_decimal {n : Int} (h : IsId n) : filterInt? (decimal n) = some n := by
  obtain ⟨hpos, hlt⟩ := h
  have hdecimal : decimal n = Nat.toDigits 10 n.natAbs := by rw [decimal, if_neg (by omega)]
  have hdigits : ∀ c ∈ Nat.toDigits 10 n.natAbs, c.isDigit = true :=
    fun c hc => isDigit_of_mem_toDigits hc
  have hspace : ∀ c : Char, c.isDigit = true →
      (c == ' ' || c == '\t' || c == '\n' || c == '\r' || c == '\x0B') = false := by
    intro c hc
    by_contra hsp
    simp only [Bool.not_eq_false, Bool.or_eq_true, beq_iff_eq] at hsp
    rcases hsp with (((rfl | rfl) | rfl) | rfl) | rfl <;> revert hc <;> decide
  have hfront := dropWhile_eq_self fun c hc => hspace c (hdigits c hc)
  have hback := dropWhile_eq_self (s := (Nat.toDigits 10 n.natAbs).reverse)
    fun c hc => hspace c (hdigits c (List.mem_reverse.mp hc))
  have hall : (Nat.toDigits 10 n.natAbs).any (fun c => !c.isDigit) = false := by
    rw [List.any_eq_false]
    intro c hc
    simp [hdigits c hc]
  have hhead := head?_toDigits_ne (n := n.natAbs) (by omega)
  have hvalue : (1 : Int) * ((n.natAbs : Nat) : Int) = n := by omega
  simp only [filterInt?, hdecimal, hfront, hback, List.reverse_reverse,
    takeSign_of_isDigit hdigits, digitsValue_toDigits, hall, hvalue]
  rw [if_neg]
  rintro (hnil | hno | hzero | hlow | hhigh)
  · exact Nat.toDigits_ne_nil hnil
  · cases hno
  · exact hhead hzero.1
  · omega
  · omega

/-! ## What a request holds -/

section Input

variable {app : HandoffApp} {before behind : List (Text × Text)} {name value : Text}

/-- The text goes through the query string and the middleware. -/
def ComesThrough (app : HandoffApp) (s : Text) : Prop :=
  '&' ∉ s ∧ '#' ∉ s ∧ hasEscape s = false ∧ app.trimStrings.trim s = s

theorem Plain.comesThrough {s : Text} (h : Plain s) (app : HandoffApp) : ComesThrough app s :=
  ⟨h.notMem (by decide), h.notMem (by decide), hasEscape_eq_false h.urldecode_eq,
    app.trimStrings.plain s h⟩

/-- Only arguments behind this one could put something else under its name. -/
def Undisturbed (name : Text) (behind : List (Text × Text)) : Prop :=
  ∀ q ∈ behind, PlainName q.1 ∧ q.1 ≠ name ∧ '&' ∉ q.2

theorem input_eq (h : PlainName name) (hbehind : Undisturbed name behind) (hamp : '&' ∉ value) :
    app.input (joinArguments (before ++ (name, value) :: behind)) name
      = if (app.trimStrings.trim (urldecode value)).isEmpty then none
        else some (.text (app.trimStrings.trim (urldecode value))) := by
  obtain ⟨v, hlast, -, hv⟩ := lastOf_joinArguments before h value hbehind
  rw [hv hamp] at hlast
  rw [HandoffApp.input, hlast]

theorem ComesThrough.input_eq (h : PlainName name) (hbehind : Undisturbed name behind)
    (hvalue : ComesThrough app value) :
    app.input (joinArguments (before ++ (name, value) :: behind)) name
      = if value.isEmpty then none else some (.text value) := by
  obtain ⟨hamp, -, hescape, htrim⟩ := hvalue
  rw [OnePloy.input_eq h hbehind hamp, urldecode_eq_self hescape, htrim]

/-- What is found is no longer than what was put there, and shorter if that separates
arguments. -/
theorem length_of_input (h : PlainName name) (hbehind : Undisturbed name behind) {s : Text}
    (hinput : app.input (joinArguments (before ++ (name, value) :: behind)) name
      = some (.text s)) :
    s.length ≤ value.length ∧ ('&' ∈ value → s.length < value.length) := by
  obtain ⟨v, hlast, hlen, -⟩ := lastOf_joinArguments before h value hbehind
  rw [HandoffApp.input, hlast] at hinput
  cases v with
  | array => cases hinput
  | text found =>
      have hfound := hlen found rfl
      simp only at hinput
      split at hinput
      · cases hinput
      · obtain rfl := QueryValue.text.inj (Option.some.inj hinput)
        have := (app.trimStrings.isInfix found).length_le
        exact ⟨by omega, fun hc => by have := hfound.2 hc; omega⟩

/-- A text that is found as it was put there has come through. -/
theorem comesThrough_of_input (h : PlainName name) (hbehind : Undisturbed name behind)
    (hhash : '#' ∉ value)
    (hinput : app.input (joinArguments (before ++ (name, value) :: behind)) name
      = some (.text value)) : ComesThrough app value := by
  have hamp : '&' ∉ value := fun hc => Nat.lt_irrefl _ ((length_of_input h hbehind hinput).2 hc)
  rw [input_eq h hbehind hamp] at hinput
  split at hinput
  · cases hinput
  · have htrim := QueryValue.text.inj (Option.some.inj hinput)
    have hpart := app.trimStrings.isInfix (urldecode value)
    rw [htrim] at hpart
    have hdecode : urldecode value = value :=
      (hpart.eq_of_length_le (urldecode_length_le value)).symm
    rw [hdecode] at htrim
    exact ⟨hamp, hhash, hasEscape_eq_false hdecode, htrim⟩

/-- A text that was cut off is not found whole. -/
theorem not_found_of_cut (h : PlainName name) (hbehind : Undisturbed name behind)
    (hhash : '#' ∈ value) :
    app.input (joinArguments (before ++ (name, value.takeWhile (· ≠ '#')) :: behind)) name
      ≠ some (.text value) := by
  intro hinput
  have hle := (length_of_input h hbehind hinput).1
  have hlt := takeWhile_length_lt hhash
  omega

end Input

/-! ## The link -/

section Link

variable {payload : HandoffPayload} {returnUrl signature : Text}

/-- Everything that is signed, apart from the campaign and the return URL, is plain. -/
structure PlainLink (payload : HandoffPayload) (signature : Text) : Prop where
  nonce : Plain payload.nonce
  keyId : Plain payload.keyId
  provider : Plain payload.provider
  source : Plain payload.source
  signature : Plain signature

/-- What is put between the campaign and the return URL. -/
def middleFields (payload : HandoffPayload) : List (Text × Text) :=
  [("issued_at".toList, decimal payload.issuedAt), ("key_id".toList, payload.keyId),
    ("nonce".toList, payload.nonce), ("price_id".toList, decimal payload.priceId),
    ("provider".toList, payload.provider)]

def lastFields (payload : HandoffPayload) (signature : Text) : List (Text × Text) :=
  [("source".toList, payload.source), ("signature".toList, signature)]

/-- The arguments of the link. -/
def linkArguments (payload : HandoffPayload) (returnUrl signature : Text) : List (Text × Text) :=
  ("campaign".toList, payload.campaign) ::
    (middleFields payload ++ ("return_url".toList, returnUrl) :: lastFields payload signature)

theorem fields_append (h : payload.returnUrl = some returnUrl) :
    payload.fields ++ [("signature".toList, signature)]
      = linkArguments payload returnUrl signature := by
  simp only [HandoffPayload.fields, h]
  rfl

theorem queryString_addQueryArg {url : Text} (h : '?' ∉ url) (arguments : List (Text × Text)) :
    queryString (BridgeSite.addQueryArg arguments url)
      = (joinArguments arguments).takeWhile (· ≠ '#') := by
  rw [queryString, BridgeSite.addQueryArg, (takeWhile_append_sep h).2, List.tail_cons]

theorem PlainLink.middle (h : PlainLink payload signature) :
    ∀ q ∈ middleFields payload, Plain q.2 := by
  intro q hq
  simp only [middleFields, List.mem_cons, List.not_mem_nil, or_false] at hq
  rcases hq with rfl | rfl | rfl | rfl | rfl
  · exact plain_decimal _
  · exact h.keyId
  · exact h.nonce
  · exact plain_decimal _
  · exact h.provider

theorem PlainLink.last (h : PlainLink payload signature) :
    ∀ q ∈ lastFields payload signature, Plain q.2 := by
  intro q hq
  simp only [lastFields, List.mem_cons, List.not_mem_nil, or_false] at hq
  rcases hq with rfl | rfl
  · exact h.source
  · exact h.signature

/-- The names of the arguments, which are different and plain. -/
def linkNames : List Text :=
  ["campaign".toList, "issued_at".toList, "key_id".toList, "nonce".toList, "price_id".toList,
    "provider".toList, "return_url".toList, "source".toList, "signature".toList]

theorem map_linkArguments (payload : HandoffPayload) (returnUrl signature : Text) :
    (linkArguments payload returnUrl signature).map Prod.fst = linkNames := rfl

theorem plainName_of_mem {name : Text} (h : name ∈ linkNames) : PlainName name := by
  have hall : (linkNames.all fun name => !name.isEmpty &&
      name.all fun c => c.isAlpha || c == '_') = true := by decide
  have hname := List.all_eq_true.mp hall name h
  simpa [PlainName] using hname

theorem hash_notMem_name {name : Text} (h : name ∈ linkNames) : '#' ∉ name :=
  (plainName_of_mem h).notMem (by decide)

/-- The query of a link that holds no hash sign. -/
theorem query_whole (h : PlainLink payload signature) (hcampaign : '#' ∉ payload.campaign)
    (hreturn : '#' ∉ returnUrl) :
    (joinArguments (linkArguments payload returnUrl signature)).takeWhile (· ≠ '#')
      = joinArguments (linkArguments payload returnUrl signature) := by
  refine takeWhile_eq_self (notMem_joinArguments (by decide) (by decide) ?_)
  intro q hq
  have hname : q.1 ∈ linkNames := by
    rw [← map_linkArguments payload returnUrl signature]
    exact List.mem_map_of_mem hq
  refine ⟨hash_notMem_name hname, ?_⟩
  rw [linkArguments, List.mem_cons, List.mem_append, List.mem_cons] at hq
  rcases hq with rfl | hq | rfl | hq
  · exact hcampaign
  · exact (h.middle q hq).notMem (by decide)
  · exact hreturn
  · exact (h.last q hq).notMem (by decide)

end Link

/-! ## What validation finds -/

section Validation

variable {app : HandoffApp} {input : Text → Option QueryValue} {payload : HandoffPayload}

theorem requiredText_of_text {accepts : Text → Bool} {s : Text} (hfilled : isFilled s = true)
    (haccepts : accepts s = true) : requiredText accepts (some (.text s)) = some s := by
  simp [requiredText, hfilled, haccepts]

theorem requiredId_of_decimal {n : Int} (h : IsId n) :
    requiredId (some (.text (decimal n))) = some n := by
  have hne : decimal n ≠ [] := by
    rw [decimal, if_neg (by have := h.1; omega)]
    exact Nat.toDigits_ne_nil
  rw [requiredId, requiredText_of_text ((plain_decimal n).isFilled_eq hne) rfl, Option.bind_some,
    filterInt?_decimal h, Option.bind_some, if_pos h.1]

theorem mbStrlen_le (s : Text) : mbStrlen s ≤ s.length := List.countP_le_length

theorem mbStrlen_plain {s : Text} (h : Plain s) : mbStrlen s = s.length := by
  rw [mbStrlen, List.countP_eq_length]
  intro c hc
  have hplain := h c hc
  by_contra hno
  have hrange : 0x80 ≤ c.toNat := by simp at hno; omega
  have hlow : c.toNat < 0x80 := by
    unfold isPlainChar Char.isAlphanum Char.isAlpha Char.isUpper Char.isLower at hplain
    simp only [Char.isDigit, Bool.or_eq_true, Bool.and_eq_true, decide_eq_true_eq, beq_iff_eq,
      UInt32.le_iff_toNat_le, ge_iff_le] at hplain
    have hval : c.toNat = c.val.toNat := rfl
    have hZ : 'Z'.val.toNat = 90 := rfl
    have hz : 'z'.val.toNat = 122 := rfl
    have h9 : '9'.val.toNat = 57 := rfl
    rcases hplain with (((((h | h) | h) | rfl) | rfl) | rfl)
    · omega
    · omega
    · omega
    all_goals decide
  omega

theorem isOneOrMore_of_plain {inClass : Char → Bool} {s : Text} (h : Plain s) (hne : s ≠ [])
    (hclass : ∀ c ∈ s, inClass c = true) : isOneOrMore inClass s = true := by
  have hlast : s.getLast? ≠ some '\n' := fun hlast =>
    h.notMem (by decide) (List.mem_of_getLast? hlast)
  have hempty : s.isEmpty = false := by simpa using hne
  simpa [isOneOrMore, hlast, hempty, hne] using hclass

/-- The fields that `validatedPayload` reads, and what it makes of them. -/
theorem validatedPayload_eq_some_iff :
    app.validatedPayload input true = some payload ↔
      ∃ priceId provider issuedAt nonce keyId source campaign returnUrl signature,
        requiredId (input "price_id".toList) = some priceId ∧
        requiredText (["paypal".toList, "stripe".toList, "razorpay".toList].contains ·)
          (input "provider".toList) = some provider ∧
        requiredId (input "issued_at".toList) = some issuedAt ∧
        requiredText (fun s => decide (16 ≤ mbStrlen s ∧ mbStrlen s ≤ 100) &&
          isOneOrMore HandoffApp.isNonceChar s) (input "nonce".toList) = some nonce ∧
        requiredText (fun s => decide (mbStrlen s ≤ 64) && isOneOrMore isKeyIdChar s)
          (input "key_id".toList) = some keyId ∧
        requiredText (["wordpress".toList].contains ·) (input "source".toList) = some source ∧
        nullableText (fun s => decide (mbStrlen s ≤ 100)) (input "campaign".toList)
          = some campaign ∧
        nullableText (fun s => app.httpsRule.accepts s && decide (mbStrlen s ≤ 2048))
          (input "return_url".toList) = some returnUrl ∧
        requiredText (fun s => decide (mbStrlen s = 64) && isOneOrMore isHexDigit s)
          (input "signature".toList) = some signature ∧
        payload = ⟨priceId, provider.map Char.toLower, issuedAt, nonce, keyId, source,
          campaign.getD [], returnUrl.filter isFilled⟩ := by
  simp only [HandoffApp.validatedPayload, Option.bind_eq_bind, Option.bind_eq_some_iff, if_true,
    Option.pure_def, Option.some.injEq, exists_and_left, eq_comm (b := payload)]

theorem text_of_nullableText {accepts : Text → Bool} {value : Option QueryValue} {s : Text}
    (h : nullableText accepts value = some (some s)) :
    value = some (.text s) ∧ (isFilled s = true → accepts s = true) := by
  cases value with
  | none => cases h
  | some v =>
      cases v with
      | array => cases h
      | text t =>
          rw [nullableText] at h
          split at h
          · next hok =>
            obtain rfl := Option.some.inj (Option.some.inj h)
            refine ⟨rfl, fun hfilled => ?_⟩
            simpa [hfilled] using hok
          · cases h

theorem campaign_of_validated (h : app.validatedPayload input true = some payload) :
    payload.campaign = [] ∨ input "campaign".toList = some (.text payload.campaign) := by
  obtain ⟨_, _, _, _, _, _, campaign, _, _, -, -, -, -, -, -, hcampaign, -, -, rfl⟩ :=
    validatedPayload_eq_some_iff.mp h
  cases campaign with
  | none => exact .inl rfl
  | some s => exact .inr (text_of_nullableText hcampaign).1

theorem returnUrl_of_validated {url : Text} (h : app.validatedPayload input true = some payload)
    (hurl : payload.returnUrl = some url) :
    input "return_url".toList = some (.text url) ∧ app.httpsRule.accepts url = true := by
  obtain ⟨_, _, _, _, _, _, _, returnUrl, _, -, -, -, -, -, -, -, hreturn, -, rfl⟩ :=
    validatedPayload_eq_some_iff.mp h
  obtain ⟨rfl, hfilled⟩ := Option.filter_eq_some_iff.mp hurl
  obtain ⟨hinput, haccepts⟩ := text_of_nullableText hreturn
  have hok := haccepts hfilled
  rw [Bool.and_eq_true] at hok
  exact ⟨hinput, hok.1⟩

theorem eq_of_assertAcceptable {found : HandoffPayload} {now : Int}
    (h : app.assertAcceptable found now = .ok payload) : found = payload := by
  rw [HandoffApp.assertAcceptable] at h
  split at h
  · cases h
  split at h
  · cases h
  split at h
  · cases h
  split at h
  · cases h
  · exact Except.ok.inj h

/-- What is accepted has been validated. -/
theorem validated_of_validate {hmac : HmacSha256} {now : Int}
    (h : app.validate hmac input now = .ok payload) :
    app.validatedPayload input true = some payload := by
  rw [HandoffApp.validate] at h
  split at h
  · cases h
  split at h
  · cases h
  · next found hfound =>
    split at h
    · cases h
    · rw [hfound, eq_of_assertAcceptable h]

end Validation

/-! ## The round trip -/

section RoundTrip

variable {site : BridgeSite} {app : HandoffApp} {hmac : HmacSha256} {priceId time now : Int}
  {provider campaign returnUrl uuid : Text}

/-- The two sides belong together: they share the secret and the key id, the price is
active, the return URL is on the site, and the link is not used too late. -/
structure Agrees (site : BridgeSite) (app : HandoffApp) (priceId : Int) (returnUrl : Text)
    (time now : Int) : Prop where
  configured : site.secret ≠ []
  secret : app.secret = site.secret
  keyId : app.keyId = site.keyId
  price : app.activePrice priceId = true
  origin : app.returnUrlAllowed returnUrl = true
  inTime : timestamp now - bridgeTtl app.ttlSeconds ≤ time ∧ time ≤ timestamp now + 60

/-- A campaign text as the site passes it on. -/
def Sanitised (site : BridgeSite) (campaign : Text) : Prop :=
  site.sanitizeTextField campaign = campaign ∧ campaign.length ≤ 100

/-- The application accepts the link and finds in it what the site has signed. -/
def RoundTrips (site : BridgeSite) (app : HandoffApp) (hmac : HmacSha256) (priceId : Int)
    (provider campaign returnUrl : Text) (time : Int) (uuid : Text) (now : Int) : Prop :=
  ∃ url payload,
    site.signedCheckoutUrl hmac priceId provider campaign returnUrl time uuid = .ok url ∧
      app.validate hmac (app.input (queryString url)) now = .ok payload ∧
      payload.priceId = priceId ∧ payload.provider = site.provider provider ∧
      payload.nonce = uuid.filter (· ≠ '-') ∧ payload.campaign = campaign ∧
      payload.returnUrl = some returnUrl

theorem provider_mem (site : BridgeSite) (provider : Text) :
    site.provider provider ∈ ["paypal".toList, "stripe".toList, "razorpay".toList] := by
  simp only [BridgeSite.provider]
  split
  · next h => exact List.contains_iff_mem.mp h
  · exact List.mem_cons_self ..

theorem plain_of_mem_providers {p : Text}
    (h : p ∈ ["paypal".toList, "stripe".toList, "razorpay".toList]) :
    Plain p ∧ p ≠ [] ∧ p.map Char.toLower = p := by
  have hall : ∀ p ∈ ["paypal".toList, "stripe".toList, "razorpay".toList],
      p.all isPlainChar = true ∧ p ≠ [] ∧ p.map Char.toLower = p := by decide
  exact ⟨List.all_eq_true.mp (hall p h).1, (hall p h).2⟩

theorem plainLink_handoff (site : BridgeSite) (hmac : HmacSha256) (priceId : Int)
    (provider campaign returnUrl : Text) (time : Int) (huuid : IsUuid uuid) :
    PlainLink (site.handoff priceId provider campaign returnUrl time uuid)
      ((site.handoff priceId provider campaign returnUrl time uuid).signature hmac
        site.secret) where
  nonce := fun c hc => isPlainChar_of_hex (huuid.2 c hc)
  keyId := by
    intro c hc
    have h := site.keyId_form.2.2 c hc
    simp only [isKeyIdChar, Bool.or_eq_true, beq_iff_eq] at h
    rcases h with ((h | rfl) | rfl) | rfl
    · simp [isPlainChar, h]
    all_goals decide
  provider := (plain_of_mem_providers (provider_mem site provider)).1
  source := List.all_eq_true.mp (by decide : "wordpress".toList.all isPlainChar = true)
  signature := fun c hc => isPlainChar_of_hex (hmac.lowerHex _ _ c hc)

/-- The query string of the link, from whose arguments the application reads. -/
theorem queryString_signed (hsecret : site.secret ≠ []) (hcampaign : Sanitised site campaign)
    {url : Text} (hurl : site.signedCheckoutUrl hmac priceId provider campaign returnUrl time uuid
      = .ok url) :
    (site.handoff priceId provider campaign returnUrl time uuid).campaign = campaign ∧
      queryString url = (joinArguments (linkArguments
        (site.handoff priceId provider campaign returnUrl time uuid) returnUrl
        ((site.handoff priceId provider campaign returnUrl time uuid).signature hmac
          site.secret))).takeWhile (· ≠ '#') := by
  constructor
  · change (site.sanitizeTextField campaign).take 100 = campaign
    rw [hcampaign.1, List.take_of_length_le hcampaign.2]
  · have hmark : '?' ∉ site.appUrl ++ "/marketing/checkout".toList := by
      rw [List.mem_append, not_or]
      exact ⟨site.appUrl_form.1, by decide⟩
    rw [BridgeSite.signedCheckoutUrl, if_neg (by simpa using hsecret)] at hurl
    rw [← Except.ok.inj hurl, queryString_addQueryArg hmark, fields_append rfl]

theorem undisturbed_last {payload : HandoffPayload} {signature : Text}
    (h : PlainLink payload signature) :
    Undisturbed "return_url".toList (lastFields payload signature) := by
  intro q hq
  have hname : q.1 ∈ ["source".toList, "signature".toList] := List.mem_map_of_mem hq
  have hall : ∀ name ∈ ["source".toList, "signature".toList],
      name ∈ linkNames ∧ name ≠ "return_url".toList := by decide
  exact ⟨plainName_of_mem (hall q.1 hname).1, (hall q.1 hname).2,
    (h.last q hq).notMem (by decide)⟩

theorem undisturbed_behind_campaign {payload : HandoffPayload} {signature : Text}
    (h : PlainLink payload signature) (hreturn : '&' ∉ returnUrl) :
    Undisturbed "campaign".toList (middleFields payload ++
      ("return_url".toList, returnUrl) :: lastFields payload signature) := by
  intro q hq
  have hname : q.1 ∈ linkNames.tail := List.mem_map_of_mem hq
  have hall : ∀ name ∈ linkNames.tail, name ∈ linkNames ∧ name ≠ "campaign".toList := by decide
  refine ⟨plainName_of_mem (hall q.1 hname).1, (hall q.1 hname).2, ?_⟩
  rw [List.mem_append, List.mem_cons] at hq
  rcases hq with hq | rfl | hq
  · exact (h.middle q hq).notMem (by decide)
  · exact hreturn
  · exact (h.last q hq).notMem (by decide)

/-- Where every value comes through, every argument is found. -/
theorem input_linkArguments {payload : HandoffPayload} {signature : Text}
    (h : ∀ q ∈ linkArguments payload returnUrl signature, ComesThrough app q.2)
    {q : Text × Text} (hq : q ∈ linkArguments payload returnUrl signature) :
    app.input (joinArguments (linkArguments payload returnUrl signature)) q.1
      = if q.2.isEmpty then none else some (.text q.2) := by
  obtain ⟨before, behind, hsplit⟩ := List.append_of_mem hq
  have hnodup : ((before ++ q :: behind).map Prod.fst).Nodup := by
    rw [← hsplit, map_linkArguments]
    decide
  rw [List.map_append, List.map_cons] at hnodup
  have hne := (List.nodup_cons.mp (List.nodup_append.mp hnodup).2.1).1
  have hmem : ∀ r ∈ q :: behind, r ∈ linkArguments payload returnUrl signature := by
    intro r hr
    rw [hsplit]
    exact List.mem_append_right _ hr
  have hname : ∀ r ∈ q :: behind, PlainName r.1 := by
    intro r hr
    refine plainName_of_mem ?_
    rw [← map_linkArguments payload returnUrl signature]
    exact List.mem_map_of_mem (hmem r hr)
  rw [hsplit]
  refine ComesThrough.input_eq (hname q (List.mem_cons_self ..)) ?_ (h q hq)
  intro r hr
  have hr' := List.mem_cons_of_mem q hr
  refine ⟨hname r hr', fun heq => hne ?_, (h r (hmem r hr')).1⟩
  rw [← heq]
  exact List.mem_map_of_mem hr

theorem comesThrough_nil (app : HandoffApp) : ComesThrough app [] :=
  Plain.comesThrough (by nofun) app

/-- What was signed and is found has come through. -/
theorem comesThrough_of_roundTrips (hsecret : site.secret ≠ [])
    (hcampaign : Sanitised site campaign) (huuid : IsUuid uuid)
    (h : RoundTrips site app hmac priceId provider campaign returnUrl time uuid now) :
    ComesThrough app campaign ∧ ComesThrough app returnUrl ∧
      app.httpsRule.accepts returnUrl = true := by
  obtain ⟨url, payload, hurl, hvalidate, -, -, -, rfl, hreturn⟩ := h
  obtain ⟨hsigned, hquery⟩ := queryString_signed hsecret hcampaign hurl
  have hplain := plainLink_handoff site hmac priceId provider payload.campaign returnUrl time huuid
  have hvalidated := validated_of_validate hvalidate
  have hcampaignInput := campaign_of_validated hvalidated
  obtain ⟨hreturnInput, haccepts⟩ := returnUrl_of_validated hvalidated hreturn
  rw [hquery, linkArguments, hsigned] at hreturnInput hcampaignInput
  by_cases hhash : '#' ∈ payload.campaign
  · -- The query ends within the campaign.
    rcases hcampaignInput with hnil | hinput
    · rw [hnil] at hhash
      cases hhash
    · rw [← List.nil_append (_ :: _),
        takeWhile_joinArguments (by decide) (by decide) (by nofun)
        (hash_notMem_name (by decide)) hhash] at hinput
      exact absurd hinput (not_found_of_cut (plainName_of_mem (by decide)) (by nofun) hhash)
  by_cases hhash' : '#' ∈ returnUrl
  · -- The query ends within the return URL.
    have hbefore : ∀ q ∈ ("campaign".toList, payload.campaign) :: middleFields
        (site.handoff priceId provider payload.campaign returnUrl time uuid),
        '#' ∉ q.1 ∧ '#' ∉ q.2 := by
      intro q hq
      have hname : q.1 ∈ linkNames.take 6 := List.mem_map_of_mem hq
      refine ⟨hash_notMem_name (List.mem_of_mem_take hname), ?_⟩
      rcases List.mem_cons.mp hq with rfl | hq
      · exact hhash
      · exact (hplain.middle q hq).notMem (by decide)
    rw [← List.cons_append, takeWhile_joinArguments (by decide) (by decide) hbefore
      (hash_notMem_name (by decide)) hhash'] at hreturnInput
    exact absurd hreturnInput
      (not_found_of_cut (plainName_of_mem (by decide)) (by nofun) hhash')
  have hwhole := query_whole hplain (by rwa [hsigned]) hhash'
  rw [linkArguments, hsigned] at hwhole
  rw [hwhole] at hreturnInput hcampaignInput
  rw [← List.cons_append] at hreturnInput
  have hreturnThrough := comesThrough_of_input (plainName_of_mem (by decide))
    (undisturbed_last hplain) hhash' hreturnInput
  refine ⟨?_, hreturnThrough, haccepts⟩
  rcases hcampaignInput with hnil | hinput
  · rw [hnil]
    exact comesThrough_nil app
  · rw [← List.nil_append (_ :: _)] at hinput
    exact comesThrough_of_input (plainName_of_mem (by decide))
      (undisturbed_behind_campaign hplain hreturnThrough.1) hhash hinput

theorem requiredText_found {accepts : Text → Bool} {value : Option QueryValue} {s : Text}
    (hvalue : value = if s.isEmpty then none else some (.text s)) (hplain : Plain s)
    (hne : s ≠ []) (haccepts : accepts s = true) : requiredText accepts value = some s := by
  rw [hvalue, if_neg (by simpa using hne)]
  exact requiredText_of_text (hplain.isFilled_eq hne) haccepts

theorem requiredId_found {value : Option QueryValue} {n : Int}
    (hvalue : value = if (decimal n).isEmpty then none else some (.text (decimal n)))
    (h : IsId n) : requiredId value = some n := by
  have hfound := requiredId_of_decimal h
  rw [hvalue]
  split
  · next hempty =>
    rw [List.isEmpty_iff.mp hempty] at hfound
    cases hfound
  · exact hfound

theorem isAlphanum_of_hex {c : Char} (h : c.isDigit = true ∨ c ∈ "abcdef".toList) :
    c.isAlphanum = true ∧ isHexDigit c = true ∧ c.toLower = c := by
  rcases h with h | h
  · have hlower : c.toLower = c := by
      refine toLower_of_not ?_
      simp only [Char.isDigit, Bool.and_eq_true, decide_eq_true_eq, ge_iff_le,
        UInt32.le_iff_toNat_le] at h
      simp only [ge_iff_le, UInt32.le_iff_toNat_le, not_and]
      have hA : 'A'.val.toNat = 65 := rfl
      have h9 : '9'.val.toNat = 57 := rfl
      omega
    exact ⟨by simp [Char.isAlphanum, h], by simp [isHexDigit, h], hlower⟩
  · have hall : ("abcdef".toList.all fun c =>
        c.isAlphanum && isHexDigit c && c.toLower == c) = true := by decide
    have hc := List.all_eq_true.mp hall c h
    simpa [and_assoc] using hc

theorem signature_form (hmac : HmacSha256) (data key : Text) :
    (decide (mbStrlen (hmac.digest data key) = 64) &&
        isOneOrMore isHexDigit (hmac.digest data key)) = true ∧
      (hmac.digest data key).map Char.toLower = hmac.digest data key := by
  have hplain : Plain (hmac.digest data key) :=
    fun c hc => isPlainChar_of_hex (hmac.lowerHex _ _ c hc)
  have hlen := hmac.length data key
  have hne : hmac.digest data key ≠ [] := fun h => by rw [h] at hlen; cases hlen
  constructor
  · rw [isOneOrMore_of_plain hplain hne fun c hc =>
        (isAlphanum_of_hex (hmac.lowerHex _ _ c hc)).2.1, mbStrlen_plain hplain, hlen]
    rfl
  · conv_rhs => rw [← List.map_id (hmac.digest data key)]
    exact List.map_congr_left fun c hc => (isAlphanum_of_hex (hmac.lowerHex _ _ c hc)).2.2

theorem nonce_form (huuid : IsUuid uuid) :
    uuid.filter (· ≠ '-') ≠ [] ∧
      (decide (16 ≤ mbStrlen (uuid.filter (· ≠ '-')) ∧ mbStrlen (uuid.filter (· ≠ '-')) ≤ 100) &&
        isOneOrMore HandoffApp.isNonceChar (uuid.filter (· ≠ '-'))) = true := by
  have hplain : Plain (uuid.filter (· ≠ '-')) := fun c hc => isPlainChar_of_hex (huuid.2 c hc)
  have hlen := huuid.1
  have hne : uuid.filter (· ≠ '-') ≠ [] := fun h => by rw [h] at hlen; cases hlen
  refine ⟨hne, ?_⟩
  rw [isOneOrMore_of_plain hplain hne, mbStrlen_plain hplain, hlen]
  · rfl
  · intro c hc
    simp [HandoffApp.isNonceChar, (isAlphanum_of_hex (huuid.2 c hc)).1]

theorem keyId_accepted (site : BridgeSite) (hplain : Plain site.keyId) :
    (decide (mbStrlen site.keyId ≤ 64) && isOneOrMore isKeyIdChar site.keyId) = true := by
  rw [isOneOrMore_of_plain hplain site.keyId_form.1 site.keyId_form.2.2, mbStrlen_plain hplain]
  simpa using site.keyId_form.2.1

/-- What is found in the arguments of a link is the payload that was signed. -/
theorem validated_of_found (hprice : IsId priceId) (htime : IsId time) (huuid : IsUuid uuid)
    (hcampaign : Sanitised site campaign) (hlength : returnUrl.length ≤ 2048)
    (haccepts : app.httpsRule.accepts returnUrl = true) {input : Text → Option QueryValue}
    (hinput : ∀ q ∈ linkArguments (site.handoff priceId provider campaign returnUrl time uuid)
      returnUrl ((site.handoff priceId provider campaign returnUrl time uuid).signature hmac
        site.secret),
      input q.1 = if q.2.isEmpty then none else some (.text q.2)) :
    app.validatedPayload input true
        = some (site.handoff priceId provider campaign returnUrl time uuid) ∧
      HandoffApp.givenSignature input
        = (site.handoff priceId provider campaign returnUrl time uuid).signature hmac
          site.secret := by
  have hplain := plainLink_handoff site hmac priceId provider campaign returnUrl time huuid
  have htext : (site.handoff priceId provider campaign returnUrl time uuid).campaign
      = campaign := by
    change (site.sanitizeTextField campaign).take 100 = campaign
    rw [hcampaign.1, List.take_of_length_le hcampaign.2]
  obtain ⟨hsignatureForm, hlower⟩ := signature_form hmac
    (httpBuildQuery (site.handoff priceId provider campaign returnUrl time uuid).fields)
    site.secret
  obtain ⟨-, hproviderNe, hproviderLower⟩ :=
    plain_of_mem_providers (provider_mem site provider)
  obtain ⟨hnonceNe, hnonceForm⟩ := nonce_form huuid
  have hreturnFilled := app.httpsRule.filled returnUrl haccepts
  have hreturnNe : returnUrl ≠ [] := by
    rintro rfl
    cases hreturnFilled
  have hsignatureNe : hmac.digest
      (httpBuildQuery (site.handoff priceId provider campaign returnUrl time uuid).fields)
      site.secret ≠ [] := by
    intro hnil
    rw [hnil] at hsignatureForm
    revert hsignatureForm
    decide
  simp only [linkArguments, middleFields, lastFields, List.cons_append, List.nil_append,
    List.forall_mem_cons, htext] at hinput
  obtain ⟨hcampaignIn, htimeIn, hkeyIn, hnonceIn, hpriceIn, hproviderIn, hreturnIn, hsourceIn,
    hsignatureIn, -⟩ := hinput
  constructor
  · have hcampaignFound : ∃ found, nullableText (fun s => decide (mbStrlen s ≤ 100))
        (input "campaign".toList) = some found ∧ found.getD [] = campaign := by
      have hshort : mbStrlen campaign ≤ 100 := by
        have := mbStrlen_le campaign
        have := hcampaign.2
        omega
      rw [hcampaignIn]
      cases campaign with
      | nil => exact ⟨none, rfl, rfl⟩
      | cons c cs => exact ⟨some (c :: cs), by simp [nullableText, hshort], rfl⟩
    obtain ⟨found, hfound, hget⟩ := hcampaignFound
    have hreturnFound : nullableText
        (fun s => app.httpsRule.accepts s && decide (mbStrlen s ≤ 2048))
        (input "return_url".toList) = some (some returnUrl) := by
      have hshort : mbStrlen returnUrl ≤ 2048 := by
        have := mbStrlen_le returnUrl
        omega
      rw [hreturnIn, if_neg (by simpa using hreturnNe)]
      simp [nullableText, haccepts, hshort]
    refine validatedPayload_eq_some_iff.mpr ⟨priceId, site.provider provider, time,
      uuid.filter (· ≠ '-'), site.keyId, "wordpress".toList, found, some returnUrl, _,
      requiredId_found hpriceIn hprice,
      requiredText_found hproviderIn hplain.provider hproviderNe
        (List.contains_iff_mem.mpr (provider_mem site provider)),
      requiredId_found htimeIn htime,
      requiredText_found hnonceIn hplain.nonce hnonceNe hnonceForm,
      requiredText_found hkeyIn hplain.keyId site.keyId_form.1 (keyId_accepted site hplain.keyId),
      requiredText_found hsourceIn hplain.source (by decide) (by decide), hfound, hreturnFound,
      requiredText_found hsignatureIn hplain.signature hsignatureNe hsignatureForm, ?_⟩
    rw [hproviderLower, hget]
    simp only [BridgeSite.handoff, Option.filter, hreturnFilled, if_true, hcampaign.1,
      List.take_of_length_le hcampaign.2]
  · rw [HandoffApp.givenSignature, hsignatureIn,
      if_neg (by simpa [HandoffPayload.signature] using hsignatureNe)]
    exact hlower

/-- A link whose every value is found is accepted as it was signed. -/
theorem validate_of_found (hagrees : Agrees site app priceId returnUrl time now)
    {input : Text → Option QueryValue}
    (hvalidated : app.validatedPayload input true
      = some (site.handoff priceId provider campaign returnUrl time uuid))
    (hsignature : HandoffApp.givenSignature input
      = (site.handoff priceId provider campaign returnUrl time uuid).signature hmac site.secret) :
    app.validate hmac input now
      = .ok (site.handoff priceId provider campaign returnUrl time uuid) := by
  have hsecret : app.secret.isEmpty = false := by
    rw [hagrees.secret]
    simpa using hagrees.configured
  have hclock : ¬ (time < timestamp now - bridgeTtl app.ttlSeconds ∨
      timestamp now + 60 < time) := by
    have := hagrees.inTime
    omega
  rw [HandoffApp.validate, hsecret, hvalidated]
  simp only [Bool.false_eq_true, if_false, hsignature, hagrees.secret, ne_eq, not_true_eq_false]
  simp only [HandoffApp.assertAcceptable, BridgeSite.handoff, if_neg hclock, hagrees.keyId,
    hagrees.price, hagrees.origin, ne_eq, not_true_eq_false, if_false, Option.any_some,
    Bool.not_true, Bool.false_eq_true]

/-- The application accepts the link and finds in it what was signed exactly when the
campaign and the return URL come through and the return URL passes the rule for it. -/
theorem round_trips_iff (site : BridgeSite) (app : HandoffApp) (hmac : HmacSha256)
    (priceId : Int) (provider campaign returnUrl : Text) (time : Int) (uuid : Text) (now : Int)
    (hagrees : Agrees site app priceId returnUrl time now) (hprice : IsId priceId)
    (htime : IsId time) (huuid : IsUuid uuid) (hcampaign : Sanitised site campaign)
    (hlength : returnUrl.length ≤ 2048) :
    RoundTrips site app hmac priceId provider campaign returnUrl time uuid now ↔
      ComesThrough app campaign ∧ ComesThrough app returnUrl ∧
        app.httpsRule.accepts returnUrl = true := by
  constructor
  · exact comesThrough_of_roundTrips hagrees.configured hcampaign huuid
  · rintro ⟨hcampaignThrough, hreturnThrough, haccepts⟩
    obtain ⟨url, hurl⟩ : ∃ url, site.signedCheckoutUrl hmac priceId provider campaign returnUrl
        time uuid = .ok url := by
      rw [BridgeSite.signedCheckoutUrl, if_neg (by simpa using hagrees.configured)]
      exact ⟨_, rfl⟩
    obtain ⟨hsigned, hquery⟩ := queryString_signed hagrees.configured hcampaign hurl
    have hplain := plainLink_handoff site hmac priceId provider campaign returnUrl time huuid
    have hthrough : ∀ q ∈ linkArguments
        (site.handoff priceId provider campaign returnUrl time uuid) returnUrl
        ((site.handoff priceId provider campaign returnUrl time uuid).signature hmac
          site.secret), ComesThrough app q.2 := by
      intro q hq
      rw [linkArguments, hsigned, List.mem_cons, List.mem_append, List.mem_cons] at hq
      rcases hq with rfl | hq | rfl | hq
      · exact hcampaignThrough
      · exact (hplain.middle q hq).comesThrough app
      · exact hreturnThrough
      · exact (hplain.last q hq).comesThrough app
    rw [query_whole hplain (by rw [hsigned]; exact hcampaignThrough.2.1) hreturnThrough.2.1]
      at hquery
    refine ⟨url, _, hurl, ?_, rfl, rfl, rfl, hsigned, rfl⟩
    rw [hquery]
    obtain ⟨hvalidated, hsignature⟩ := validated_of_found hprice htime huuid hcampaign hlength
      haccepts fun q hq => input_linkArguments hthrough hq
    exact validate_of_found hagrees hvalidated hsignature

end RoundTrip

/-! ## Two links -/

def pricingPage : Text := "https://www.oneploy.test/pricing?plan=pro".toList

/-- What is signed for a campaign that leads here from the pricing page. -/
def signedText (campaign : Text) : Text :=
  "campaign=".toList ++ campaign ++ ("&issued_at=1000&key_id=default" ++
    "&nonce=0123456789abcdef0123456789abcdef&price_id=7&provider=stripe" ++
    "&return_url=https%3A%2F%2Fwww.oneploy.test%2Fpricing%3Fplan%3Dpro&source=wordpress").toList

/-- HMAC with the key of the site, of the texts that are signed below. -/
def bridgeDigest (data : Text) : Text :=
  if data = signedText "spring%20sale".toList then
    "7a8e57e49ff8b42e7623fde0f0edc6aa2bd1556ee0e7f094e5a969b91937216c".toList
  else if data = signedText "spring%26summer".toList then
    "cf69b75904080cdded3d5d697da2a134cc6da98f4f8aab23ce4b744ad2a1398d".toList
  else "018c01abf0949dded8436150d44ca3776fc3459bb9f47acf8d93ffbcd2264bc5".toList

theorem bridgeDigest_form (data : Text) :
    (bridgeDigest data).length = 64 ∧
      ∀ c ∈ bridgeDigest data, c.isDigit = true ∨ c ∈ "abcdef".toList := by
  have hform : (bridgeDigest data).length = 64 ∧
      ((bridgeDigest data).all fun c => c.isDigit || "abcdef".toList.contains c) = true := by
    unfold bridgeDigest
    split
    · decide +kernel
    split <;> decide +kernel
  refine ⟨hform.1, fun c hc => ?_⟩
  have hhex := List.all_eq_true.mp hform.2 c hc
  rwa [Bool.or_eq_true, List.contains_iff_mem] at hhex

def bridgeHmac : HmacSha256 where
  digest := fun data _ => bridgeDigest data
  length := fun data _ => (bridgeDigest_form data).1
  lowerHex := fun data _ => (bridgeDigest_form data).2

def trimEnds (s : Text) : Text :=
  ((s.dropWhile isTrimmed).reverse.dropWhile isTrimmed).reverse

theorem trimEnds_isInfix (s : Text) : trimEnds s <:+: s := by
  have hfront : s.dropWhile isTrimmed <:+: s := (List.dropWhile_suffix _).isInfix
  have hback : trimEnds s <+: s.dropWhile isTrimmed := by
    have h := List.dropWhile_suffix (l := (s.dropWhile isTrimmed).reverse) isTrimmed
    rwa [← List.reverse_prefix, List.reverse_reverse] at h
  exact hback.isInfix.trans hfront

theorem trimEnds_plain {s : Text} (h : Plain s) : trimEnds s = s := by
  have hno : ∀ c ∈ s, isTrimmed c = false := fun c hc => isTrimmed_of_isPlainChar (h c hc)
  rw [trimEnds, dropWhile_eq_self hno,
    dropWhile_eq_self fun c hc => hno c (List.mem_reverse.mp hc), List.reverse_reverse]

def isHttpsText (s : Text) : Bool := "https://".toList.isPrefixOf s

theorem isFilled_of_isHttpsText {s : Text} (h : isHttpsText s = true) : isFilled s = true := by
  obtain ⟨rest, rfl⟩ := List.isPrefixOf_iff_prefix.mp h
  rfl

def bridgeSite : BridgeSite where
  secret := "wordpress-bridge-test-secret".toList
  keyId := "default".toList
  appUrl := "https://app.oneploy.test".toList
  sanitizeTextField := id
  sanitizeKey := id
  keyId_form := ⟨by decide, by decide, List.all_eq_true.mp (by decide)⟩
  appUrl_form := by decide

def bridgeApp : HandoffApp where
  secret := "wordpress-bridge-test-secret".toList
  keyId := "default".toList
  marketingUrl := "https://www.oneploy.test".toList
  ttlSeconds := 900
  parseUrl := fun url =>
    if "https://www.oneploy.test".toList.isPrefixOf url then
      ⟨some "https".toList, some "www.oneploy.test".toList, none⟩
    else ⟨none, none, none⟩
  trimStrings := ⟨trimEnds, trimEnds_isInfix, fun _ => trimEnds_plain⟩
  httpsRule := ⟨isHttpsText, fun _ => isFilled_of_isHttpsText⟩
  activePrice := (· == 7)

def bridgeUuid : Text := "01234567-89ab-cdef-0123-456789abcdef".toList

theorem agrees_bridge : Agrees bridgeSite bridgeApp 7 pricingPage 1000 1010000000 where
  configured := by decide
  secret := rfl
  keyId := rfl
  price := by decide
  origin := by decide +kernel
  inTime := by decide

theorem isUuid_bridgeUuid : IsUuid bridgeUuid := by
  refine ⟨by decide, fun c hc => ?_⟩
  have hall : ((bridgeUuid.filter (· ≠ '-')).all fun c =>
      c.isDigit || "abcdef".toList.contains c) = true := by decide
  have hhex := List.all_eq_true.mp hall c hc
  rwa [Bool.or_eq_true, List.contains_iff_mem] at hhex

theorem round_trips_iff_spring_sale :
    RoundTrips bridgeSite bridgeApp bridgeHmac 7 "stripe".toList "spring sale".toList pricingPage
      1000 bridgeUuid 1010000000 :=
  (round_trips_iff bridgeSite bridgeApp bridgeHmac 7 "stripe".toList "spring sale".toList
    pricingPage 1000 bridgeUuid 1010000000 agrees_bridge (by unfold IsId; decide)
    (by unfold IsId; decide) isUuid_bridgeUuid ⟨rfl, by decide⟩ (by decide)).mpr
    ⟨by unfold ComesThrough; decide +kernel, by unfold ComesThrough; decide +kernel, by decide⟩

/-- An ampersand in the campaign makes the application see another campaign and another
signature. -/
theorem ampersand_breaks_link :
    Agrees bridgeSite bridgeApp 7 pricingPage 1000 1010000000 ∧ IsId 7 ∧ IsId 1000 ∧
      IsUuid bridgeUuid ∧ Sanitised bridgeSite "spring&summer".toList ∧
      ¬ RoundTrips bridgeSite bridgeApp bridgeHmac 7 "stripe".toList "spring&summer".toList
        pricingPage 1000 bridgeUuid 1010000000 := by
  refine ⟨agrees_bridge, by unfold IsId; decide, by unfold IsId; decide, isUuid_bridgeUuid,
    ⟨rfl, by decide⟩, ?_⟩
  have hrefused : ∀ url, bridgeSite.signedCheckoutUrl bridgeHmac 7 "stripe".toList
      "spring&summer".toList pricingPage 1000 bridgeUuid = .ok url →
      bridgeApp.validate bridgeHmac (bridgeApp.input (queryString url)) 1010000000
        = .error "The WordPress checkout handoff signature is invalid." := by
    intro url hurl
    rw [← Except.ok.inj hurl]
    decide +kernel
  rintro ⟨url, payload, hurl, hvalidate, -⟩
  rw [hrefused url hurl] at hvalidate
  cases hvalidate

end OnePloy
