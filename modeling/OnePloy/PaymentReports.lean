import OnePloy.Lib.PhpValue

/-!
# What providers report about payments

`PaymentWebhookVerifier` turns the webhook bodies of three providers into one
record, and `PayPalClient::paymentData` does the same for the answers of the
PayPal API. Either way what counts of it is a `PaymentReport`: the provider,
the checkout it names, the amount and whether the payment succeeded.

What floats and Unicode do (`round((float) $v * 100)`, `mb_strtoupper`) is left
to `Conversions`, and whether a request is signed is a fact about the request.
-/

namespace OnePloy

open Php

/-! ## Normalised reports -/

structure Conversions where
  /-- `is_numeric($v) ? (int) round((float) $v * 100) : null`. -/
  minorAmount : Value → Option Int
  /-- `is_numeric($v) ? (int) $v : null`. -/
  integerOrNull : Value → Option Int
  /-- `Str::upper`. -/
  upper : String → String

/-- What `PaymentWebhookVerifier::verify` returns. -/
structure VerifiedWebhook where
  eventId : String
  providerReference : String
  checkoutUuid : Option String
  amountMinor : Option Int
  currency : Option String
  isPaymentSuccess : Bool
  auditPayload : List (String × Value)

/-- What `PayPalClient::paymentData` returns. -/
structure PayPalPayment where
  checkoutUuid : Option String
  providerReference : Option String
  amountMinor : Option Int
  currency : Option String
  status : String

/-- What a provider has said about a payment. -/
structure PaymentReport where
  provider : String
  checkoutUuid : Option String
  amountMinor : Option Int
  currency : Option String
  success : Bool

def VerifiedWebhook.report (v : VerifiedWebhook) (provider : String) : PaymentReport :=
  ⟨provider, v.checkoutUuid, v.amountMinor, v.currency, v.isPaymentSuccess⟩

def PayPalPayment.report (p : PayPalPayment) : PaymentReport :=
  ⟨"paypal", p.checkoutUuid, p.amountMinor, p.currency, p.status == "COMPLETED"⟩

/-! ## The PayPal API -/

def stringOrNull (v : Value) : Option String :=
  match v with
  | .string s => if s = "" then none else some s
  | _ => none

/-- `paymentData`, of an answer that decodes to an array. -/
def paymentData (conv : Conversions) (order : Value) : Except String PayPalPayment := do
  let purchaseUnit := (order.dataGetOr (.list []) ["purchase_units", "0"]).toArray
  let capture := (purchaseUnit.dataGetOr (.list []) ["payments", "captures", "0"]).toArray
  let amount := (capture.dataGet ["amount", "value"]).coalesce
    (purchaseUnit.dataGet ["amount", "value"])
  let currency := (capture.dataGet ["amount", "currency_code"]).coalesce
    (purchaseUnit.dataGet ["amount", "currency_code"])
  let status ← ((capture.dataGet ["status"]).coalesce
    (order.dataGetOr (.string "") ["status"])).toText
  .ok {
    checkoutUuid := stringOrNull ((purchaseUnit.dataGet ["custom_id"]).coalesce
      (purchaseUnit.dataGet ["reference_id"]))
    providerReference := stringOrNull ((capture.dataGet ["id"]).coalesce (order.dataGet ["id"]))
    amountMinor := conv.minorAmount amount
    -- `Str::length` counts characters
    currency := currency.asString.bind fun c => if c.length = 3 then some (conv.upper c) else none
    status := strtoupper status }

/-! ## Webhooks -/

/-- A webhook request: what its body decodes to, whether the provider's
signature check accepts it, and what PayPal answers when asked for the order. -/
structure WebhookRequest where
  payload : Option Value
  signed : Bool
  contentHash : String
  eventIdHeader : Option String
  order : Option Value

/-- The verifier's `currencyOrNull`: `strlen` counts bytes. -/
def currencyOrNull (v : Value) : Option String :=
  v.asString.bind fun c => if c.utf8ByteSize = 3 then some (strtoupper c) else none

def normalized (provider eventId eventType providerReference : String)
    (checkoutUuid : Option String) (amountMinor : Option Int) (currency : Option String)
    (isPaymentSuccess : Bool) (paymentStatus : String) : VerifiedWebhook where
  eventId := eventId
  providerReference := providerReference
  checkoutUuid := checkoutUuid
  amountMinor := amountMinor
  currency := currency
  isPaymentSuccess := isPaymentSuccess
  auditPayload := [
    ("provider", .string provider),
    ("event_id", .string eventId),
    ("event_type", .string eventType),
    ("object_id", .string providerReference),
    ("checkout_uuid", checkoutUuid.elim .null .string),
    ("amount_minor", amountMinor.elim .null .int),
    ("currency", currency.elim .null .string),
    ("payment_status", .string paymentStatus)]

/-- The checkout a PayPal resource names, by way of its order if need be. -/
def payPalCheckoutUuid (conv : Conversions) (resource : Value) (order : Option Value) :
    Except String (Option String) :=
  let named := (resource.dataGet ["custom_id"]).coalesce (resource.dataGet ["invoice_id"])
  match named.asString with
  | some uuid => .ok (some uuid)
  | none =>
      match (resource.dataGet ["supplementary_data", "related_ids", "order_id"]).asString with
      | none => .ok none
      | some orderId =>
          if orderId = "" then .ok none
          else match order with
            | none => .error "PayPal did not answer."
            | some order =>
                if order.isArray then do
                  let payment ← paymentData conv order
                  .ok payment.checkoutUuid
                else .error "Return value must be of type array."

def verifyPayPal (conv : Conversions) (request : WebhookRequest) :
    Except String (Option VerifiedWebhook) :=
  match request.payload with
  | none => .ok none
  | some payload =>
      if !request.signed || !payload.isArray then .ok none
      else do
        let eventType ← (payload.dataGetOr (.string "") ["event_type"]).toText
        let resource := (payload.dataGetOr (.list []) ["resource"]).toArray
        match payload.dataGet ["id"] with
        | .string eventId =>
            if eventId = "" then .ok none
            else do
              let checkoutUuid ← payPalCheckoutUuid conv resource request.order
              let providerReference ← (((resource.dataGet ["id"]).elvis
                (resource.dataGet ["supplementary_data", "related_ids", "order_id"])).elvis
                (.string eventId)).toText
              let status ← (resource.dataGetOr (.string "") ["status"]).toText
              .ok (some (normalized "paypal" eventId eventType providerReference checkoutUuid
                (conv.minorAmount (resource.dataGet ["amount", "value"]))
                (currencyOrNull (resource.dataGet ["amount", "currency_code"]))
                (eventType == "PAYMENT.CAPTURE.COMPLETED" && strtoupper status == "COMPLETED")
                status))
        | _ => .ok none

def stripeSuccessTypes : List String :=
  ["checkout.session.completed", "checkout.session.async_payment_succeeded",
    "payment_intent.succeeded"]

def verifyStripe (conv : Conversions) (request : WebhookRequest) :
    Except String (Option VerifiedWebhook) :=
  match request.payload with
  | none => .ok none
  | some payload =>
      if !request.signed then .ok none
      else do
        let object := (payload.dataGetOr (.list []) ["data", "object"]).toArray
        let eventType ← (payload.dataGet ["type"]).toText
        let paymentStatus ← (object.dataGetOr (.string "") ["payment_status"]).toText
        let isPaidCheckout := !eventType.startsWith "checkout.session." ||
          ["paid", "no_payment_required"].contains paymentStatus
        let checkoutUuid := ((object.dataGet ["client_reference_id"]).elvis
          (object.dataGet ["metadata", "oneploy_checkout_id"])).elvis
          (object.dataGet ["metadata", "checkout_id"])
        let eventId ← (payload.dataGet ["id"]).toText
        let providerReference ← (((object.dataGet ["payment_intent"]).elvis
          (object.dataGet ["id"])).elvis (payload.dataGet ["id"])).toText
        .ok (some (normalized "stripe" eventId eventType providerReference checkoutUuid.asString
          (conv.integerOrNull ((object.dataGet ["amount_total"]).coalesce
            (object.dataGet ["amount_received"])))
          (currencyOrNull (object.dataGet ["currency"]))
          (stripeSuccessTypes.contains eventType && isPaidCheckout) paymentStatus))

def verifyRazorpay (conv : Conversions) (request : WebhookRequest) :
    Except String (Option VerifiedWebhook) :=
  match request.payload with
  | none => .ok none
  | some payload =>
      if !request.signed || !payload.isArray then .ok none
      else do
        let eventType ← (payload.dataGetOr (.string "") ["event"]).toText
        let entity := (payload.dataGetOr (.list [])
          (if eventType = "order.paid" then ["payload", "order", "entity"]
            else ["payload", "payment", "entity"])).toArray
        let providerReference ← ((entity.dataGet ["id"]).elvis
          (.string request.contentHash)).toText
        let eventId := match request.eventIdHeader with
          | some id => if id = "" || id = "0" then eventType ++ ":" ++ providerReference else id
          | none => eventType ++ ":" ++ providerReference
        let checkoutUuid := (entity.dataGet ["notes", "oneploy_checkout_id"]).elvis
          (entity.dataGet ["notes", "checkout_id"])
        let status ← (entity.dataGetOr (.string "") ["status"]).toText
        .ok (some (normalized "razorpay" eventId eventType providerReference checkoutUuid.asString
          (conv.integerOrNull (entity.dataGet ["amount"]))
          (currencyOrNull (entity.dataGet ["currency"]))
          (["payment.captured", "order.paid"].contains eventType) status))

/-- `verify`; `none` is an invalid signature. -/
def verify (conv : Conversions) (request : WebhookRequest) (provider : String) :
    Except String (Option VerifiedWebhook) :=
  match provider with
  | "stripe" => verifyStripe conv request
  | "razorpay" => verifyRazorpay conv request
  | "paypal" => verifyPayPal conv request
  | _ => .ok none

end OnePloy
