import OnePloy.Lib.Expiring
import OnePloy.Lib.PhpText
import Mathlib.Data.List.Basic

/-!
# HandoffReserve

Who may check out with a link that the marketing site signed. Confirming the link
reserves its nonce in the cache, under the name of the team and user that confirm,
for as long as the link can be accepted; the names are compared by their digests.

The clock counts microseconds. A call is made at one moment, and the cache keeps an
entry for exactly the time it is given.
-/

namespace OnePloy

open Expiring Php

/-- A byte string, each byte written as the character of its number. -/
abbrev Text := List Char

/-- `(string)` of an integer. -/
def decimal (n : Int) : Text :=
  if n < 0 then '-' :: Nat.toDigits 10 n.natAbs else Nat.toDigits 10 n.natAbs

/-- What the marketing site signs. -/
structure HandoffPayload where
  priceId : Int
  provider : Text
  issuedAt : Int
  nonce : Text
  keyId : Text
  source : Text
  campaign : Text
  returnUrl : Option Text
deriving DecidableEq

/-- `now()->timestamp`. -/
def timestamp (now : Int) : Int := now / 1000000

/-- `max(60, (int) config('oneploy.wordpress_bridge.ttl_seconds', 900))`. -/
def bridgeTtl (ttlSeconds : Int) : Int := max 60 ttlSeconds

section Reserve

variable (sha256 : Text → Text) (ttlSeconds : Int)

def reservationKey (payload : HandoffPayload) : Text :=
  "oneploy:wordpress-handoff:".toList ++ sha256 (payload.keyId ++ '\x00' :: payload.nonce)

/-- `$teamId."\0".$userId`. -/
def ownerName (teamId userId : Int) : Text := decimal teamId ++ '\x00' :: decimal userId

/-- `reserve`, with the cache it leaves. -/
def reserve (payload : HandoffPayload) (teamId userId : Int) (now : Int)
    (cache : Store Text Text) : Bool × Store Text Text :=
  let remainingSeconds := (payload.issuedAt + bridgeTtl ttlSeconds) - timestamp now
  if remainingSeconds < 1 then (false, cache)
  else
    let key := reservationKey sha256 payload
    let owner := sha256 (ownerName teamId userId)
    let added := add cache now (remainingSeconds * 1000000) key owner
    if added.1 then (true, added.2)
    else
      match get added.2 now key with
      | none => (false, added.2)
      | some existingOwner => (owner == existingOwner, added.2)

/-- A call of `reserve` for some link. -/
structure ReserveCall where
  teamId : Int
  userId : Int
  now : Int

/-- Calls for one link, one after the other, each with its answer. -/
def reserveAll (payload : HandoffPayload) (cache : Store Text Text) :
    List ReserveCall → List (ReserveCall × Bool)
  | [] => []
  | call :: calls =>
      let reserved := reserve sha256 ttlSeconds payload call.teamId call.userId call.now cache
      (call, reserved.1) :: reserveAll payload reserved.2 calls

end Reserve

/-! ## Names of owners -/

theorem mem_decimal {n : Int} {c : Char} (h : c ∈ decimal n) : c = '-' ∨ c.isDigit = true := by
  unfold decimal at h
  split at h
  · rcases List.mem_cons.mp h with rfl | hc
    · exact .inl rfl
    · exact .inr (isDigit_of_mem_toDigits hc)
  · exact .inr (isDigit_of_mem_toDigits h)

theorem nul_notMem_decimal (n : Int) : '\x00' ∉ decimal n := by
  intro h
  rcases mem_decimal h with h | h <;> revert h <;> decide

theorem decimal_injective {m n : Int} (h : decimal m = decimal n) : m = n := by
  have hsign : ∀ k : Nat, ∀ ds : List Char, Nat.toDigits 10 k ≠ '-' :: ds := by
    intro k ds hk
    have : ('-' : Char).isDigit = true :=
      isDigit_of_mem_toDigits (n := k) (by rw [hk]; exact List.mem_cons_self ..)
    revert this
    decide
  unfold decimal at h
  split at h <;> split at h
  · have := toDigits_injective (List.cons.inj h).2
    omega
  · exact absurd h.symm (hsign _ _)
  · exact absurd h (hsign _ _)
  · have := toDigits_injective h
    omega

theorem ownerName_injective {t u t' u' : Int} (h : ownerName t u = ownerName t' u') :
    t = t' ∧ u = u' := by
  obtain ⟨ht, -, hu⟩ :=
    (List.append_cons_inj_of_notMem (nul_notMem_decimal t) (nul_notMem_decimal u)).mp h
  exact ⟨decimal_injective ht, decimal_injective hu⟩

/-! ## One call -/

section Reserve

variable {sha256 : Text → Text} {ttlSeconds : Int} {payload : HandoffPayload}
  {cache : Store Text Text}

/-- The moment from which the link is refused. -/
def closesAt (ttlSeconds : Int) (payload : HandoffPayload) : Int :=
  payload.issuedAt + bridgeTtl ttlSeconds

/-- The nonce is kept for an owner as long as the link is open. -/
def ReservedFor (sha256 : Text → Text) (ttlSeconds : Int) (payload : HandoffPayload)
    (cache : Store Text Text) (owner : Text) : Prop :=
  HeldUntil cache (reservationKey sha256 payload) owner (closesAt ttlSeconds payload * 1000000)

theorem remaining_lt_one_iff (now : Int) :
    (payload.issuedAt + bridgeTtl ttlSeconds) - timestamp now < 1 ↔
      ¬ timestamp now < closesAt ttlSeconds payload := by
  unfold closesAt
  omega

theorem now_lt_of_timestamp {now closes : Int} (h : timestamp now < closes) :
    now < closes * 1000000 := by
  unfold timestamp at h
  omega

/-- A link that is closed changes nothing. -/
theorem reserve_closed {now : Int} (h : ¬ timestamp now < closesAt ttlSeconds payload)
    (teamId userId : Int) :
    reserve sha256 ttlSeconds payload teamId userId now cache = (false, cache) := by
  rw [reserve, if_pos (remaining_lt_one_iff now |>.mpr h)]

/-- The first to come keeps the nonce. The entry is written for whole seconds from a
moment within one, so it is there a little longer than the link is open. -/
theorem reserve_free {now : Int} (hopen : timestamp now < closesAt ttlSeconds payload)
    (hfree : cache (reservationKey sha256 payload) = none) (teamId userId : Int) :
    (reserve sha256 ttlSeconds payload teamId userId now cache).1 = true ∧
      ReservedFor sha256 ttlSeconds payload
        (reserve sha256 ttlSeconds payload teamId userId now cache).2
        (sha256 (ownerName teamId userId)) := by
  have hleft : ¬ (payload.issuedAt + bridgeTtl ttlSeconds) - timestamp now < 1 :=
    fun hlt => remaining_lt_one_iff now |>.mp hlt hopen
  have hlife : 0 < ((payload.issuedAt + bridgeTtl ttlSeconds) - timestamp now) * 1000000 := by
    omega
  simp only [reserve, if_neg hleft, add_of_none hfree hlife, if_true, true_and]
  refine heldUntil_update _ _ _ ?_
  unfold closesAt timestamp
  omega

/-- Whoever comes later is told whether the nonce is theirs. -/
theorem reserve_reserved {now : Int} {owner : Text}
    (hopen : timestamp now < closesAt ttlSeconds payload)
    (hres : ReservedFor sha256 ttlSeconds payload cache owner) (teamId userId : Int) :
    reserve sha256 ttlSeconds payload teamId userId now cache
      = (sha256 (ownerName teamId userId) == owner, cache) := by
  have hleft : ¬ (payload.issuedAt + bridgeTtl ttlSeconds) - timestamp now < 1 :=
    fun hlt => remaining_lt_one_iff now |>.mp hlt hopen
  have hnow := now_lt_of_timestamp hopen
  rw [reserve, if_neg hleft]
  simp only [hres.add_eq hnow, hres.get_eq hnow, Bool.false_eq_true, if_false]

/-! ## Runs -/

/-- Once the nonce is kept, every answer is known, and it stays kept. -/
theorem reserveAll_reserved {owner : Text}
    (hres : ReservedFor sha256 ttlSeconds payload cache owner) (calls : List ReserveCall) :
    ∀ answered ∈ reserveAll sha256 ttlSeconds payload cache calls,
      answered.1 ∈ calls ∧
        (answered.2 = true ↔ sha256 (ownerName answered.1.teamId answered.1.userId) = owner ∧
          timestamp answered.1.now < closesAt ttlSeconds payload) := by
  induction calls with
  | nil => nofun
  | cons call calls ih =>
      have hcall : ∃ answer, reserve sha256 ttlSeconds payload call.teamId call.userId call.now
            cache = (answer, cache) ∧
          (answer = true ↔ sha256 (ownerName call.teamId call.userId) = owner ∧
            timestamp call.now < closesAt ttlSeconds payload) := by
        by_cases hopen : timestamp call.now < closesAt ttlSeconds payload
        · exact ⟨_, reserve_reserved hopen hres .., by simp [hopen]⟩
        · exact ⟨_, reserve_closed hopen .., by simp [hopen]⟩
      obtain ⟨answer, hreserve, hanswer⟩ := hcall
      intro answered hmem
      rw [reserveAll, hreserve] at hmem
      rcases List.mem_cons.mp hmem with rfl | hmem
      · exact ⟨List.mem_cons_self .., hanswer⟩
      · obtain ⟨hin, hiff⟩ := ih answered hmem
        exact ⟨List.mem_cons_of_mem _ hin, hiff⟩

/-- The calls by one team and user. -/
def ReserveCall.SameOwner (a b : ReserveCall) : Prop := a.teamId = b.teamId ∧ a.userId = b.userId

/-- The owners' digests that are compared do not collide. -/
def Distinguishes (sha256 : Text → Text) (calls : List ReserveCall) : Prop :=
  ∀ a ∈ calls, ∀ b ∈ calls,
    sha256 (ownerName a.teamId a.userId) = sha256 (ownerName b.teamId b.userId) →
      ownerName a.teamId a.userId = ownerName b.teamId b.userId

theorem Distinguishes.eq_iff {calls : List ReserveCall} (h : Distinguishes sha256 calls)
    {a b : ReserveCall} (ha : a ∈ calls) (hb : b ∈ calls) :
    sha256 (ownerName a.teamId a.userId) = sha256 (ownerName b.teamId b.userId) ↔
      a.SameOwner b := by
  constructor
  · intro heq
    exact ownerName_injective (h a ha b hb heq)
  · intro hsame
    rw [hsame.1, hsame.2]

theorem Distinguishes.tail {call : ReserveCall} {calls : List ReserveCall}
    (h : Distinguishes sha256 (call :: calls)) : Distinguishes sha256 calls :=
  fun a ha b hb => h a (List.mem_cons_of_mem _ ha) b (List.mem_cons_of_mem _ hb)

/-- Once a call is answered with true, the later ones are exactly when they are made for
the same team and user while the link is open. -/
theorem nonce_has_one_owner (sha256 : Text → Text) (ttlSeconds : Int) (payload : HandoffPayload)
    (cache : Store Text Text) (calls : List ReserveCall)
    (hfree : cache (reservationKey sha256 payload) = none)
    (hdistinct : Distinguishes sha256 calls) :
    (reserveAll sha256 ttlSeconds payload cache calls).Pairwise fun first later =>
      first.2 = true →
        (later.2 = true ↔ later.1.SameOwner first.1 ∧
          timestamp later.1.now < payload.issuedAt + bridgeTtl ttlSeconds) := by
  induction calls with
  | nil => exact .nil
  | cons call calls ih =>
      by_cases hopen : timestamp call.now < closesAt ttlSeconds payload
      · obtain ⟨htrue, hres⟩ := reserve_free hopen hfree call.teamId call.userId
        have hrest := reserveAll_reserved hres calls
        -- The first answer says the same of the owner as the ones after it.
        have hall : ∀ answered ∈ reserveAll sha256 ttlSeconds payload cache (call :: calls),
            answered.1 ∈ call :: calls ∧
              (answered.2 = true ↔
                sha256 (ownerName answered.1.teamId answered.1.userId)
                  = sha256 (ownerName call.teamId call.userId) ∧
                timestamp answered.1.now < closesAt ttlSeconds payload) := by
          intro answered hmem
          rw [reserveAll, htrue] at hmem
          rcases List.mem_cons.mp hmem with rfl | hmem
          · exact ⟨List.mem_cons_self .., by simp [hopen]⟩
          · obtain ⟨hin, hiff⟩ := hrest answered hmem
            exact ⟨List.mem_cons_of_mem _ hin, hiff⟩
        refine List.pairwise_of_forall_mem_list fun first hfirst later hlater htrue => ?_
        obtain ⟨hfirstIn, hfirstIff⟩ := hall first hfirst
        obtain ⟨hlaterIn, hlaterIff⟩ := hall later hlater
        rw [hlaterIff, ← (hfirstIff.mp htrue).1, hdistinct.eq_iff hlaterIn hfirstIn]
        rfl
      · rw [reserveAll, reserve_closed hopen]
        exact List.pairwise_cons.mpr ⟨nofun, ih hdistinct.tail⟩

end Reserve

def confirmedLink : HandoffPayload where
  priceId := 7
  provider := "stripe".toList
  issuedAt := 1000
  nonce := "0123456789abcdef0123456789abcdef".toList
  keyId := "default".toList
  source := "wordpress".toList
  campaign := []
  returnUrl := none

/-- SHA-256 of the texts that the calls below hash. -/
def confirmedDigests (text : Text) : Text :=
  if text = ownerName 1 2 then
    "095017f4ff17aff8b757bee2644bca44d767a993e9201233050b1db26965cb80".toList
  else if text = ownerName 1 3 then
    "6a1a8176140218031e7e90b5a996efa5b7744beea6c082e3457f8ece49864ba1".toList
  else "561d9d8bdd701d0f0eb5a776b54e3ae2defc018ca13abb1b142fdb07abbc48a6".toList

/-- The last two calls are made just before the link closes and just when it does. -/
def confirmations : List ReserveCall :=
  [⟨1, 2, 1010500000⟩, ⟨1, 3, 1020000000⟩, ⟨1, 2, 1899999999⟩, ⟨1, 2, 1900000000⟩]

theorem nonce_has_one_owner_confirmed :
    ((reserveAll confirmedDigests 900 confirmedLink (fun _ => none) confirmations).Pairwise
      fun first later =>
        first.2 = true →
          (later.2 = true ↔ later.1.SameOwner first.1 ∧
            timestamp later.1.now < confirmedLink.issuedAt + bridgeTtl 900)) ∧
      (reserveAll confirmedDigests 900 confirmedLink (fun _ => none) confirmations).map Prod.snd
        = [true, false, true, false] :=
  ⟨nonce_has_one_owner confirmedDigests 900 confirmedLink (fun _ => none) confirmations rfl
    (by unfold Distinguishes; decide +kernel), by decide +kernel⟩

end OnePloy
