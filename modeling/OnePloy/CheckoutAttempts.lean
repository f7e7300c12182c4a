import OnePloy.CheckoutSettlement
import OnePloy.CheckoutCalls

/-!
# Attempts to start a payment

Several calls of `startPayment` on one session, statement by statement: the
claim, the call to the provider, and the transaction or the update that ends
the attempt. A claim that is two minutes old may be taken over, and the attempt
that lost it is still running. When it ends it looks at provider and status
only, which are those of the new claim: its failure opens the session again, its
success writes its own reference (`superseded_attempts_damage`). As long as no
such attempt ends while the session is being initiated, the latest claim gets
what its provider answered (`latest_attempt_wins`).
-/

namespace OnePloy

open Conc Php

/-! ## The system -/

/-- How far an attempt has come. -/
inductive AttemptPhase
  | idle
  /-- It holds, or held, the claim, and waits for the provider. -/
  | initiating (provider : String)
  | initiated (provider : String) (result : InitiationResult)
  | initiationFailed (provider : String)
  /-- Its last transaction is over, whether it wrote the result or threw. -/
  | finished (result : InitiationResult)
  | ended

structure AttemptState where
  db : CommerceDb
  clock : Nat
  attempts : Nat → AttemptPhase
  /-- The attempt that made the latest claim. -/
  latest : Option Nat

inductive AttemptAction
  | claim (k : Nat) (provider : String)
  | answer (k : Nat) (result : InitiationResult)
  | throws (k : Nat)
  | finish (k : Nat)
  | fail (k : Nat)
  | crash (k : Nat)
  | pass (seconds : Nat)
  /-- What a settlement writes to the session. -/
  | pay
  /-- The cancel route, on the session as it was read. -/
  | cancel (read : CheckoutSession)
  /-- The reconciliation of a session that has expired. -/
  | expire

def AttemptState.become (s : AttemptState) (k : Nat) (phase : AttemptPhase) : AttemptState :=
  { s with attempts := Function.update s.attempts k phase }

/-- One statement of an attempt on the session `sessionId`, or an event beside
the attempts. -/
def attemptStep (sessionId : Nat) (s : AttemptState) : AttemptAction → Option AttemptState
  | .claim k provider =>
      match s.attempts k with
      | .idle =>
          some (match s.db.claimPayment s.clock sessionId provider with
            | .error _ => s.become k .ended
            | .ok (db, .start) =>
                { s.become k (.initiating provider) with db := db, latest := some k }
            | .ok (db, _) => { s.become k .ended with db := db })
      | _ => none
  | .answer k result =>
      match s.attempts k with
      | .initiating provider => some (s.become k (.initiated provider result))
      | _ => none
  | .throws k =>
      match s.attempts k with
      | .initiating provider => some (s.become k (.initiationFailed provider))
      | _ => none
  | .finish k =>
      match s.attempts k with
      | .initiated provider result =>
          some { s.become k (.finished result) with
            db := commit s.db (s.db.finishPayment s.clock sessionId provider result) }
      | _ => none
  | .fail k =>
      match s.attempts k with
      | .initiationFailed provider =>
          some { s.become k .ended with db := s.db.failPayment s.clock sessionId provider }
      | _ => none
  | .crash k =>
      match s.attempts k with
      | .initiating _ | .initiated _ _ | .initiationFailed _ => some (s.become k .ended)
      | _ => none
  | .pass seconds => some { s with clock := s.clock + seconds }
  | .pay => some { s with db := s.db.updateSession sessionId (·.markedPaid s.clock) }
  | .cancel read => some { s with db := s.db.cancelSession s.clock sessionId read }
  | .expire => some { s with db := s.db.expireSession s.clock sessionId }

/-- A payment, an expiry or a cancellation has come between. -/
def CheckoutSession.Intervened (session : CheckoutSession) : Prop :=
  session.status = .paid ∨ session.status = .expired ∨ session.status = .cancelled

/-- If the attempt with the latest claim has got through with what its provider
answered, the session has its reference and waits for the provider. -/
def LatestWins (sessionId : Nat) (s : AttemptState) : Prop :=
  ∀ k result session, s.latest = some k → s.attempts k = .finished result →
    s.db.sessions.get? sessionId = some session → ¬ session.Intervened →
    session.status = .pendingProvider ∧
      session.providerReference = some result.providerReference

/-- An attempt that has lost its claim does not end while the session is being
initiated. -/
def NoneTooLate (sessionId : Nat) (s : AttemptState) : AttemptAction → Prop
  | .finish k | .fail k => s.latest = some k ∨
      ∀ session, s.db.sessions.get? sessionId = some session →
        session.status ≠ .initiatingProvider
  | _ => True

instance (sessionId : Nat) (s : AttemptState) : Decidable (∀ session,
    s.db.sessions.get? sessionId = some session → session.status ≠ .initiatingProvider) :=
  decidable_of_iff
    ((s.db.sessions.get? sessionId).all (·.status != .initiatingProvider) = true) (by
      simp only [Option.all_eq_true, bne_iff_ne])

instance (sessionId : Nat) : DecidableRel (NoneTooLate sessionId)
  | s, .finish k => inferInstanceAs (Decidable (s.latest = some k ∨ ∀ session,
      s.db.sessions.get? sessionId = some session → session.status ≠ .initiatingProvider))
  | s, .fail k => inferInstanceAs (Decidable (s.latest = some k ∨ ∀ session,
      s.db.sessions.get? sessionId = some session → session.status ≠ .initiatingProvider))
  | _, .claim _ _ | _, .answer _ _ | _, .throws _ | _, .crash _ | _, .pass _ | _, .pay
  | _, .cancel _ | _, .expire => isTrue trivial

/-! ## The invariant -/

/-- What the latest claim still has of the session. -/
def AttemptPhase.Owns (session : CheckoutSession) : AttemptPhase → Prop
  | .idle => False
  | .initiating provider | .initiated provider _ | .initiationFailed provider =>
      session.status = .initiatingProvider ∧ session.provider = some provider
  | .finished result => session.status = .pendingProvider ∧
      session.providerReference = some result.providerReference
  | .ended => True

/-- The latest claim is in force, unless something has come between. -/
structure ClaimHeld (sessionId : Nat) (s : AttemptState) : Prop where
  started : ∀ k, s.latest = some k → s.attempts k ≠ .idle
  owns : ∀ k session, s.latest = some k → s.db.sessions.get? sessionId = some session →
    session.Intervened ∨ (s.attempts k).Owns session

section Statements

variable {db db' : CommerceDb} {now sessionId : Nat} {provider : String}
  {session : CheckoutSession}

/-- After a claim the session is the provider's; after any other answer it is as
it was, or expired. -/
theorem claimPayment_session {state : StartState}
    (h : db.claimPayment now sessionId provider = .ok (db', state)) :
    (state = .start → ∀ session, db'.sessions.get? sessionId = some session →
      session.status = .initiatingProvider ∧ session.provider = some provider) ∧
    (state ≠ .start → db' = db ∨ ∀ session, db'.sessions.get? sessionId = some session →
      session.status = .expired) := by
  unfold CommerceDb.claimPayment at h
  split at h
  · cases h
  · next locked hget =>
      have hupdated : ∀ f, (db.updateSession sessionId (·.update f now)).sessions.get? sessionId =
          some (locked.update f now) := fun f => Table.get?_modify_self _ hget
      -- the answers that change nothing
      have hsame : ∀ {other : StartState},
          (Except.ok (db, other) : Except String _) = .ok (db', state) → other ≠ .start →
          (state = .start → ∀ session, db'.sessions.get? sessionId = some session →
            session.status = .initiatingProvider ∧ session.provider = some provider) ∧
          (state ≠ .start → db' = db ∨ ∀ session,
            db'.sessions.get? sessionId = some session → session.status = .expired) := by
        intro other hok hne
        obtain ⟨rfl, rfl⟩ := Prod.mk.inj (Except.ok.inj hok)
        exact ⟨fun h => absurd h hne, fun _ => .inl rfl⟩
      split at h
      · exact hsame h nofun
      · split at h
        · obtain ⟨rfl, rfl⟩ := Prod.mk.inj (Except.ok.inj h)
          refine ⟨nofun, fun _ => .inr fun session hs => ?_⟩
          obtain rfl := Option.some.inj ((hupdated _).symm.trans hs)
          simp
        · split at h
          · exact hsame h nofun
          · split at h
            · cases h
            · split at h
              · exact hsame h nofun
              · split at h
                · exact hsame h nofun
                · obtain ⟨rfl, rfl⟩ := Prod.mk.inj (Except.ok.inj h)
                  refine ⟨fun _ session hs => ?_, fun hne => absurd rfl hne⟩
                  obtain rfl := Option.some.inj ((hupdated _).symm.trans hs)
                  simp

variable (now) in
/-- The success writes the result on a session that the provider is initiating,
and nothing on any other. -/
theorem finishPayment_session (hs : db.sessions.get? sessionId = some session)
    (result : InitiationResult) :
    (commit db (db.finishPayment now sessionId provider result)).sessions.get? sessionId =
      if session.provider = some provider ∧ session.status = .initiatingProvider then
        some (session.update ({ · with
          status := .pendingProvider
          providerReference := some result.providerReference
          approvalUrl := result.approvalUrl
          failureReason := none
          providerPayload := some result.publicPayload }) now)
      else some session := by
  rw [CommerceDb.finishPayment, hs]
  dsimp only
  by_cases hpaid : session.status = .paid
  · rw [if_pos hpaid, if_neg (by simp [hpaid])]
    exact hs
  · rw [if_neg hpaid]
    by_cases hmine : session.provider = some provider ∧ session.status = .initiatingProvider
    · rw [if_neg (by simp [hmine]), if_pos hmine]
      exact Table.get?_modify_self _ hs
    · rw [if_pos (by tauto), if_neg hmine]
      exact hs

variable (now) in
theorem failPayment_session (hs : db.sessions.get? sessionId = some session) :
    (db.failPayment now sessionId provider).sessions.get? sessionId =
      if session.provider = some provider ∧ session.status = .initiatingProvider then
        some { session with
          status := .opened
          failureReason := some initiationException
          updatedAt := now }
      else some session := by
  rw [CommerceDb.failPayment, Table.get?_updateWhere, hs, Option.map_some]
  by_cases hmine : session.provider = some provider ∧ session.status = .initiatingProvider
  · rw [if_pos hmine, if_pos (by simp [hmine])]
  · rw [if_neg hmine, if_neg (by simpa using hmine)]

theorem updated_of_some {f : CheckoutSession → CheckoutSession}
    (h : (db.updateSession sessionId f).sessions.get? sessionId = some session) :
    ∃ old, f old = session := by
  rw [CommerceDb.updateSession, Table.get?_modify, if_pos rfl] at h
  obtain ⟨old, -, hf⟩ := Option.map_eq_some_iff.mp h
  exact ⟨old, hf⟩

end Statements

/-! ## Runs -/

section Runs

variable {sessionId : Nat} {s s' : AttemptState}

@[simp] theorem become_self (s : AttemptState) (k : Nat) (phase : AttemptPhase) :
    (s.become k phase).attempts k = phase :=
  Function.update_self ..

theorem become_of_ne (s : AttemptState) {j k : Nat} (phase : AttemptPhase) (h : j ≠ k) :
    (s.become k phase).attempts j = s.attempts j :=
  Function.update_of_ne h ..

/-- An attempt goes on, and the session stays as it was. -/
theorem ClaimHeld.become (h : ClaimHeld sessionId s) {k : Nat} {phase : AttemptPhase}
    (hphase : phase ≠ .idle)
    (howns : ∀ session, (s.attempts k).Owns session → phase.Owns session) :
    ClaimHeld sessionId (s.become k phase) := by
  refine ⟨fun j hj => ?_, fun j session hj hs => ?_⟩
  · by_cases hjk : j = k
    · subst hjk
      rwa [become_self]
    · rw [become_of_ne s phase hjk]
      exact h.started j hj
  · by_cases hjk : j = k
    · subst hjk
      rw [become_self]
      exact (h.owns j session hj hs).imp_right (howns session)
    · rw [become_of_ne s phase hjk]
      exact h.owns j session hj hs

/-- The session changes in a way that every claim in force survives. -/
theorem ClaimHeld.write (h : ClaimHeld sessionId s) {db : CommerceDb}
    (hwrite : ∀ session', db.sessions.get? sessionId = some session' →
      session'.Intervened ∨ s.db.sessions.get? sessionId = some session') :
    ClaimHeld sessionId { s with db := db } := by
  refine ⟨h.started, fun k session hk hs => ?_⟩
  rcases hwrite session hs with hout | hsame
  · exact .inl hout
  · exact h.owns k session hk hsame

theorem ClaimHeld.claim (h : ClaimHeld sessionId s) {k : Nat} {provider : String}
    (hst : attemptStep sessionId s (.claim k provider) = some s') : ClaimHeld sessionId s' := by
  simp only [attemptStep] at hst
  split at hst
  · next hidle =>
      obtain rfl := Option.some.inj hst
      have hend : ClaimHeld sessionId (s.become k .ended) :=
        h.become nofun fun _ _ => trivial
      split
      · exact hend
      · next db hclaim =>
          refine ⟨fun j hj => ?_, fun j session hj hs => .inr ?_⟩
          · obtain rfl := Option.some.inj hj
            simp
          · obtain rfl := Option.some.inj hj
            show ((s.become k (.initiating provider)).attempts k).Owns session
            rw [become_self]
            exact (claimPayment_session hclaim).1 rfl session hs
      · next db state hne hclaim =>
          refine hend.write fun session hs => ?_
          rcases (claimPayment_session hclaim).2 (by rintro rfl; exact hne rfl) with rfl | hexpired
          · exact .inr hs
          · exact .inl (.inr (.inl (hexpired session hs)))
  · cases hst

/-- The last write of an attempt: its own claim's, or one that finds no session
being initiated. -/
theorem ClaimHeld.land (h : ClaimHeld sessionId s) {k : Nat} {phase : AttemptPhase}
    {db : CommerceDb} {provider : String} {f : CheckoutSession → CheckoutSession}
    (hmine : ∀ session, (s.attempts k).Owns session → session.status = .initiatingProvider ∧
      session.provider = some provider)
    (hlate : s.latest = some k ∨ ∀ session, s.db.sessions.get? sessionId = some session →
      session.status ≠ .initiatingProvider)
    (hphase : phase ≠ .idle) (howns : ∀ session, phase.Owns (f session))
    (hwrite : ∀ session, s.db.sessions.get? sessionId = some session →
      db.sessions.get? sessionId =
        if session.provider = some provider ∧ session.status = .initiatingProvider then
          some (f session)
        else some session)
    (hnone : s.db.sessions.get? sessionId = none → db.sessions.get? sessionId = none) :
    ClaimHeld sessionId { s.become k phase with db := db } := by
  refine ⟨fun j hj => ?_, fun j session' hj hs' => ?_⟩
  · show (s.become k phase).attempts j ≠ .idle
    by_cases hjk : j = k
    · rwa [hjk, become_self]
    · rw [become_of_ne s phase hjk]
      exact h.started j hj
  · show session'.Intervened ∨ ((s.become k phase).attempts j).Owns session'
    cases hs : s.db.sessions.get? sessionId with
    | none =>
        rw [hnone hs] at hs'
        cases hs'
    | some session =>
        rw [hwrite session hs] at hs'
        split at hs'
        · next hinitiating =>
            obtain rfl := Option.some.inj hs'
            rcases hlate with hlatest | hother
            · obtain rfl := Option.some.inj (hlatest.symm.trans hj)
              rw [become_self]
              exact .inr (howns session)
            · exact absurd hinitiating.2 (hother session hs)
        · next hnot =>
            obtain rfl := Option.some.inj hs'
            by_cases hjk : j = k
            · subst hjk
              exact (h.owns j session hj hs).imp_right fun hown => absurd (hmine session hown).symm
                (by tauto)
            · rw [become_of_ne s phase hjk]
              exact h.owns j session hj hs

theorem ClaimHeld.finish (h : ClaimHeld sessionId s) {k : Nat}
    (hok : NoneTooLate sessionId s (.finish k))
    (hst : attemptStep sessionId s (.finish k) = some s') : ClaimHeld sessionId s' := by
  simp only [attemptStep] at hst
  split at hst
  · next provider result hphase =>
      obtain rfl := Option.some.inj hst
      refine h.land (fun session hown => ?_) hok nofun (fun session => ?_)
        (fun session hs => finishPayment_session s.clock hs result) fun hs => ?_
      · rw [hphase] at hown
        exact hown
      · exact ⟨update_status .., update_providerReference ..⟩
      · rw [CommerceDb.finishPayment, hs]
        exact hs
  · cases hst

theorem ClaimHeld.fail (h : ClaimHeld sessionId s) {k : Nat}
    (hok : NoneTooLate sessionId s (.fail k))
    (hst : attemptStep sessionId s (.fail k) = some s') : ClaimHeld sessionId s' := by
  simp only [attemptStep] at hst
  split at hst
  · next provider hphase =>
      obtain rfl := Option.some.inj hst
      refine h.land (fun session hown => ?_) hok nofun (fun session => trivial)
        (fun session hs => failPayment_session s.clock hs) fun hs => ?_
      · rw [hphase] at hown
        exact hown
      · rw [CommerceDb.failPayment, Table.get?_updateWhere, hs]
        rfl
  · cases hst

theorem ClaimHeld.step {a : AttemptAction} (h : ClaimHeld sessionId s)
    (hok : NoneTooLate sessionId s a) (hst : attemptStep sessionId s a = some s') :
    ClaimHeld sessionId s' := by
  cases a with
  | claim k provider => exact h.claim hst
  | finish k => exact h.finish hok hst
  | fail k => exact h.fail hok hst
  | answer k result =>
      simp only [attemptStep] at hst
      split at hst
      · next provider hphase =>
          obtain rfl := Option.some.inj hst
          refine h.become nofun fun session hown => ?_
          rw [hphase] at hown
          exact hown
      · cases hst
  | throws k =>
      simp only [attemptStep] at hst
      split at hst
      · next provider hphase =>
          obtain rfl := Option.some.inj hst
          refine h.become nofun fun session hown => ?_
          rw [hphase] at hown
          exact hown
      · cases hst
  | crash k =>
      simp only [attemptStep] at hst
      split at hst
      all_goals first
        | cases hst; done
        | (obtain rfl := Option.some.inj hst; exact h.become nofun fun _ _ => trivial)
  | pass seconds =>
      obtain rfl := Option.some.inj hst
      exact ⟨h.started, h.owns⟩
  | pay =>
      obtain rfl := Option.some.inj hst
      refine h.write fun session' hs => .inl (.inl ?_)
      obtain ⟨session, rfl⟩ := updated_of_some hs
      exact update_status ..
  | cancel read =>
      obtain rfl := Option.some.inj hst
      refine h.write fun session' hs => ?_
      unfold CommerceDb.cancelSession at hs
      split at hs
      · exact .inr hs
      · obtain ⟨session, rfl⟩ := updated_of_some hs
        exact .inl (.inr (.inr rfl))
  | expire =>
      obtain rfl := Option.some.inj hst
      refine h.write fun session' hs => .inl (.inr (.inl ?_))
      obtain ⟨session, rfl⟩ := updated_of_some hs
      rfl

/-- In a run in which no superseded attempt ends while the session is being
initiated, the latest claim gets through with what its provider answered, unless
a payment, an expiry or a cancellation comes between. -/
theorem latest_attempt_wins (hnone : s.latest = none)
    (hrun : Reaches (attemptStep sessionId) (NoneTooLate sessionId) s s') :
    LatestWins sessionId s' := by
  have hheld : ClaimHeld sessionId s' := by
    refine hrun.invariant (fun _ _ _ h hok hst => h.step hok hst) ⟨fun k hk => ?_, fun k _ hk => ?_⟩
    · rw [hnone] at hk
      cases hk
    · rw [hnone] at hk
      cases hk
  intro k result session hk hphase hs hfree
  have hown := (hheld.owns k session hk hs).resolve_left hfree
  rwa [hphase] at hown

variable (s) in
/-- A session that is not being initiated any more is out of the claim's reach. -/
theorem answered_in_vain (result : InitiationResult) {k : Nat} {provider : String}
    {session : CheckoutSession} (hk : s.latest = some k)
    (hphase : s.attempts k = .initiating provider)
    (hs : s.db.sessions.get? sessionId = some session)
    (hstatus : session.status ≠ .initiatingProvider) (hfree : ¬ session.Intervened)
    (hother : ¬ (session.status = .pendingProvider ∧
      session.providerReference = some result.providerReference)) :
    ∃ t, execIf (attemptStep sessionId) Any s [.answer k result, .finish k] = some t ∧
      ¬ LatestWins sessionId t := by
  let answered := s.become k (.initiated provider result)
  let t := { answered.become k (.finished result) with
    db := commit s.db (s.db.finishPayment s.clock sessionId provider result) }
  have hanswer : attemptStep sessionId s (.answer k result) = some answered := by
    simp only [attemptStep, hphase]
    rfl
  have hfinish : attemptStep sessionId answered (.finish k) = some t := by
    simp only [attemptStep, answered, become_self]
    rfl
  refine ⟨t, ?_, fun hwins => hother (hwins k result session hk (become_self ..) ?_ hfree)⟩
  · simp only [execIf, if_pos (show Any _ _ from trivial), hanswer, hfinish, Option.bind_some]
  · exact (finishPayment_session s.clock hs result).trans (if_neg fun h => hstatus h.2)

/-- Where a superseded attempt may end while the session is being initiated, the
latest claim can be lost. -/
theorem late_end_damages {j k : Nat} {provider : String} {result : InitiationResult}
    {session : CheckoutSession} (hk : s.latest = some k) (hjk : j ≠ k)
    (hphase : s.attempts k = .initiating provider)
    (hs : s.db.sessions.get? sessionId = some session)
    (hmine : session.provider = some provider ∧ session.status = .initiatingProvider) :
    (s.attempts j = .initiationFailed provider →
      ∃ t, execIf (attemptStep sessionId) Any s [.fail j, .answer k result, .finish k] = some t ∧
        ¬ LatestWins sessionId t) ∧
    ∀ other, s.attempts j = .initiated provider other →
      other.providerReference ≠ result.providerReference →
      ∃ t, execIf (attemptStep sessionId) Any s [.finish j, .answer k result, .finish k] = some t ∧
        ¬ LatestWins sessionId t := by
  constructor
  · intro hj
    let failed := { s.become j .ended with db := s.db.failPayment s.clock sessionId provider }
    have hfail : attemptStep sessionId s (.fail j) = some failed := by
      simp only [attemptStep, hj]
      rfl
    have hopened := (failPayment_session s.clock hs).trans (if_pos hmine)
    obtain ⟨t, ht, hlost⟩ := answered_in_vain failed result hk
      ((become_of_ne s .ended hjk.symm).trans hphase) hopened nofun
      (by rintro (h | h | h) <;> cases h) (fun h => nomatch h.1)
    exact ⟨t, (if_pos trivial).trans (by rw [hfail]; exact ht), hlost⟩
  · intro other hj hne
    let finished := { s.become j (.finished other) with
      db := commit s.db (s.db.finishPayment s.clock sessionId provider other) }
    have hfinish : attemptStep sessionId s (.finish j) = some finished := by
      simp only [attemptStep, hj]
      rfl
    have hpending := (finishPayment_session s.clock hs other).trans (if_pos hmine)
    obtain ⟨t, ht, hlost⟩ := answered_in_vain finished result hk
      ((become_of_ne s (.finished other) hjk.symm).trans hphase) hpending (by simp)
      (by simp [CheckoutSession.Intervened]) (by simpa using hne)
    exact ⟨t, (if_pos trivial).trans (by rw [hfinish]; exact ht), hlost⟩

end Runs

/-! ## Three attempts -/

/-- A checkout that is open, and no attempt yet. -/
def openCheckout : AttemptState where
  db := { emptyCommerce with
    sessions := Table.empty.insert { pendingCheckout "s-1" 1 "" with
      status := .opened
      provider := none
      providerReference := none
      approvalUrl := none } }
  clock := 0
  attempts _ := .idle
  latest := none

def initiatedAs (providerReference : String) : InitiationResult :=
  ⟨providerReference, some "https://www.paypal.com/checkoutnow", []⟩

/-- The second attempt takes over the claim of the first. -/
def takeOver : List AttemptAction := [.claim 0 "paypal", .pass 121, .claim 1 "paypal"]

def AttemptState.hasReference (s : AttemptState) (providerReference : String) : Bool :=
  (s.db.sessions.get? 1).any fun session => session.status == .pendingProvider &&
    session.providerReference == some providerReference

theorem latest_attempt_wins_take_over :
    ∃ s, Reaches (attemptStep 1) (NoneTooLate 1) openCheckout s ∧ s.hasReference "B" = true ∧
      LatestWins 1 s := by
  obtain ⟨s, hrun, hs⟩ := exists_reaches_of_execIf (attemptStep 1) (NoneTooLate 1) openCheckout
    (takeOver ++ [.throws 0, .answer 1 (initiatedAs "B"), .finish 1, .fail 0])
    (·.hasReference "B") (by decide +kernel)
  exact ⟨s, hrun, hs, latest_attempt_wins rfl hrun⟩

/-- The actions end with the latest claim's provider call gone through and its
reference lost, and nothing has come between. -/
def Damages (as : List AttemptAction) : Prop :=
  ∃ s, execIf (attemptStep 1) Any openCheckout as = some s ∧ ¬ LatestWins 1 s

theorem damages_of_any {as : List AttemptAction} (result : InitiationResult) (k : Nat)
    (h : (execIf (attemptStep 1) Any openCheckout as).any (fun s => s.latest == some k &&
      (match s.attempts k with
        | .finished r => r.providerReference == result.providerReference
        | _ => false) &&
      (s.db.sessions.get? 1).any fun session => (session.status == .opened ||
        session.status == .pendingProvider) &&
          session.providerReference != some result.providerReference) = true) :
    Damages as := by
  obtain ⟨s, hs, hlost⟩ := (Option.any_eq_true ..).mp h
  simp only [Bool.and_eq_true, beq_iff_eq, Option.any_eq_true, Bool.or_eq_true, bne_iff_ne] at hlost
  obtain ⟨⟨hk, hphase⟩, session, hsession, hstatus, hreference⟩ := hlost
  refine ⟨s, hs, fun hwins => ?_⟩
  split at hphase
  · next r hr =>
      rw [beq_iff_eq] at hphase
      have hfree : ¬ session.Intervened := by
        rintro (h | h | h) <;> rcases hstatus with h' | h' <;> cases h.symm.trans h'
      exact hreference (hphase ▸ (hwins k r session hk hr hsession hfree).2)
  · cases hphase

/-- The first attempt fails after the second has claimed, or gets through. -/
theorem superseded_attempts_damage :
    Damages (takeOver ++ [.throws 0, .fail 0, .answer 1 (initiatedAs "B"), .finish 1]) ∧
    Damages (takeOver ++ [.answer 0 (initiatedAs "A"), .finish 0, .answer 1 (initiatedAs "B"),
      .finish 1]) :=
  ⟨damages_of_any (initiatedAs "B") 1 (by decide +kernel),
    damages_of_any (initiatedAs "B") 1 (by decide +kernel)⟩

end OnePloy
