import OnePloy.CheckoutCalls
import OnePloy.Lib.Interleave

/-!
# Provisioning, job by job

`ProvisionDomainJob` and `VerifyDomainDnsJob` as sequences of statements, and
the machine in which they and the checkout calls interleave.

A provisioning job may throw at any statement, and it may be killed; either
way the worker then runs its `failed` hook. An exception in the registrar call
or while the zone is set up is caught instead.
-/

namespace OnePloy

open Conc Php

/-! ## The jobs -/

inductive DomainJob
  | provision (domainId : Nat)
  | registering (m : DomainInstance)
  | awaitingRegistrar (m : DomainInstance)
  | registered (m : DomainInstance) (registration : DomainRegistration)
  | refused (m : DomainInstance) (message : String)
  | ensuringZone (m : DomainInstance)
  | storingZone (m : DomainInstance) (records : Value) (dnssec : Bool)
  | pendingDns (m : DomainInstance)
  | dispatching (m : DomainInstance)
  | noting (m : DomainInstance) (message : String)
  | notifying (domainId : Nat)
  | failed (domainId : Nat)
  | verify (domainId : Nat)
  | verifying (m : DomainInstance) (hasZone : Bool)
  | waiting (m : DomainInstance)
  | activating (domainId : Nat)
  | verifyFailed (domainId : Nat)
  | done

/-- One statement of a job. -/
def DomainJob.stmt (cfg : CommerceConfig) (s : CommerceStore) :
    DomainJob → Reply → Option (CommerceStore × DomainJob)
  | .done, _ => none
  | .provision domainId, .next =>
      let (db, taken) := s.db.takeDomain domainId
      some (s.withDb db, match taken with
        | none => .done
        | some m => .registering m)
  | .provision domainId, .fail _ => some (s, .failed domainId)
  | .provision domainId, .crash => some (s, .failed domainId)
  | .registering m, .next =>
      some ({ s with registrations := m.id :: s.registrations }, .awaitingRegistrar m)
  | .awaitingRegistrar m, .registered registration => some (s, .registered m registration)
  | .awaitingRegistrar m, .fail message => some (s, .refused m message)
  | .registered m registration, .next =>
      let m := m.fill (·.registeredAs cfg s.clock registration)
      some (s.withDb (s.db.save m), .ensuringZone m.synced)
  | .refused m message, .next =>
      some (s.withDb (s.db.save (m.fill (·.underReview message))), .done)
  | .ensuringZone m, .zone records dnssec => some (s, .storingZone m records dnssec)
  | .ensuringZone m, .next => some (s, .noting m dnsNotConfigured)
  | .ensuringZone m, .fail _ => some (s, .noting m dnsNeedsAttention)
  | .storingZone m records dnssec, .next =>
      some (s.withDb (s.db.storeZone m records dnssec), .pendingDns m)
  | .storingZone m _ _, .fail _ => some (s, .noting m dnsNeedsAttention)
  | .pendingDns m, .next =>
      let m := m.fill (·.dnsPending)
      some (s.withDb (s.db.save m), .dispatching m.synced)
  -- the attributes stay filled when the save fails
  | .pendingDns m, .fail _ => some (s, .noting (m.fill (·.dnsPending)) dnsNeedsAttention)
  | .dispatching m, .next => some (s, .notifying m.id)
  | .dispatching m, .fail _ => some (s, .noting m dnsNeedsAttention)
  | .noting m message, .next =>
      some (s.withDb (s.db.save (m.fill (·.noted message))), .notifying m.id)
  | .notifying _, .next => some (s, .done)
  | .notifying domainId, .fail _ => some (s, .failed domainId)
  | .notifying domainId, .crash => some (s, .failed domainId)
  | .registering m, .fail _ => some (s, .failed m.id)
  | .registered m _, .fail _ => some (s, .failed m.id)
  | .refused m _, .fail _ => some (s, .failed m.id)
  | .noting m _, .fail _ => some (s, .failed m.id)
  | .registering m, .crash => some (s, .failed m.id)
  | .awaitingRegistrar m, .crash => some (s, .failed m.id)
  | .registered m _, .crash => some (s, .failed m.id)
  | .refused m _, .crash => some (s, .failed m.id)
  | .ensuringZone m, .crash => some (s, .failed m.id)
  | .storingZone m _ _, .crash => some (s, .failed m.id)
  | .pendingDns m, .crash => some (s, .failed m.id)
  | .dispatching m, .crash => some (s, .failed m.id)
  | .noting m _, .crash => some (s, .failed m.id)
  | .failed domainId, .next => some (s.withDb (s.db.provisioningFailed domainId), .done)
  | .failed _, .fail _ => some (s, .done)
  | .failed _, .crash => some (s, .done)
  | .verify domainId, .next =>
      some (s, match s.db.domains.get? domainId with
        | none => .done
        | some d =>
            if d.status = .dnsPending then .verifying ⟨domainId, d, d⟩ (s.db.hasZone domainId)
            else .done)
  | .verifying m hasZone, .delegated isDelegated =>
      some (s, if hasZone && isDelegated then .activating m.id else .waiting m)
  | .waiting m, .next =>
      some (s.withDb (s.db.save (m.fill (·.noted waitingForDelegation))), .done)
  | .activating domainId, .next => some (s.withDb (s.db.activateDomain domainId), .done)
  | .verifyFailed domainId, .next =>
      some (s.withDb (s.db.updateDomain domainId (·.noted verificationDelayed)), .done)
  | .verifyFailed _, .fail _ => some (s, .done)
  | .verifyFailed _, .crash => some (s, .done)
  | .verify domainId, .fail _ => some (s, .verifyFailed domainId)
  | .verifying m _, .fail _ => some (s, .verifyFailed m.id)
  | .waiting m, .fail _ => some (s, .verifyFailed m.id)
  | .activating domainId, .fail _ => some (s, .verifyFailed domainId)
  | .verify domainId, .crash => some (s, .verifyFailed domainId)
  | .verifying m _, .crash => some (s, .verifyFailed m.id)
  | .waiting m, .crash => some (s, .verifyFailed m.id)
  | .activating domainId, .crash => some (s, .verifyFailed domainId)
  | _, _ => none

/-- Any number of jobs may be queued for a domain. -/
def DomainJob.start : DomainJob → Bool
  | .provision _ => true
  | .verify _ => true
  | _ => false

end OnePloy
