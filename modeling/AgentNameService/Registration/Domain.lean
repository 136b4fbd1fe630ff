/-
Purpose: The registration aggregate: its status and the transitions between statuses, the certificate
  order, signing requests, certificates and renewals, with the methods that change them and their errors.
Source: internal/domain/{errors,status,ansname,order,certificate,renewal,agent}.go
Trusted boundary: human-reviewed model
-/
import AgentNameService.Foundation.Outcome
import Mathlib.Algebra.Order.Ring.Int

namespace AgentNameService.Registration

open Except

/-- Milliseconds since the epoch, the resolution of the store. -/
abbrev Time := Nat

/-! ### Errors -/

/-- The sentinel an error wraps; `unclassified` is an error that is not a domain error. -/
inductive ErrorKind where
  | notFound
  | conflict
  | invalidState
  | validation
  | certificate
  | unauthorized
  | internal
  | unavailable
  | unclassified
deriving DecidableEq, Repr

structure Error where
  kind : ErrorKind
  code : String
  message : String
deriving DecidableEq, Repr

namespace Error

def notFound (code message : String) : Error := ⟨.notFound, code, message⟩
def conflict (code message : String) : Error := ⟨.conflict, code, message⟩
def invalidState (code message : String) : Error := ⟨.invalidState, code, message⟩
def validation (code message : String) : Error := ⟨.validation, code, message⟩
def certificate (code message : String) : Error := ⟨.certificate, code, message⟩
def unauthorized (code message : String) : Error := ⟨.unauthorized, code, message⟩
def internal (code message : String) : Error := ⟨.internal, code, message⟩
def unavailable (code message : String) : Error := ⟨.unavailable, code, message⟩
def plain (message : String) : Error := ⟨.unclassified, "", message⟩

/-- `fmt.Errorf("context: %w", err)`. -/
def wrap (context : String) (e : Error) : Error := { e with message := context ++ ": " ++ e.message }

end Error

/-- `%q`, for text without characters that need an escape. -/
def quoted (text : String) : String := "\"" ++ text ++ "\""

/-! ### Status -/

inductive RegistrationStatus where
  | pendingValidation
  | pendingDNS
  | active
  | deprecated
  | revoked
  | failed
  | expired
deriving DecidableEq, Repr

namespace RegistrationStatus

def text : RegistrationStatus → String
  | .pendingValidation => "PENDING_VALIDATION"
  | .pendingDNS => "PENDING_DNS"
  | .active => "ACTIVE"
  | .deprecated => "DEPRECATED"
  | .revoked => "REVOKED"
  | .failed => "FAILED"
  | .expired => "EXPIRED"

def isPending : RegistrationStatus → Bool
  | .pendingValidation | .pendingDNS => true
  | _ => false

def isTerminal : RegistrationStatus → Bool
  | .revoked | .failed | .expired => true
  | _ => false

/-- `ValidTransitions`. -/
def validTransitions : RegistrationStatus → List RegistrationStatus
  | .pendingValidation => [.pendingDNS, .failed, .revoked, .expired]
  | .pendingDNS => [.active, .failed, .revoked, .expired]
  | .active => [.deprecated, .revoked]
  | .deprecated => [.revoked]
  | .revoked => []
  | .failed => []
  | .expired => []

def canTransitionTo (s target : RegistrationStatus) : Bool := target ∈ s.validTransitions

def validateTransition (s target : RegistrationStatus) : Except Error Unit :=
  require (s.canTransitionTo target = true)
    (.invalidState "INVALID_STATUS_TRANSITION" s!"cannot transition from {s.text} to {target.text}")

end RegistrationStatus

/-- Why a registration is revoked.  `other` carries a text that is none of the known reasons. -/
inductive RevocationReason where
  | keyCompromise
  | cessationOfOperation
  | affiliationChanged
  | superseded
  | certificateHold
  | privilegeWithdrawn
  | aaCompromise
  | other (text : String)
deriving DecidableEq, Repr

namespace RevocationReason

def text : RevocationReason → String
  | .keyCompromise => "KEY_COMPROMISE"
  | .cessationOfOperation => "CESSATION_OF_OPERATION"
  | .affiliationChanged => "AFFILIATION_CHANGED"
  | .superseded => "SUPERSEDED"
  | .certificateHold => "CERTIFICATE_HOLD"
  | .privilegeWithdrawn => "PRIVILEGE_WITHDRAWN"
  | .aaCompromise => "AA_COMPROMISE"
  | .other text => text

def isValid : RevocationReason → Bool
  | .other _ => false
  | _ => true

end RevocationReason

/-- The event schema, and with it the ingest lane of the transparency log. -/
inductive Lane where
  | v1
  | v2
deriving DecidableEq, Repr

/-! ### Names -/

structure SimplifiedSemVer where
  major : Nat
  minor : Nat
  patch : Nat
deriving DecidableEq, Repr

def SimplifiedSemVer.text (v : SimplifiedSemVer) : String :=
  toString v.major ++ "." ++ toString v.minor ++ "." ++ toString v.patch

/-- A versioned name on a host. -/
structure AnsName where
  version : SimplifiedSemVer
  agentHost : String
deriving DecidableEq, Repr

def AnsName.text (n : AnsName) : String := "ans://v" ++ n.version.text ++ "." ++ n.agentHost

def AnsName.isZero (n : AnsName) : Bool := n.agentHost = "" ∧ n.version = ⟨0, 0, 0⟩

/-- `FQDN`: the host. -/
def AnsName.fqdn (n : AnsName) : String := n.agentHost

/-! ### Certificate orders -/

inductive ChallengeType where
  | dns01
  | http01
  | other (text : String)
deriving DecidableEq, Repr

def ChallengeType.isValid : ChallengeType → Bool
  | .dns01 | .http01 => true
  | .other _ => false

structure Challenge where
  type : ChallengeType
  token : String
  keyAuthorization : String := ""
  dnsRecordName : String := ""
  dnsRecordValue : String := ""
  httpPath : String := ""
deriving DecidableEq, Repr

/-- The state of an order; `other ""` is the state of the zero order. -/
inductive OrderState where
  | pending
  | issuing
  | completed
  | failed
  | other (text : String)
deriving DecidableEq, Repr

def OrderState.text : OrderState → String
  | .pending => "PENDING"
  | .issuing => "ISSUING"
  | .completed => "COMPLETED"
  | .failed => "FAILED"
  | .other text => text

structure CertificateOrder where
  orderRef : String := ""
  state : OrderState := .other ""
  challenges : List Challenge := []
  expiresAt : Option Time := none
  verifiedChallenge : Option ChallengeType := none
deriving DecidableEq, Repr

namespace CertificateOrder

/-- `NewSelfIssuedOrder`. -/
def selfIssued (dns01Token http01Token : String) (expiresAt : Time) : CertificateOrder where
  state := .pending
  challenges := [⟨.dns01, dns01Token, "", "", "", ""⟩, ⟨.http01, http01Token, "", "", "", ""⟩]
  expiresAt := some expiresAt

def isZero (o : CertificateOrder) : Bool :=
  o.orderRef = "" ∧ o.state = .other "" ∧ o.challenges = [] ∧ o.expiresAt = none ∧ o.verifiedChallenge = none

def isExpired (o : CertificateOrder) (now : Time) : Bool :=
  match o.expiresAt with
  | none => false
  | some expiresAt => expiresAt < now ∧ o.state ≠ .completed ∧ o.state ≠ .failed

def recordVerifiedChallenge (o : CertificateOrder) (t : ChallengeType) : CertificateOrder :=
  { o with verifiedChallenge := some t }

/-- Whether the gate has recorded a proof of domain control. -/
def hasVerifiedChallenge (o : CertificateOrder) : Bool := o.verifiedChallenge.any ChallengeType.isValid

def invalidOrderTransition (target : String) (s : OrderState) : Error :=
  .invalidState "INVALID_ORDER_TRANSITION" s!"cannot mark order {target} from state {s.text}"

/-- `MarkIssuing`: idempotent, so that a re-driven order may still be pending at the provider. -/
def markIssuing (o : CertificateOrder) : Except Error CertificateOrder :=
  if o.state = .issuing then .ok o
  else if o.state = .pending then .ok { o with state := .issuing }
  else .error (invalidOrderTransition "ISSUING" o.state)

/-- `MarkCompleted` and `MarkFailed` leave the two open states in the same way. -/
def close (target : OrderState) (o : CertificateOrder) : Except Error CertificateOrder :=
  if o.state = .pending ∨ o.state = .issuing then .ok { o with state := target }
  else .error (invalidOrderTransition target.text o.state)

def markCompleted : CertificateOrder → Except Error CertificateOrder := close .completed

def markFailed : CertificateOrder → Except Error CertificateOrder := close .failed

theorem eq_of_markIssuing {o o' : CertificateOrder} (h : o.markIssuing = .ok o') :
    o' = { o with state := .issuing } := by
  unfold markIssuing at h
  split at h
  · rename_i hstate
    cases h
    rw [← hstate]
  · split at h
    · cases h
      rfl
    · cases h

theorem eq_of_close {target : OrderState} {o o' : CertificateOrder} (h : close target o = .ok o') :
    o' = { o with state := target } := by
  unfold close at h
  split at h
  · cases h
    rfl
  · cases h

theorem state_of_markIssuing {o o' : CertificateOrder} (h : o.markIssuing = .ok o') : o'.state = .issuing := by
  rw [eq_of_markIssuing h]

theorem state_of_close {target : OrderState} {o o' : CertificateOrder} (h : close target o = .ok o') :
    o'.state = target := by
  rw [eq_of_close h]

end CertificateOrder

/-! ### Signing requests and certificates -/

inductive CSRType where
  | identity
  | server
deriving DecidableEq, Repr

inductive CSRStatus where
  | pending
  | signed
  | rejected
deriving DecidableEq, Repr

def CSRStatus.text : CSRStatus → String
  | .pending => "PENDING"
  | .signed => "SIGNED"
  | .rejected => "REJECTED"

structure AgentCSR where
  csrID : String
  type : CSRType
  csrContent : String
  status : CSRStatus
  submissionTimestamp : Time
  processedTimestamp : Option Time := none
  rejectionReason : String := ""
deriving DecidableEq, Repr

namespace AgentCSR

/-- `NewIdentityCSR` and `NewServerCSR`: a fresh request waits for its signature. -/
def submitted (type : CSRType) (csrID csrContent : String) (submittedAt : Time) : AgentCSR where
  csrID := csrID
  type := type
  csrContent := csrContent
  status := .pending
  submissionTimestamp := submittedAt

def newIdentityCSR : String → String → Time → AgentCSR := submitted .identity

def newServerCSR : String → String → Time → AgentCSR := submitted .server

def markSigned (c : AgentCSR) (processedAt : Time) : Except Error AgentCSR :=
  if c.status = .pending then .ok { c with status := .signed, processedTimestamp := some processedAt }
  else .error (.invalidState "CSR_NOT_PENDING" s!"cannot sign CSR in status {c.status.text}")

def markRejected (c : AgentCSR) (reason : String) (processedAt : Time) : Except Error AgentCSR :=
  if c.status = .pending then
    .ok { c with status := .rejected, rejectionReason := reason, processedTimestamp := some processedAt }
  else .error (.invalidState "CSR_NOT_PENDING" s!"cannot reject CSR in status {c.status.text}")

end AgentCSR

inductive CertificateStatus where
  | pending
  | valid
  | revoked
deriving DecidableEq, Repr

/-- A row of `issued_certificates`; every one is an identity certificate. -/
structure StoredCertificate where
  internalID : Nat := 0
  csrID : String
  certificatePEM : String
  chainPEM : String := ""
  serialNumber : String := ""
  certificateRef : String := ""
  status : CertificateStatus
  issueTimestamp : Time := 0
  expirationTimestamp : Time := 0
deriving DecidableEq, Repr

/-- `Revoke` on a stored certificate. -/
def StoredCertificate.revoke (c : StoredCertificate) : StoredCertificate := { c with status := .revoked }

structure ByocServerCertificate where
  leafCertificatePEM : String
  chainCertificatesPEM : String := ""
  subjectCommonName : String := ""
  subjectAlternativeNames : List String := []
  issuerDN : String := ""
  validFromTimestamp : Time := 0
  validToTimestamp : Time := 0
  fingerprint : String := ""
deriving DecidableEq, Repr

def ByocServerCertificate.matchesFQDN (c : ByocServerCertificate) (fqdn : String) : Bool :=
  c.subjectCommonName = fqdn ∨ fqdn ∈ c.subjectAlternativeNames

/-! ### Renewals of the server certificate -/

inductive ValidationStatus where
  | pending
  | verified
  | failed
deriving DecidableEq, Repr

def ValidationStatus.text : ValidationStatus → String
  | .pending => "PENDING"
  | .verified => "VERIFIED"
  | .failed => "FAILED"

inductive RenewalType where
  | byoc
  | csr
deriving DecidableEq, Repr

/-- Seven days. -/
def renewalExpiryDuration : Time := 7 * 24 * 60 * 60 * 1000

structure RenewalValidation where
  orderRef : String
  challenges : List Challenge
  status : ValidationStatus
  expiresAt : Time
deriving DecidableEq, Repr

namespace RenewalValidation

/-- `newRenewalValidation`: the window closes with the order's own, if that is earlier. -/
def ofOrder (order : CertificateOrder) (now : Time) : RenewalValidation where
  orderRef := order.orderRef
  challenges := order.challenges
  status := .pending
  expiresAt :=
    match order.expiresAt with
    | some expiresAt => min expiresAt (now + renewalExpiryDuration)
    | none => now + renewalExpiryDuration

def isExpiredWithoutVerification (v : RenewalValidation) (now : Time) : Bool :=
  v.expiresAt < now ∧ v.status ≠ .verified

def markVerified (v : RenewalValidation) : Except Error RenewalValidation :=
  if v.status = .pending then .ok { v with status := .verified }
  else .error (.invalidState "VALIDATION_NOT_PENDING"
    s!"cannot verify validation in status {v.status.text}")

def markFailed (v : RenewalValidation) : Except Error RenewalValidation :=
  if v.status = .pending then .ok { v with status := .failed }
  else .error (.invalidState "VALIDATION_NOT_PENDING"
    s!"cannot fail validation in status {v.status.text}")

theorem markVerified_eq_ok_iff {v v' : RenewalValidation} :
    v.markVerified = .ok v' ↔ v.status = .pending ∧ { v with status := .verified } = v' := by
  unfold markVerified
  split <;> simp_all

end RenewalValidation

structure ServerCertificateRenewal where
  id : Nat := 0
  agentID : String
  registrationID : Nat
  renewalType : RenewalType
  serverCsrID : String := ""
  byocCertPEM : String := ""
  byocChainPEM : String := ""
  failureReason : String := ""
  completedAt : Option Time := none
  validation : RenewalValidation
deriving DecidableEq, Repr

namespace ServerCertificateRenewal

def isExpired (r : ServerCertificateRenewal) (now : Time) : Bool :=
  r.validation.isExpiredWithoutVerification now

def markCompleted (r : ServerCertificateRenewal) (now : Time) : Except Error ServerCertificateRenewal :=
  if r.completedAt = none then .ok { r with completedAt := some now }
  else .error (.invalidState "ALREADY_COMPLETED" "renewal is already completed")

def markFailed (r : ServerCertificateRenewal) (reason : String) (now : Time) :
    Except Error ServerCertificateRenewal :=
  if r.completedAt = none then .ok { r with failureReason := reason, completedAt := some now }
  else .error (.invalidState "ALREADY_COMPLETED" "cannot fail a completed renewal")

theorem markCompleted_eq_ok_iff {r r' : ServerCertificateRenewal} {now : Time} :
    r.markCompleted now = .ok r' ↔ r.completedAt = none ∧ { r with completedAt := some now } = r' := by
  unfold markCompleted
  split <;> simp_all

theorem markFailed_eq_ok_iff {r r' : ServerCertificateRenewal} {reason : String} {now : Time} :
    r.markFailed reason now = .ok r' ↔
      r.completedAt = none ∧ { r with failureReason := reason, completedAt := some now } = r' := by
  unfold markFailed
  split <;> simp_all

end ServerCertificateRenewal

/-! ### The registration -/

/-- The aggregate.  `id` is zero until the row is stored; the fields after `certOrder` have tables of their
own and are filled in by the service. -/
structure AgentRegistration where
  id : Nat := 0
  agentID : String
  ownerID : String
  ansName : AnsName
  status : RegistrationStatus
  displayName : String
  description : String := ""
  registrationTimestamp : Time
  certOrder : CertificateOrder := {}
  endpoints : List String := []
  serverCert : Option ByocServerCertificate := none
  identityCSR : Option AgentCSR := none
  serverCSR : Option AgentCSR := none
deriving DecidableEq, Repr

namespace AgentRegistration

def fqdn (r : AgentRegistration) : String := r.ansName.fqdn

def maxDisplayNameLength : Nat := 64
def maxDescriptionLength : Nat := 150

/-- `NewRegistration`.  `endpointsValid` is the outcome of validating the endpoints against the host. -/
def newRegistration (agentID ownerID : String) (ansName : AnsName) (displayName description : String)
    (endpoints : List String) (endpointsValid : Except Error Unit) (serverCert : Option ByocServerCertificate)
    (identityCSR : Option AgentCSR) (now : Time) : Except Error AgentRegistration := do
  require (agentID ≠ "") (.validation "MISSING_AGENT_ID" "agentId is required")
  require (ownerID ≠ "") (.validation "MISSING_OWNER_ID" "ownerId is required")
  require (displayName ≠ "") (.validation "MISSING_DISPLAY_NAME" "displayName is required")
  require (ansName.isZero = false) (.validation "MISSING_ANS_NAME" "ansName is required")
  require (displayName.utf8ByteSize ≤ maxDisplayNameLength)
    (.validation "DISPLAY_NAME_TOO_LONG" s!"displayName exceeds {maxDisplayNameLength} characters")
  require (description.utf8ByteSize ≤ maxDescriptionLength)
    (.validation "DESCRIPTION_TOO_LONG" s!"description exceeds {maxDescriptionLength} characters")
  require (endpoints ≠ []) (.validation "MISSING_ENDPOINTS" "at least one endpoint is required")
  endpointsValid
  require (serverCert.all (·.matchesFQDN ansName.fqdn) = true)
    (.certificate "SERVER_CERT_FQDN_MISMATCH"
      ("server certificate does not match agent FQDN " ++ quoted ansName.fqdn))
  return { agentID, ownerID, ansName, displayName, description, endpoints, serverCert, identityCSR,
           status := .pendingValidation, registrationTimestamp := now }

def activate (r : AgentRegistration) : Except Error AgentRegistration :=
  if r.status.isPending then .ok { r with status := .active }
  else .error (.invalidState "CANNOT_ACTIVATE" s!"cannot activate agent in status {r.status.text}")

def transitionTo (r : AgentRegistration) (target : RegistrationStatus) : Except Error AgentRegistration := do
  r.status.validateTransition target
  return { r with status := target }

def advanceToPendingDNS (r : AgentRegistration) : Except Error AgentRegistration := r.transitionTo .pendingDNS

def invalidRevocationReason (reason : RevocationReason) : Error :=
  .validation "INVALID_REVOCATION_REASON" ("invalid reason: " ++ quoted reason.text)

def revoke (r : AgentRegistration) (reason : RevocationReason) : Except Error AgentRegistration := do
  require (reason.isValid = true) (invalidRevocationReason reason)
  require (r.status.isPending = false) (.invalidState "CANNOT_REVOKE_PENDING"
    s!"use Cancel() to terminate a pending registration (current status: {r.status.text})")
  r.transitionTo .revoked

/-- `Cancel`: a registration that still waits for domain validation expires instead. -/
def cancel (r : AgentRegistration) : Except Error AgentRegistration := do
  require (r.status.isPending = true) (.validation "CANNOT_CANCEL"
    s!"can only cancel pending registrations, current status: {r.status.text}")
  require (¬ (r.status = .pendingValidation ∧ r.certOrder.state = .pending))
    (.validation "CANNOT_CANCEL"
      "registration is awaiting domain validation and will auto-expire when the challenge window lapses")
  return { r with status := .revoked }

def cancelForHostConflict (r : AgentRegistration) : Except Error AgentRegistration :=
  if r.status.isPending then .ok { r with status := .revoked }
  else .error (.invalidState "CANNOT_CANCEL"
    s!"can only cancel pending registrations, current status: {r.status.text}")

def agentNotActive (r : AgentRegistration) : Error :=
  .invalidState "AGENT_NOT_ACTIVE"
    s!"Agent must be ACTIVE to submit identity CSR. Current status: {r.status.text}"

def submitIdentityCSR (r : AgentRegistration) (csrID csrPEM : String) (now : Time) : Except Error AgentCSR :=
  if r.status = .active then .ok (AgentCSR.newIdentityCSR csrID csrPEM now) else .error r.agentNotActive

/-- `SubmitServerCSR` has no gate of its own. -/
def submitServerCSR (_ : AgentRegistration) (csrID csrPEM : String) (now : Time) : AgentCSR :=
  AgentCSR.newServerCSR csrID csrPEM now

theorem transitionTo_eq_ok_iff {r r' : AgentRegistration} {target : RegistrationStatus} :
    r.transitionTo target = .ok r' ↔ target ∈ r.status.validTransitions ∧ { r with status := target } = r' := by
  simp [transitionTo, RegistrationStatus.validateTransition, RegistrationStatus.canTransitionTo]

theorem activate_eq_ok_iff {r r' : AgentRegistration} :
    r.activate = .ok r' ↔ r.status.isPending = true ∧ { r with status := .active } = r' := by
  unfold activate
  split <;> simp_all

theorem cancelForHostConflict_eq_ok_iff {r r' : AgentRegistration} :
    r.cancelForHostConflict = .ok r' ↔ r.status.isPending = true ∧ { r with status := .revoked } = r' := by
  unfold cancelForHostConflict
  split <;> simp_all

theorem cancel_eq_ok_iff {r r' : AgentRegistration} : r.cancel = .ok r' ↔ r.status.isPending = true ∧
      ¬ (r.status = .pendingValidation ∧ r.certOrder.state = .pending) ∧ { r with status := .revoked } = r' := by
  simp [cancel]

theorem revoke_eq_ok_iff {r r' : AgentRegistration} {reason : RevocationReason} :
    r.revoke reason = .ok r' ↔ reason.isValid = true ∧ r.status.isPending = false ∧
      .revoked ∈ r.status.validTransitions ∧ { r with status := .revoked } = r' := by
  simp [revoke, transitionTo_eq_ok_iff]

end AgentRegistration

end AgentNameService.Registration
