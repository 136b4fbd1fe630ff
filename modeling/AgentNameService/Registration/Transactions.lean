/-
Purpose: The bodies of the units of work of the registration service, each one transaction on the tables.
  What a body captures from outside (copies of rows read earlier, signed certificates, evidence) is an
  argument, so a stale copy can be told from what the body reads again.
Source: internal/ra/service/{registration,lifecycle,revocation,renewal,certificate_events}.go
Trusted boundary: human-reviewed model; canonicalizing and signing an event is a parameter
-/
import AgentNameService.Registration.Store

namespace AgentNameService.Registration

/-- What the event builders are given; canonical bytes and signature are computed from it. -/
structure EventDraft where
  eventType : EventType
  lane : Lane
  registration : AgentRegistration
  identityCerts : List StoredCertificate
  serverCerts : List ByocServerCertificate
  dnsRecords : List String
  reason : Option RevocationReason
  issuedAt : Time
deriving DecidableEq, Repr

/-- What a transaction reads from outside the tables: the clock of the stores, the clock of the service, and
the builder that canonicalizes and signs an event. -/
structure Ambient where
  now : Time
  clock : Time
  sign : EventDraft → Except Error OutboxPayload

/-- What a successful inline seal leaves for the commit. -/
structure SealedActivation where
  schemaVersion : Lane
  payload : OutboxPayload
  logID : String
deriving DecidableEq, Repr

namespace Transactions

open Store

/-! ### Registration and domain validation -/

/-- The transaction of `RegisterAgent`. -/
def register (reg : AgentRegistration) : Tx Store Error AgentRegistration := do
  let stored ← saveAgent reg
  saveEndpoints reg.agentID reg.endpoints
  Tx.forEach reg.identityCSR.toList (saveCSR reg.agentID)
  Tx.forEach reg.serverCSR.toList (saveCSR reg.agentID)
  Tx.forEach reg.serverCert.toList (saveByoc reg.agentID)
  return stored

/-- The transaction of `VerifyACME`: the signed requests with their certificates, and the copy of the
registration that was read before the certificates were issued. -/
def commitACME (reg : AgentRegistration) (identity : Option (AgentCSR × StoredCertificate))
    (server : Option (ByocServerCertificate × AgentCSR)) : Tx Store Error Unit := do
  Tx.forEach identity.toList fun (signed, stored) => do
    saveCSR reg.agentID signed
    saveIdentityCertificate reg.agentID stored
  Tx.forEach server.toList fun (cert, signed) => do
    saveByoc reg.agentID cert
    saveCSR reg.agentID signed
  discard (saveAgent reg)

/-! ### Activation -/

/-- `holdsHostExclusivity`. -/
def holdsHostExclusivity (s : RegistrationStatus) : Bool := s == .active || s == .deprecated

/-- `errHostTaken`. -/
def hostTaken (agentHost : String) : Error :=
  .conflict "AGENT_HOST_TAKEN"
    ("agentHost " ++ quoted agentHost ++ " has a live (ACTIVE or DEPRECATED) registration owned by another " ++
      "operator; it cannot be used until no live registration remains")

/-- One turn of the loop of `commitActivation` over the rows on the host. -/
def settleRival (reg rival : AgentRegistration) : Tx Store Error Unit := do
  if rival.agentID = reg.agentID ∨ rival.ownerID = reg.ownerID then pure ()
  else
    Tx.require (holdsHostExclusivity rival.status = false) (hostTaken reg.fqdn)
    if rival.status.isPending then
      let cancelled ← Tx.ofExcept rival.cancelForHostConflict
      discard (saveAgent cancelled)
      let certs ← findIdentityCertificatesByAgent rival.agentID
      revokeCertificates certs
    else pure ()

/-- `commitActivation`: the registration must still wait for its records, no other owner may hold the host,
and the other owners' pending registrations on it are cancelled. -/
def commitActivation (ambient : Ambient) (reg : AgentRegistration) (sealed : SealedActivation) :
    Tx Store Error Unit := do
  let current ← findByAgentID reg.agentID
  Tx.require (current.status = .pendingDNS) (hostTaken reg.fqdn)
  let rows ← findAllByAgentHost reg.fqdn
  Tx.forEach rows (settleRival reg)
  discard (saveAgent reg)
  recordSealed ambient.now .agentRegistered reg.agentID sealed.schemaVersion sealed.payload sealed.logID

/-! ### Revocation -/

/-- `revocationCertsCovered`: every valid certificate now stored was already valid, with the same content,
in the set that was revoked at the authority. -/
def revocationCertsCovered (revoked current : List StoredCertificate) : Bool :=
  current.all fun c => c.status != .valid ||
    revoked.any fun prior => prior.status == .valid && prior.internalID == c.internalID &&
      prior.certificatePEM == c.certificatePEM

/-- The loop that rejects the agent's pending requests of one type.  Every turn rejects one, so the number
of pending requests bounds the number of turns. -/
def rejectPendingCSRs (agentID : String) (type : CSRType) (now : Time) : Nat → Tx Store Error Unit
  | 0 => pure ()
  | turns + 1 => do
      match ← findLatestPendingCSRByType agentID type with
      | none => pure ()
      | some csr =>
        let rejected ← Tx.ofExcept (csr.markRejected "Agent revoked" now)
        saveCSR agentID rejected
        rejectPendingCSRs agentID type now turns

def pendingCSRCount (agentID : String) (type : CSRType) (s : Store) : Nat :=
  (s.csrs.select fun _ row => isPendingCSR agentID type row).length

def cancelRenewalForRevocation (agentID : String) (now : Time) : Tx Store Error Unit := do
  match ← Tx.reads (pendingRenewal · agentID) with
  | none => pure ()
  | some pending =>
    let failed ← Tx.ofExcept (pending.markFailed "Agent revoked" now)
    saveRenewal failed

/-- `cancelAgentModifications`. -/
def cancelAgentModifications (ambient : Ambient) (agentID : String) (now : Time) : Tx Store Error Unit := do
  cancelPendingOutbox ambient.now agentID
  cancelRenewalForRevocation agentID now
  rejectPendingCSRs agentID .identity now (← Tx.reads (pendingCSRCount agentID .identity))
  rejectPendingCSRs agentID .server now (← Tx.reads (pendingCSRCount agentID .server))

def certificatesChanged : Error :=
  .conflict "CERTIFICATES_CHANGED" "identity certificates changed during revocation; retry the revocation"

/-- The transaction of `Revoke` on a live registration.  It reads the registration and its certificates
again; `reg` and `certs` are what was read before the certificates were revoked at the authority. -/
def commitRevocation (ambient : Ambient) (reg : AgentRegistration) (certs : List StoredCertificate)
    (reason : RevocationReason) (lane : Lane) (now : Time) : Tx Store Error AgentRegistration := do
  let current ← findByAgentID reg.agentID
  if current.status = .revoked then return current
  else
    let revoked ← Tx.ofExcept
      ({ current with endpoints := reg.endpoints, serverCert := reg.serverCert }.revoke reason)
    let latestCerts ← findIdentityCertificatesByAgent reg.agentID
    Tx.require (revocationCertsCovered certs latestCerts = true) certificatesChanged
    cancelAgentModifications ambient revoked.agentID now
    discard (saveAgent revoked)
    revokeCertificates latestCerts
    let payload ← Tx.ofExcept (ambient.sign
      { eventType := .agentRevoked, lane, registration := revoked, identityCerts := latestCerts,
        serverCerts := revoked.serverCert.toList, dnsRecords := [], reason := some reason, issuedAt := now })
    enqueue ambient.now .agentRevoked revoked.agentID lane payload now
    return revoked

/-- The transaction of `cancelPending`: the copy of the registration and the certificates read before it. -/
def commitCancellation (reg : AgentRegistration) (certs : List StoredCertificate) : Tx Store Error Unit := do
  discard (saveAgent reg)
  revokeCertificates certs

/-! ### Rotation and renewal -/

/-- `enqueueCertificateRenewal`. -/
def enqueueCertificateRenewal (ambient : Ambient) (reg : AgentRegistration) (dnsRecords : List String)
    (lane : Lane) : Tx Store Error Unit := do
  let identityCerts ← findIdentityCertificatesByAgent reg.agentID
  let serverCerts ← findByocByAgentID reg.agentID
  let payload ← Tx.ofExcept (ambient.sign
    { eventType := .agentRenewed, lane, registration := reg, identityCerts, serverCerts, dnsRecords,
      reason := none, issuedAt := ambient.clock })
  enqueue ambient.now .agentRenewed reg.agentID lane payload ambient.clock

/-- The transaction of `SubmitIdentityCSR`. -/
def commitIdentityCSR (ambient : Ambient) (reg : AgentRegistration) (signed : AgentCSR)
    (stored : StoredCertificate) (dnsRecords : List String) (lane : Lane) : Tx Store Error Unit := do
  let current ← findByAgentID reg.agentID
  Tx.require (current.status = .active)
    (.invalidState "AGENT_NOT_ACTIVE" "agent ceased to be ACTIVE during certificate issuance")
  discard (saveAgent { current with identityCSR := some signed })
  saveCSR reg.agentID signed
  saveIdentityCertificate reg.agentID stored
  enqueueCertificateRenewal ambient reg dnsRecords lane

/-- The transaction of `SubmitServerCSR`. -/
def commitServerCSR (agentID : String) (csr : AgentCSR) : Tx Store Error Unit := do
  let current ← findByAgentID agentID
  Tx.require (current.status.isTerminal = false ∧ current.status ≠ .deprecated)
    (.conflict "AGENT_STATE_CONFLICT" "terminal or deprecated registration cannot accept a server CSR")
  discard (saveAgent { current with serverCSR := some csr })
  saveCSR agentID csr

/-- The transaction of `SubmitServerCertRenewal`. -/
def submitRenewal (agentID : String) (csr : Option AgentCSR) (renewal : ServerCertificateRenewal) :
    Tx Store Error Unit := do
  let current ← findByAgentID agentID
  Tx.require (current.status = .active)
    (.invalidState "AGENT_NOT_ACTIVE" "agent must remain ACTIVE to initiate renewal")
  let pending ← Tx.reads (pendingRenewal · agentID)
  Tx.require (pending.isNone = true)
    (.conflict "PENDING_RENEWAL_EXISTS" "a renewal was submitted concurrently")
  Tx.forEach csr.toList fun csr => do
    discard (saveAgent { current with serverCSR := some csr })
    saveCSR agentID csr
  saveRenewal renewal

/-- `rejectRenewalCSR`. -/
def rejectRenewalCSR (ambient : Ambient) (agentID : String) (r : ServerCertificateRenewal) :
    Tx Store Error Unit := do
  if r.renewalType ≠ .csr ∨ r.serverCsrID = "" then pure ()
  else
    let csr ← findCSRByID agentID r.serverCsrID
    if csr.status ≠ .pending then pure ()
    else
      let rejected ← Tx.ofExcept (csr.markRejected "Renewal cancelled" ambient.clock)
      saveCSR agentID rejected

/-- The transaction of `CancelServerCertRenewal`. -/
def cancelRenewal (ambient : Ambient) (agentID : String) (renewalID : Nat) : Tx Store Error Unit := do
  let current ← findRenewalByAgentID agentID
  Tx.require (current.id = renewalID)
    (.validation "RENEWAL_NOT_PENDING" "renewal was replaced during cancellation")
  Tx.require (current.completedAt = none)
    (.validation "RENEWAL_ALREADY_COMPLETED" "cannot cancel a completed renewal")
  rejectRenewalCSR ambient agentID current
  deleteRenewal current.id

/-- The transaction of `commitCertificateRenewal`. -/
def commitRenewal (ambient : Ambient) (reg : AgentRegistration) (r : ServerCertificateRenewal)
    (cert : ByocServerCertificate) (signed : Option AgentCSR) (dnsRecords : List String) (lane : Lane) :
    Tx Store Error Unit := do
  let current ← findByAgentID reg.agentID
  Tx.require (current.status = .active)
    (.invalidState "AGENT_NOT_ACTIVE" "agent ceased to be ACTIVE during renewal")
  let pending ← findPendingRenewal reg.agentID
  Tx.require (pending.id = r.id)
    (.validation "RENEWAL_NOT_PENDING" "renewal was replaced during issuance")
  saveByoc reg.agentID cert
  Tx.forEach signed.toList fun csr => do
    saveCSR reg.agentID csr
    discard (saveAgent { current with serverCSR := some csr })
  saveRenewal r
  enqueueCertificateRenewal ambient reg dnsRecords lane

end Transactions

end AgentNameService.Registration
