/-
Purpose: The operations of the registration service as programs of atomic store steps and questions to its
  ports, in the order in which the source performs them.
Source: internal/ra/service/{registration,lifecycle,order_proof,provider_errors,renewal,renewal_expiry,
  agent_expiry,revocation,certificate_events,helpers}.go, internal/ra/outbox/worker.go
Trusted boundary: human-reviewed model
-/
import AgentNameService.Registration.Interface

namespace AgentNameService.Registration

open Interleaving Prog Transactions

/-- A program of the registration service. -/
abbrev Program := Prog RA

/-- Which optional ports are wired. -/
structure Wiring where
  serverCA : Bool := true
  dnsVerifier : Bool := true
  httpChallenge : Bool := true
  agentSealer : Bool := true
deriving DecidableEq, Repr

/-- Read from a store, and end with the store's error. -/
def find (r : Read) : Program r.Result := perform (M := RA) (.read r)

/-- Read from a store, and go on with the outcome. -/
def tryFind (r : Read) : Program (Except Error r.Result) := attempt (M := RA) (.read r)

/-- A step on the stores. -/
def run (c : Call) : Program c.Reply := perform (M := RA) c

/-- A question to a port. -/
def ask (q : Query) : Program q.Answer := query (M := RA) q

/-- End with an error unless a condition holds. -/
def check (condition : Prop) [Decidable condition] (failure : Error) : Program Unit :=
  lift (Except.require condition failure)

/-- Go on with a computed value, or end with its error. -/
def orFail {α : Type} (x : Except Error α) : Program α := lift x

def failWith {α : Type} (e : Error) : Program α := fail e

/-! ### Helpers -/

/-- `certificateProviderError`. -/
def certificateProviderError (fallbackCode detail : String) : ProviderError → Error
  | .throttled _ =>
    .unavailable "CERT_PROVIDER_THROTTLED" "certificate provider is temporarily rate limited; retry later"
  | .legacyOrder => .conflict "CERT_ORDER_UPGRADE_REQUIRED"
      ("legacy certificate order cannot continue; cancel the pending renewal or registration where supported " ++
        "and create a new order")
  | .orderOwnerMismatch => .conflict "CERT_ORDER_OWNER_MISMATCH"
      "certificate order does not belong to the authenticated owner"
  | .other _ => .internal fallbackCode detail

/-- `loadServerCert`: no certificate on file is not an error. -/
def loadServerCert (agentID : String) : Program (Option ByocServerCertificate) := do
  match ← tryFind (.findLatestValidByAgentID agentID) with
  | .ok cert => return some cert
  | .error e => if e.kind = .notFound then return none else failWith e

/-- `orderWithOwnerProof`: the order is stored as pending, with challenges of its own if the provider sent
none. -/
def orderWithOwnerProof (code detail : String) (created : Option CertificateOrder) (deadline : Time) :
    Program CertificateOrder := do
  match created with
  | none => failWith (.internal code detail)
  | some created =>
    check (created.state = .pending ∨ created.state = .issuing) (.internal code detail)
    let expiresAt := match created.expiresAt with
      | none => deadline
      | some expiresAt => min deadline expiresAt
    if created.challenges = [] then
      match ← ask .challengeTokens with
      | .error _ => failWith (.internal code detail)
      | .ok (dns01, http01) =>
        return { CertificateOrder.selfIssued dns01 http01 expiresAt with orderRef := created.orderRef }
    else
      return { created with verifiedChallenge := none, expiresAt := some expiresAt, state := .pending }

/-! ### RegisterAgent -/

structure RegisterRequest where
  ownerID : String
  ansName : AnsName
  displayName : String
  description : String := ""
  endpoints : List String
  identityCSRPEM : String := ""
  serverCsrPEM : String := ""
  serverCertificatePEM : String := ""
  serverCertificateChainPEM : String := ""
deriving DecidableEq, Repr

/-- A day. -/
def registrationChallengeWindow : Time := 24 * 60 * 60 * 1000

/-- `hostHeldByAnotherOwner`. -/
def hostHeldByAnotherOwner (regs : List AgentRegistration) (ownerID exceptAgentID : String) : Bool :=
  regs.any fun r => r.agentID != exceptAgentID && r.ownerID != ownerID && holdsHostExclusivity r.status

/-- `preflightRegistrationConflicts`. -/
def preflightRegistrationConflicts (ansName : AnsName) (ownerID : String) : Program Unit := do
  let taken : Bool ← find (.existsByAnsName ansName)
  check (taken = false) (.conflict "ANS_NAME_TAKEN"
    ("ANS name " ++ quoted ansName.text ++ " is already registered"))
  let regs ← find (.findAllByAgentHost ansName.fqdn)
  check (hostHeldByAnotherOwner regs ownerID "" = false) (hostTaken ansName.fqdn)

/-- `ensureHostNotTakenByOther`. -/
def ensureHostNotTakenByOther (reg : AgentRegistration) : Program Unit := do
  let regs ← find (.findAllByAgentHost reg.fqdn)
  check (hostHeldByAnotherOwner regs reg.ownerID reg.agentID = false) (hostTaken reg.fqdn)

/-- The resolved intake of the server certificate. -/
structure ServerCertInput where
  byocCert : Option ByocServerCertificate := none
  serverCSR : Option AgentCSR := none
  order : CertificateOrder
deriving DecidableEq, Repr

/-- `resolveServerCertInput`: exactly one of a request and a certificate; either way an order whose
challenges prove domain control. -/
def resolveServerCertInput (w : Wiring) (req : RegisterRequest) (now : Time) : Program ServerCertInput := do
  check ((req.serverCsrPEM = "") ≠ (req.serverCertificatePEM = ""))
    (.validation "INVALID_SERVER_CERT_INPUT"
      "exactly one of serverCsrPEM or serverCertificatePEM must be provided")
  if req.serverCertificatePEM ≠ "" then
    match ← ask (.validateServerCertificate req.serverCertificatePEM req.serverCertificateChainPEM
        req.ansName.fqdn) with
    | .error text => failWith (.certificate "INVALID_SERVER_CERT" text)
    | .ok cert =>
      match ← ask .challengeTokens with
      | .error _ => failWith (.internal "CHALLENGE_GEN_FAILED" "generate ACME challenge")
      | .ok (dns01, http01) =>
        return { byocCert := some cert
                 order := CertificateOrder.selfIssued dns01 http01 (now + registrationChallengeWindow) }
  else
    check (w.serverCA = true) (.validation "SERVER_CA_DISABLED"
      ("serverCsrPEM submitted but no server CA is configured — either configure one or use " ++
        "serverCertificatePEM (BYOC)"))
    match ← ask (.validateServerCSR req.serverCsrPEM req.ansName.fqdn) with
    | .error text => failWith (.validation "INVALID_SERVER_CSR" text)
    | .ok () =>
      match ← ask (.createOrder req.ownerID req.ansName.fqdn) with
      | .error e => failWith (certificateProviderError "CERT_ORDER_FAILED" "create certificate order" e)
      | .ok created =>
        let order ← orderWithOwnerProof "CERT_ORDER_FAILED" "prepare domain-control proof" created
          (now + registrationChallengeWindow)
        let csrID ← ask .uuid
        return { serverCSR := some (AgentCSR.newServerCSR csrID req.serverCsrPEM now), order }

/-- The optional identity request of a registration. -/
def resolveIdentityCSR (req : RegisterRequest) (now : Time) : Program (Option AgentCSR) := do
  if req.identityCSRPEM = "" then return none
  else
    match ← ask (.validateIdentityCSR req.identityCSRPEM req.ansName.text) with
    | .error text => failWith (.validation "INVALID_IDENTITY_CSR" text)
    | .ok () =>
      let csrID ← ask .uuid
      return some (AgentCSR.newIdentityCSR csrID req.identityCSRPEM now)

def registerAgent (w : Wiring) (req : RegisterRequest) : Program AgentRegistration := do
  let now ← ask .clock
  preflightRegistrationConflicts req.ansName req.ownerID
  let identityCSR ← resolveIdentityCSR req now
  let input ← resolveServerCertInput w req now
  let agentID ← ask .uuid
  let endpointsValid ← ask (.validateEndpoints req.endpoints req.ansName.fqdn)
  let reg ← orFail (AgentRegistration.newRegistration agentID req.ownerID req.ansName req.displayName
    req.description req.endpoints endpointsValid input.byocCert identityCSR now)
  run (.register { reg with serverCSR := input.serverCSR, certOrder := input.order })

/-! ### VerifyACME -/

/-- `verifyChallengeArtifact`: whether the artifact of one challenge is published. -/
def verifyChallengeArtifact (w : Wiring) (fqdn : String) (ch : Challenge) : Program (Except Error Bool) :=
  match ch.type with
  | .dns01 =>
    if w.dnsVerifier then
      ask (.verifyDNSChallenge fqdn
        (if ch.dnsRecordName = "" then "_acme-challenge." ++ fqdn else ch.dnsRecordName)
        (if ch.dnsRecordValue = "" then ch.token else ch.dnsRecordValue))
    else return .ok false
  | .http01 =>
    if w.httpChallenge then
      ask (.verifyHTTPChallenge fqdn
        (if ch.httpPath = "" then "/.well-known/acme-challenge/" ++ ch.token else ch.httpPath)
        (if ch.keyAuthorization = "" then ch.token else ch.keyAuthorization))
    else return .ok false
  | .other _ => return .ok false

/-- The loop of `verifyChallengeArtifacts`: the first published artifact, or the first error. -/
def firstPublished (w : Wiring) (fqdn : String) : List Challenge → Option Error →
    Program (Option ChallengeType × Option Error)
  | [], firstErr => return (none, firstErr)
  | ch :: rest, firstErr => do
      match ← verifyChallengeArtifact w fqdn ch with
      | .ok true => return (some ch.type, none)
      | .ok false => firstPublished w fqdn rest firstErr
      | .error e => firstPublished w fqdn rest (firstErr.or (some e))

def verifyChallengeArtifacts (w : Wiring) (fqdn : String) (challenges : List Challenge) :
    Program (Option ChallengeType × Option Error) :=
  if challenges = [] then return (none, none)
  else if w.dnsVerifier = false ∧ w.httpChallenge = false then
    return (none, some (.internal "CHALLENGE_VERIFIER_MISSING"
      "no challenge verifier configured — wire a DNS verifier and/or an HTTP challenge verifier"))
  else firstPublished w fqdn challenges none

/-- `gateOrderChallenges`: the registration, with the verified challenge recorded, and the challenge types
verified in this call.  An order that is being issued after a recorded proof passes without a new one. -/
def gateOrderChallenges (w : Wiring) (reg : AgentRegistration) (now : Time) :
    Program (AgentRegistration × List ChallengeType) := do
  let order := reg.certOrder
  if order.isZero then
    failWith (.validation "ACME_CHALLENGE_MISSING"
      "registration has no persisted domain-control proof; register a new version")
  else if order.challenges = [] ∧ order.hasVerifiedChallenge = false then
    failWith (.conflict "CERT_ORDER_UPGRADE_REQUIRED"
      ("registration has no reusable owner proof; cancel where supported or let it expire, then register a " ++
        "new version"))
  else if order.state = .issuing ∧ order.hasVerifiedChallenge = true then
    return (reg, [])
  else if order.state = .failed then
    failWith (.validation "CERT_ORDER_FAILED"
      ("certificate order failed terminally; cancel this registration (POST /revoke) and register a new " ++
        "version"))
  else if order.state ≠ .pending ∧ order.state ≠ .issuing then
    failWith (.validation "ACME_CHALLENGE_MISSING"
      "registration has no pending order with verifiable domain-control proof")
  else if order.isExpired now then
    failWith (.validation "ACME_CHALLENGE_EXPIRED"
      ("the domain-control challenge window has expired; this registration will auto-expire — register a new " ++
        "version to retry"))
  else
    match ← verifyChallengeArtifacts w reg.fqdn order.challenges with
    | (some type, _) => return ({ reg with certOrder := order.recordVerifiedChallenge type }, [type])
    | (none, some e) => failWith (e.wrap "acme verify")
    | (none, none) => failWith (.validation "ACME_CHALLENGE_MISSING"
        ("no domain-control challenge artifact found for " ++ reg.fqdn ++
          " — publish the DNS-01 TXT record or the HTTP-01 resource from challenges[]"))

/-- What finalizing the server order leaves for the rest of `VerifyACME`. -/
inductive ServerOrderOutcome where
  | pending (order : CertificateOrder)
  | issued (cert : ByocServerCertificate) (signed : AgentCSR)

/-- `finalizeServerOrder`. -/
def finalizeServerOrder (w : Wiring) (reg : AgentRegistration) (serverCSR : AgentCSR)
    (verified : List ChallengeType) (now : Time) : Program ServerOrderOutcome := do
  check (w.serverCA = true) (.internal "SERVER_CA_DISABLED"
    "server CSR pending but no certificate issuer configured — inconsistent state")
  match ← ask (.finalizeOrder { ownerID := reg.ownerID, orderRef := reg.certOrder.orderRef,
                                csrPEM := serverCSR.csrContent, fqdn := reg.fqdn, verified }) with
  | .orderPending =>
    let order ← orFail reg.certOrder.markIssuing
    return .pending order
  | .orderFailed =>
    let order ← orFail reg.certOrder.markFailed
    let _ ← run (.saveAgent { reg with certOrder := order })
    failWith (.validation "CERT_ORDER_FAILED"
      ("certificate provider reported a terminal order failure; cancel this registration (POST /revoke) " ++
        "and register a new version"))
  | .error e => failWith (certificateProviderError "SERVER_CERT_ISSUE_FAILED" "failed to issue server cert" e)
  | .issued cert =>
    match ← ask (.validateServerCertificate cert.certPEM cert.chainPEM reg.fqdn) with
    | .error _ => failWith (.internal "SERVER_CERT_SELFVERIFY_FAILED"
        "issued server cert failed self-validation")
    | .ok cert =>
      let signed ← orFail (serverCSR.markSigned now)
      return .issued cert signed

/-- `signIdentityCSR`: the signed request and the certificate to store. -/
def signIdentityCSR (reg : AgentRegistration) (csr : AgentCSR) (now : Time) :
    Program (AgentCSR × StoredCertificate) := do
  match ← ask (.issueIdentityCertificate csr.csrContent reg.ansName.text) with
  | .error _ => failWith (.internal "CERT_ISSUE_FAILED" "failed to issue identity cert")
  | .ok issued =>
    let signed ← orFail (csr.markSigned now)
    return (signed, { csrID := csr.csrID, certificatePEM := issued.certPEM, chainPEM := issued.chainPEM,
                      serialNumber := issued.serialNumber, certificateRef := issued.certificateRef,
                      status := .valid, issueTimestamp := issued.issuedAt,
                      expirationTimestamp := issued.expiresAt })

/-- Sign the identity request, if there is one. -/
def signPending (reg : AgentRegistration) (csr : Option AgentCSR) (now : Time) :
    Program (Option (AgentCSR × StoredCertificate)) := do
  match csr with
  | none => return none
  | some csr => return some (← signIdentityCSR reg csr now)

/-- The end of `VerifyACME`: sign the identity request, close the order and commit. -/
def finishACME (reg : AgentRegistration) (server : Option (ByocServerCertificate × AgentCSR)) (now : Time) :
    Program AgentRegistration := do
  let identityCSR : Option AgentCSR ← find (.findLatestPendingCSRByType reg.agentID .identity)
  let identity ← signPending reg identityCSR now
  let order ← orFail (if reg.certOrder.isZero then .ok reg.certOrder else reg.certOrder.markCompleted)
  let advanced ← orFail { reg with
    identityCSR := (identity.map Prod.fst).or reg.identityCSR, certOrder := order }.advanceToPendingDNS
  run (.commitACME advanced identity server)
  return advanced

/-- `VerifyACME`: the registration, and whether the provider is still issuing. -/
def verifyACME (w : Wiring) (agentID : String) : Program (AgentRegistration × Bool) := do
  let now ← ask .clock
  let reg : AgentRegistration ← find (.findByAgentID agentID)
  ensureHostNotTakenByOther reg
  if reg.status ≠ .pendingValidation then return (reg, false)
  else
    let endpoints : List String ← find (.findEndpoints agentID)
    let (reg, verified) ← gateOrderChallenges w { reg with endpoints } now
    let serverCSR : Option AgentCSR ← find (.findLatestPendingCSRByType agentID .server)
    match serverCSR with
    | some csr =>
      if reg.certOrder.orderRef ≠ "" then
        match ← finalizeServerOrder w reg csr verified now with
        | .pending order =>
          let saved ← run (.saveAgent { reg with certOrder := order })
          return (saved, true)
        | .issued cert signed =>
          let advanced ← finishACME { reg with serverCert := some cert } (some (cert, signed)) now
          return (advanced, false)
      else
        let advanced ← finishACME reg none now
        return (advanced, false)
    | none =>
      let advanced ← finishACME reg none now
      return (advanced, false)

/-! ### VerifyDNS -/

/-- The serial number on record, or else the one in the certificate. -/
def serialOf (c : StoredCertificate) : Program String := do
  if c.serialNumber ≠ "" then return c.serialNumber
  else
    match ← ask (.serialFromCertPEM c.certificatePEM) with
    | .ok serial => return serial
    | .error _ => failWith (.internal "CERT_REVOKE_FAILED" "derive certificate serial for CA revocation")

/-- `revokeIdentityCertsAtCA`: the valid certificates of a set, one by one. -/
def revokeIdentityCertsAtCA (certs : List StoredCertificate) (reason : RevocationReason) : Program Unit :=
  forEach certs fun c => do
    if c.status = .valid then
      let serial ← serialOf c
      match ← ask (.revokeCertificate serial c.certificateRef reason) with
      | .ok () => pure ()
      | .error _ => failWith (.internal "CERT_REVOKE_FAILED" "revoke identity certificate at issuing CA")
    else pure ()

/-- `revokeConflictLoserCertsAtCA`. -/
def revokeConflictLoserCertsAtCA (agentHost winnerOwnerID : String) : Program Unit := do
  let regs : List AgentRegistration ← find (.findAllByAgentHost agentHost)
  forEach regs fun r => do
    if r.ownerID = winnerOwnerID ∨ r.status.isPending = false then pure ()
    else
      let certs : List StoredCertificate ← find (.findIdentityCertificatesByAgent r.agentID)
      revokeIdentityCertsAtCA certs .cessationOfOperation

/-- The activation evidence on record; the first attempt signs it and puts it there. -/
def prepareEvidence (reg : AgentRegistration) (attested : List String) (lane : Lane) (now : Time) :
    Program (Option (Lane × OutboxPayload)) := do
  let prepared : Option (Lane × OutboxPayload) ← find (.loadActivationSeal reg.agentID)
  match prepared with
  | some evidence => return some evidence
  | none =>
    let identityCerts : List StoredCertificate ← find (.findIdentityCertificatesByAgent reg.agentID)
    let serverCerts : List ByocServerCertificate ← find (.findByocByAgentID reg.agentID)
    match ← ask (.sign { eventType := .agentRegistered, lane, registration := reg, identityCerts,
                         serverCerts, dnsRecords := attested, reason := none, issuedAt := now }) with
    | .error e => failWith e
    | .ok candidate => run (.prepareActivationSeal reg.agentID lane candidate)

/-- `sealActivationEvent`: the first signed evidence is durable before the log is asked, and every attempt
submits that evidence. -/
def sealActivationEvent (w : Wiring) (reg : AgentRegistration) (attested : List String) (lane : Lane)
    (now : Time) : Program SealedActivation := do
  check (w.agentSealer = true) (.unavailable "TL_UNAVAILABLE"
    "agent sealing is not configured; activation cannot report success without a sealed event")
  match ← prepareEvidence reg attested lane now with
  | none => failWith (.plain "persisted activation evidence is incomplete")
  | some (preparedLane, payload) =>
    check (preparedLane = lane) (.conflict "ACTIVATION_LANE_CONFLICT"
      "retry activation using the API version that prepared its signed evidence")
    check (payload.innerEventCanonical ≠ "" ∧ payload.producerSignature ≠ "")
      (.plain "persisted activation evidence is incomplete")
    match ← ask (.sealAgentEvent preparedLane payload) with
    | .error e => failWith e
    | .ok logID => return { schemaVersion := preparedLane, payload, logID }

/-- `VerifyDNS`: the registration, and the mismatches that kept it from being activated. -/
def verifyDNS (w : Wiring) (agentID : String) (lane : Lane) : Program (AgentRegistration × List String) := do
  let now ← ask .clock
  let reg : AgentRegistration ← find (.findByAgentID agentID)
  ensureHostNotTakenByOther reg
  if reg.status = .active then return (reg, [])
  else
    check (reg.status = .pendingDNS) (.invalidState "CANNOT_VERIFY_DNS"
      s!"verify-dns requires status PENDING_DNS, current: {reg.status.text}")
    let endpoints : List String ← find (.findEndpoints agentID)
    let serverCert ← loadServerCert agentID
    match ← ask (.verifyRecords { reg with endpoints, serverCert }) with
    | .error e => failWith (e.wrap "dns verify")
    | .ok report =>
      if report.mismatches ≠ [] then return ({ reg with endpoints, serverCert }, report.mismatches)
      else
        let activated ← orFail { reg with endpoints, serverCert }.activate
        let sealed ← sealActivationEvent w activated report.attested lane now
        revokeConflictLoserCertsAtCA activated.fqdn activated.ownerID
        run (.commitActivation activated sealed)
        return (activated, [])

/-! ### Revoke -/

/-- `hydrateServerCert`: best effort. -/
def hydrateServerCert (reg : AgentRegistration) : Program AgentRegistration := do
  match ← tryFind (.findByocByAgentID reg.agentID) with
  | .ok certs => return { reg with serverCert := List.head? (α := ByocServerCertificate) certs }
  | .error _ => return reg

/-- `sweepRevokedAgentCerts`. -/
def sweepRevokedAgentCerts (agentID : String) : Program Unit := do
  let certs : List StoredCertificate ← find (.findIdentityCertificatesByAgent agentID)
  if certs.any (·.status == .valid) then
    revokeIdentityCertsAtCA certs .cessationOfOperation
    run (.sweepCertificates certs)
  else pure ()

/-- `cancelPending`. -/
def cancelPending (reg : AgentRegistration) (reason : RevocationReason) : Program AgentRegistration := do
  check (reason.isValid = true) (AgentRegistration.invalidRevocationReason reason)
  let cancelled ← orFail reg.cancel
  let certs : List StoredCertificate ← find (.findIdentityCertificatesByAgent reg.agentID)
  revokeIdentityCertsAtCA certs reason
  run (.commitCancellation cancelled certs)
  return cancelled

def revoke (agentID : String) (reason : RevocationReason) (lane : Lane) : Program AgentRegistration := do
  let now ← ask .clock
  let reg : AgentRegistration ← find (.findByAgentID agentID)
  let endpoints ← tryFind (.findEndpoints agentID)
  let reg ← hydrateServerCert { reg with endpoints := (endpoints.toOption.getD [] : List String) }
  if reg.status = .revoked then
    sweepRevokedAgentCerts reg.agentID
    return reg
  else if reg.status.isPending then
    cancelPending reg reason
  else
    let _ ← orFail (reg.revoke reason)
    let certs : List StoredCertificate ← find (.findIdentityCertificatesByAgent reg.agentID)
    revokeIdentityCertsAtCA certs reason
    run (.commitRevocation reg certs reason lane now)

/-! ### Signing requests -/

/-- `observeRenewalDNS`: what the registration looks like now and the records that may be attested.  A
failed observation attests nothing. -/
def observeRenewalDNS (w : Wiring) (reg : AgentRegistration) : Program (AgentRegistration × List String) := do
  let endpoints : List String ← find (.findEndpoints reg.agentID)
  let serverCert ← loadServerCert reg.agentID
  if w.dnsVerifier then
    match ← ask (.verifyRecords { reg with endpoints, serverCert }) with
    | .error _ => return ({ reg with endpoints, serverCert }, [])
    | .ok report => return ({ reg with endpoints, serverCert }, report.attested)
  else return ({ reg with endpoints, serverCert }, [])

def submitIdentityCSR (w : Wiring) (agentID csrPEM : String) (lane : Lane) : Program String := do
  let now ← ask .clock
  let reg : AgentRegistration ← find (.findByAgentID agentID)
  check (reg.status = .active) reg.agentNotActive
  let idCerts : List StoredCertificate ← find (.findIdentityCertificatesByAgent agentID)
  check (idCerts ≠ []) (.conflict "IDENTITY_CSR_NOT_PERMITTED"
    ("agent was registered without an identity CSR; register a new version to obtain an identity " ++
      "certificate"))
  match ← ask (.validateIdentityCSR csrPEM reg.ansName.text) with
  | .error text => failWith (.validation "INVALID_IDENTITY_CSR" text)
  | .ok () =>
    let csrID ← ask .uuid
    let csr ← orFail (reg.submitIdentityCSR csrID csrPEM now)
    let (reg, dnsRecords) ← observeRenewalDNS w reg
    let (signed, stored) ← signIdentityCSR reg csr now
    run (.commitIdentityCSR { reg with identityCSR := some signed } signed stored dnsRecords lane)
    return csrID

def submitServerCSR (agentID csrPEM : String) : Program String := do
  let now ← ask .clock
  let reg : AgentRegistration ← find (.findByAgentID agentID)
  match ← ask (.validateServerCSR csrPEM reg.fqdn) with
  | .error text => failWith (.validation "INVALID_SERVER_CSR" text)
  | .ok () =>
    let csrID ← ask .uuid
    run (.commitServerCSR agentID (reg.submitServerCSR csrID csrPEM now))
    return csrID

/-! ### Renewal of the server certificate -/

structure SubmitRenewalInput where
  serverCsrPEM : String := ""
  serverCertificatePEM : String := ""
  serverCertificateChainPEM : String := ""
deriving DecidableEq, Repr

/-- Seven days. -/
def renewalChallengeWindow : Time := 7 * 24 * 60 * 60 * 1000

/-- The request and the renewal that `SubmitServerCertRenewal` prepares. -/
def prepareRenewal (w : Wiring) (reg : AgentRegistration) (input : SubmitRenewalInput) (now : Time) :
    Program (Option AgentCSR × ServerCertificateRenewal) := do
  if input.serverCsrPEM ≠ "" then
    match ← ask (.validateServerCSR input.serverCsrPEM reg.fqdn) with
    | .error text => failWith (.validation "INVALID_SERVER_CSR" ("Server CSR validation failed: " ++ text))
    | .ok () =>
      check (w.serverCA = true) (.validation "SERVER_CA_DISABLED"
        "serverCsrPEM renewal submitted but no server CA is configured")
      match ← ask (.createOrder reg.ownerID reg.fqdn) with
      | .error e => failWith (certificateProviderError "CERT_ORDER_FAILED" "create certificate order" e)
      | .ok created =>
        let order ← orderWithOwnerProof "CERT_ORDER_FAILED" "prepare renewal domain proof" created
          (now + renewalChallengeWindow)
        let csrID ← ask .uuid
        return (some (reg.submitServerCSR csrID input.serverCsrPEM now),
          { agentID := reg.agentID, registrationID := reg.id, renewalType := .csr, serverCsrID := csrID,
            validation := .ofOrder order now })
  else
    match ← ask (.validateServerCertificate input.serverCertificatePEM input.serverCertificateChainPEM
        reg.fqdn) with
    | .error text => failWith (.certificate "INVALID_BYOC_CERT"
        ("BYOC certificate validation failed: " ++ text))
    | .ok _ =>
      match ← ask .challengeTokens with
      | .error _ => failWith (.internal "CHALLENGE_GEN_FAILED" "generate challenge tokens")
      | .ok (dns01, http01) =>
        return (none,
          { agentID := reg.agentID, registrationID := reg.id, renewalType := .byoc,
            byocCertPEM := input.serverCertificatePEM, byocChainPEM := input.serverCertificateChainPEM,
            validation := .ofOrder
              (CertificateOrder.selfIssued dns01 http01 (now + renewalChallengeWindow)) now })

def submitServerCertRenewal (w : Wiring) (agentID : String) (input : SubmitRenewalInput) :
    Program ServerCertificateRenewal := do
  let now ← ask .clock
  let reg : AgentRegistration ← find (.findByAgentID agentID)
  check (reg.status = .active) (.invalidState "AGENT_NOT_ACTIVE"
    s!"Agent must be ACTIVE to initiate renewal. Current status: {reg.status.text}")
  match ← tryFind (.findPendingRenewal agentID) with
  | .ok _ => failWith (.conflict "PENDING_RENEWAL_EXISTS"
      ("A pending renewal already exists for agent " ++ agentID))
  | .error e =>
    check (e.kind = .notFound) e
    check ((input.serverCsrPEM = "") ≠ (input.serverCertificatePEM = ""))
      (.validation "INVALID_RENEWAL_REQUEST"
        "exactly one of serverCsrPEM or serverCertificatePEM must be provided")
    let (csr, renewal) ← prepareRenewal w reg input now
    run (.submitRenewal agentID csr renewal)
    return renewal

def cancelServerCertRenewal (agentID : String) : Program Unit := do
  let r : ServerCertificateRenewal ← find (.findRenewalByAgentID agentID)
  run (.cancelRenewal agentID r.id)

/-- The end of a renewal: mark it completed and commit the certificate with it. -/
def commitCertificateRenewal (reg : AgentRegistration) (r : ServerCertificateRenewal)
    (cert : ByocServerCertificate) (signed : Option AgentCSR) (dnsRecords : List String) (lane : Lane)
    (now : Time) : Program ServerCertificateRenewal := do
  let completed ← orFail (r.markCompleted now)
  run (.commitRenewal reg completed cert signed dnsRecords lane)
  return completed

/-- `finalizeCSRRenewal`: the renewal, and whether it completed in this call. -/
def finalizeCSRRenewal (w : Wiring) (agentID : String) (r : ServerCertificateRenewal)
    (verified : List ChallengeType) (lane : Lane) (now : Time) : Program (ServerCertificateRenewal × Bool) := do
  check (w.serverCA = true) (.internal "SERVER_CA_DISABLED"
    "CSR renewal pending but no certificate issuer configured — inconsistent state")
  let csr : AgentCSR ← find (.findCSRByID agentID r.serverCsrID)
  let reg : AgentRegistration ← find (.findByAgentID agentID)
  let (reg, dnsRecords) ← observeRenewalDNS w reg
  match ← ask (.finalizeOrder { ownerID := reg.ownerID, orderRef := r.validation.orderRef,
                                csrPEM := csr.csrContent, fqdn := reg.fqdn, verified }) with
  | .orderPending =>
    run (.saveRenewal r)
    return (r, false)
  | .orderFailed =>
    let failed ← orFail (r.markFailed "certificate provider reported a terminal order failure" now)
    run (.saveRenewal failed)
    failWith (.validation "CERT_ORDER_FAILED"
      "certificate provider reported a terminal order failure; submit a new renewal")
  | .error e => failWith (certificateProviderError "SERVER_CERT_ISSUE_FAILED"
      "failed to issue server cert for renewal" e)
  | .issued issued =>
    match ← ask (.validateServerCertificate issued.certPEM issued.chainPEM reg.fqdn) with
    | .error _ => failWith (.internal "SERVER_CERT_SELFVERIFY_FAILED"
        "issued renewal cert failed self-validation")
    | .ok cert =>
      let signed ← orFail (csr.markSigned now)
      let completed ← commitCertificateRenewal reg r cert (some signed) dnsRecords lane now
      return (completed, true)

/-- `finalizeBYOCRenewal`. -/
def finalizeBYOCRenewal (w : Wiring) (reg : AgentRegistration) (r : ServerCertificateRenewal) (lane : Lane)
    (now : Time) : Program (ServerCertificateRenewal × Bool) := do
  let (reg, dnsRecords) ← observeRenewalDNS w reg
  match ← ask (.validateServerCertificate r.byocCertPEM r.byocChainPEM reg.fqdn) with
  | .error text => failWith (.certificate "INVALID_BYOC_CERT"
      ("renewal certificate validation failed: " ++ text))
  | .ok cert =>
    let completed ← commitCertificateRenewal reg r cert none dnsRecords lane now
    return (completed, true)

def verifyRenewalACME (w : Wiring) (agentID : String) (lane : Lane) :
    Program (ServerCertificateRenewal × Bool) := do
  let now ← ask .clock
  let r : ServerCertificateRenewal ← find (.findPendingRenewal agentID)
  check (r.isExpired now = false) (.validation "RENEWAL_EXPIRED" "renewal validation window has expired")
  if r.validation.status = .verified then
    check (r.renewalType = .csr) (.validation "RENEWAL_NOT_PENDING"
      "renewal validation has already been verified")
    finalizeCSRRenewal w agentID r [] lane now
  else
    let reg : AgentRegistration ← find (.findByAgentID agentID)
    check (r.validation.challenges ≠ []) (.conflict "CERT_ORDER_UPGRADE_REQUIRED"
      "renewal has no persisted owner proof; cancel it and submit a new renewal")
    match ← verifyChallengeArtifacts w reg.fqdn r.validation.challenges with
    | (none, some e) => failWith (e.wrap "renewal acme verify")
    | (none, none) => failWith (.validation "ACME_CHALLENGE_MISSING"
        ("no domain-control challenge artifact found — publish the DNS-01 TXT record or the HTTP-01 resource " ++
          "from challenges"))
    | (some type, _) =>
      let validation ← orFail r.validation.markVerified
      match r.renewalType with
      | .byoc => finalizeBYOCRenewal w reg { r with validation } lane now
      | .csr => finalizeCSRRenewal w agentID { r with validation } [type] lane now

/-! ### Background work -/

/-- `ExpireAgentsOnce`. -/
def expireAgentsOnce (now : Time) : Program Nat := run (.expireLapsedPendingValidation now)

/-- The request of an expired renewal is rejected; a failure to do so is ignored. -/
def rejectExpiredCSR (r : ServerCertificateRenewal) (now : Time) : Program Unit := do
  if r.renewalType = .csr ∧ r.serverCsrID ≠ "" then
    match ← tryFind (.findCSRByID r.agentID r.serverCsrID) with
    | .error _ => pure ()
    | .ok csr =>
      match AgentCSR.markRejected csr "Renewal validation expired" now with
      | .error _ => pure ()
      | .ok rejected =>
        let _ ← attempt (M := RA) (.saveCSR r.agentID rejected)
        pure ()
  else pure ()

/-- `ExpireRenewalsOnce`. -/
def expireRenewalsOnce (now : Time) : Program Nat := do
  let expired : List ServerCertificateRenewal ← find .listPendingExpired
  forEach expired fun r => do
    let validation := r.validation.markFailed.toOption.getD r.validation
    match { r with validation }.markFailed "Renewal validation expired" now with
    | .error _ => pure ()
    | .ok failed =>
      run (.saveRenewal failed)
      rejectExpiredCSR failed now
  return expired.length

/-- The lease of a delivery claim: a minute. -/
def claimLease : Time := 60 * 1000

/-- The longest delay between attempts: five minutes. -/
def maxBackoff : Time := 5 * 60 * 1000

/-- `markFailed` of the worker: an error is only logged. -/
def recordFailure (id : Nat) (row : OutboxRow) (token reason : String) (permanent : Bool) : Program Unit := do
  let _ ← attempt (M := RA)
    (.delivery (.markFailed id token (row.attempts + 1) reason maxBackoff permanent))
  pure ()

/-- `reject` of the worker: park the row, but never a revocation. -/
def reject (id : Nat) (row : OutboxRow) (token reason : String) (park : Bool) : Program Unit := do
  if park = false ∨ row.eventType = .agentRevoked then recordFailure id row token reason true
  else
    let _ ← attempt (M := RA) (.delivery (.markDead id token reason))
    pure ()

/-- `process` of the worker: post the row's payload and record the outcome under the claim. -/
def process (id : Nat) (row : OutboxRow) (token : String) : Program Unit := do
  if row.payload.innerEventCanonical = "" ∨ row.payload.producerSignature = "" then
    reject id row token "payload missing inner event or signature" true
  else
    match ← ask (.append row.schemaVersion row.payload) with
    | .permanent text => reject id row token text (4 ≤ row.permanentAttempts)
    | .transient text => recordFailure id row token text false
    | .accepted logID =>
      if logID = "" then recordFailure id row token "TL returned empty logId" false
      else
        let _ ← attempt (M := RA) (.delivery (.markSent id token logID))
        pure ()

/-- One `tick` of an outbox worker. -/
def deliver (batchSize : Nat) : Program Unit := do
  match ← tryFind (.ready batchSize) with
  | .error _ => pure ()
  | .ok events =>
    forEach (events : List (Nat × OutboxRow)) fun ev => do
      let token ← ask .uuid
      match ← attempt (M := RA) (.delivery (.acquire ev.1 ev.2.attempts token claimLease)) with
      | .ok true => process ev.1 ev.2 token
      | _ => pure ()

/-! ### The service -/

/-- A request to the service, or a run of one of its background workers. -/
inductive Op where
  | registerAgent (req : RegisterRequest)
  | verifyACME (agentID : String)
  | verifyDNS (agentID : String) (lane : Lane)
  | revoke (agentID : String) (reason : RevocationReason) (lane : Lane)
  | submitIdentityCSR (agentID csrPEM : String) (lane : Lane)
  | submitServerCSR (agentID csrPEM : String)
  | submitServerCertRenewal (agentID : String) (input : SubmitRenewalInput)
  | cancelServerCertRenewal (agentID : String)
  | verifyRenewalACME (agentID : String) (lane : Lane)
  | expireAgents (now : Time)
  | expireRenewals (now : Time)
  | deliver (batchSize : Nat)
deriving DecidableEq, Repr

/-- What an operation reports when it succeeds. -/
inductive Outcome where
  | registered (reg : AgentRegistration)
  | validated (reg : AgentRegistration) (pending : Bool)
  | verified (reg : AgentRegistration) (mismatches : List String)
  | revoked (reg : AgentRegistration)
  | submitted (csrID : String)
  | renewal (r : ServerCertificateRenewal)
  | swept (count : Nat)
  | finished

/-- The program of an operation. -/
def Op.program (w : Wiring) : Op → Program Outcome
  | .registerAgent req => do return .registered (← Registration.registerAgent w req)
  | .verifyACME agentID => do
      let (reg, pending) ← Registration.verifyACME w agentID
      return .validated reg pending
  | .verifyDNS agentID lane => do
      let (reg, mismatches) ← Registration.verifyDNS w agentID lane
      return .verified reg mismatches
  | .revoke agentID reason lane => do return .revoked (← Registration.revoke agentID reason lane)
  | .submitIdentityCSR agentID csrPEM lane => do
      return .submitted (← Registration.submitIdentityCSR w agentID csrPEM lane)
  | .submitServerCSR agentID csrPEM => do return .submitted (← Registration.submitServerCSR agentID csrPEM)
  | .submitServerCertRenewal agentID input => do
      return .renewal (← Registration.submitServerCertRenewal w agentID input)
  | .cancelServerCertRenewal agentID => do
      Registration.cancelServerCertRenewal agentID
      return .finished
  | .verifyRenewalACME agentID lane => do
      let (r, _) ← Registration.verifyRenewalACME w agentID lane
      return .renewal r
  | .expireAgents now => do return .swept (← expireAgentsOnce now)
  | .expireRenewals now => do return .swept (← expireRenewalsOnce now)
  | .deliver batchSize => do
      Registration.deliver batchSize
      return .finished

/-- The registration authority over an empty database. -/
abbrev service (w : Wiring) : Service RA where
  Op := Op
  Out := Outcome
  body := Op.program w
  init := Store.empty

end AgentNameService.Registration
