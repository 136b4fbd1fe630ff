/-
Purpose: The operations of the identity service as programs of atomic steps and questions, in the order in which the source
  performs them.
Source: internal/ra/service/{identity,identitykinds,leiverifier}.go
Trusted boundary: human-reviewed model; a producer signer and a sealer are configured, and logging is left out
-/
import AgentNameService.Identity.Interface

namespace AgentNameService.Identity

open Interleaving Except Prog TransparencyLog.Identity
open Registration (Time Error RegistrationStatus quoted)
open TransparencyLog (EventType)

variable (D : Deployment)

/-- A program of the identity service. -/
abbrev Program := Prog (RA D)

variable {D}

def run (c : Call) : Program D c.Reply := perform (M := RA D) c

def tryRun (c : Call) : Program D (Except Error c.Reply) := attempt (M := RA D) c

def ask (q : Query) : Program D q.Answer := query (M := RA D) q

def check (condition : Prop) [Decidable condition] (failure : Error) : Program D Unit :=
  lift (require condition failure)

def orFail {α : Type} (x : Except Error α) : Program D α := lift x

def failWith {α : Type} (e : Error) : Program D α := fail e

variable (D)

/-! ### Gates -/

/-- `verifierFor`. -/
def verifierFor (kind : IdentifierKind) : Except Error Unit :=
  require (kind = .lei → D.leiEnabled = true)
    (kindUnsupported ("identifier kind " ++ quoted kind.text ++ " is not enabled on this deployment"))

def rateLimited (calls : String) : Error := .validation "RATE_LIMITED" ("too many " ++ calls ++ " calls; retry later")

def ownedIdentityForWrite (providerID identityID : String) : Program D VerifiedIdentity := do
  check (identityID ≠ "") (.validation "INVALID_IDENTITY_ID" "identityId is required")
  let identity : VerifiedIdentity ← run (.findByID identityID)
  check (identity.providerID = providerID) (.unauthorized "IDENTITY_NOT_OWNED" "caller does not own this identity")
  return identity

/-! ### Sealing -/

/-- `buildIdentityEvent`. -/
def buildIdentityEvent (identity : VerifiedIdentity) (eventType : EventType) (now : Time) : Event where
  ansIDs := []
  eventType := eventType
  identityID := identity.identityID
  kind := identity.kind.text
  keys := []
  previousValue := ""
  proofMethod := identity.proofMethod
  providerID := identity.providerID
  raID := D.raID
  revokedAt := ""
  timestamp := D.rfc3339 (now / 1000)
  value := identity.value
  verifiedAt := ""

/-- `sealIdentityEvent`: nothing is sealed without the log's acknowledgement. -/
def sealIdentityEvent (inner : Event) : Program D (Except Error Unit) := do
  match canonicalizeEvent D inner with
  | .error text => return .error (.plain ("canonicalize identity event: " ++ text))
  | .ok body =>
    match ← tryRun (.sealEvent body) with
    | .error e => return .error e
    | .ok (acknowledged : Bool) => return require (acknowledged = true) tlUnavailable

/-! ### Challenges -/

structure ProofChallenge where
  kid : String
  signingInput : String
deriving DecidableEq, Repr

structure IdentityChallengeResponse where
  identity : VerifiedIdentity
  nonce : String
  expiresAt : Time
  challenges : List ProofChallenge
  presentationStatus : Option PresentationStatus
deriving DecidableEq, Repr

structure RegisterOptions where
  vleiPresentation : String
deriving DecidableEq, Repr

/-- `RegisterPresentation` of lei. -/
def registerPresentation (effectiveValue : String) (opts : RegisterOptions) : Program D (String × PresentationStatus) := do
  check (opts.vleiPresentation ≠ "") (.validation "IDENTIFIER_PRESENTATION_REQUIRED"
    "lei registration requires vleiPresentation.cesr")
  let res : PresentationResult ← orFail (← ask (.present opts.vleiPresentation))
  check (res.subjectAID ≠ "") (.validation "LEI_PRESENTATION_INVALID"
    "the vlei verifier returned no subject AID for the presentation")
  check (res.lei = "" ∨ equalFold res.lei effectiveValue) (.validation "LEI_MISMATCH"
    s!"presented credential authorizes LEI {quoted res.lei}, not {quoted effectiveValue}")
  return (res.subjectAID, res.status)

/-- The presentation of an identity whose kind has one. -/
def stagePresentation (identity : VerifiedIdentity) (opts : RegisterOptions) :
    Program D (VerifiedIdentity × Option PresentationStatus) := do
  match identity.kind with
  | .lei =>
    let (subjectAID, status) ← registerPresentation D identity.effectiveValue opts
    let staged ← orFail (identity.stageSubjectAID subjectAID)
    return (staged, some status)
  | .didWeb | .didKey => return (identity, none)

/-- `Challenges` of the kinds. -/
def challenges (identity : VerifiedIdentity) (signingInput : String) : Program D (List ProofChallenge) := do
  match identity.kind with
  | .didWeb =>
    let doc : DIDDocument ← run (.resolve identity.effectiveValue [])
    if doc.assertionMethod = [] then return [⟨"", signingInput⟩]
    else return doc.assertionMethod.map fun vm => ⟨vm.id, signingInput⟩
  | .didKey =>
    let (_, kid) ← orFail ((decodeDIDKey D identity.effectiveValue).mapError badFormat)
    return [⟨kid, signingInput⟩]
  | .lei =>
    check (identity.effectiveSubjectAID ≠ "") (.internal "LEI_SUBJECT_AID_MISSING"
      "subject AID was not pinned before challenge")
    return [⟨identity.effectiveSubjectAID, signingInput⟩]

/-- Persist a challenge: a new identity is inserted, a stored one is updated on the condition that it is as it was
loaded. -/
def persistChallenge (loaded identity : VerifiedIdentity) (now : Time) (isNew : Bool) : Program D Unit := do
  if isNew then
    match ← tryRun (.insert identity) with
    | .ok _ => return ()
    | .error e => failWith (mapIdentitySaveErr e)
  else run (.stageChallenge identity loaded.status ((loaded.challenge.map IdentityChallenge.nonce).getD "")
    (now - sealClaimTTL))

/-- `challenge`. -/
def challenge (loaded : VerifiedIdentity) (now : Time) (isNew : Bool) (opts : RegisterOptions) :
    Program D IdentityChallengeResponse := do
  orFail (verifierFor D loaded.kind)
  let (presented, presentationStatus) ← stagePresentation D loaded opts
  let some nonce ← ask .newNonce
    | failWith (.internal "CHALLENGE_GENERATION" "could not generate challenge nonce")
  let identity ← orFail (presented.issueChallenge nonce D.challengeTTL now)
  let signingInput ← orFail (((identity.proofInput D nonce).signingInput D).mapError fun _ =>
    .internal "CHALLENGE_GENERATION" "could not build signing input")
  let offered ← challenges D identity signingInput
  persistChallenge D presented identity now isNew
  return ⟨identity, nonce, now + D.challengeTTL, offered, presentationStatus⟩

/-- `Register`. -/
def register (providerID rawValue : String) (opts : RegisterOptions) : Program D IdentityChallengeResponse := do
  check (providerID ≠ "") (.validation "INVALID_PROVIDER_ID" "authenticated owner is required")
  let asked : Time ← run .clock
  let allowed : Bool ← run (.allow .register providerID asked)
  check (allowed = true) (rateLimited "identity register/rotate")
  let (kind, canonical) ← orFail (inferIdentifierKind rawValue)
  orFail (verifierFor D kind)
  let now : Time ← run .clock
  match ← tryRun (.findLive providerID kind canonical) with
  | .ok (existing : VerifiedIdentity) =>
    if existing.status = .verified then
      failWith (.conflict "IDENTIFIER_DUPLICATE"
        "identifier is already verified by this owner; rotate it with PUT instead")
    else challenge D existing now false opts
  | .error e =>
    check (e.kind = .notFound) e
    let taken : Bool ← run (.existsVerified kind canonical)
    check (taken = false)
      (.conflict "IDENTIFIER_DUPLICATE" "identifier is already verified by another owner")
    let some identityID ← ask .newID
      | failWith (.internal "IDENTITY_ID_GENERATION" "could not generate identityId")
    let identity ← orFail (newVerifiedIdentity identityID providerID canonical)
    challenge D identity now true opts

/-- `Rotate`. -/
def rotate (providerID identityID rawValue : String) (opts : RegisterOptions) : Program D IdentityChallengeResponse := do
  let asked : Time ← run .clock
  let allowed : Bool ← run (.allow .register providerID asked)
  check (allowed = true) (rateLimited "identity register/rotate")
  let identity ← ownedIdentityForWrite D providerID identityID
  let now : Time ← run .clock
  let staged ← orFail (identity.stageRotation rawValue)
  challenge D staged now false opts

/-! ### VerifyControl -/

/-- `VerifyProofs` of lei. -/
def verifyLEIProof (identity : VerifiedIdentity) (sub : ProofSubmission) (signingInput : String) :
    Program D (List ProvenKey) := do
  check (sub.cesrSignature ≠ "") (proofInvalid "cesrSignature is required")
  let aid := identity.effectiveSubjectAID
  check (aid ≠ "") (.invalidState "LEI_SUBJECT_AID_MISSING"
    "no subject AID is pinned; re-register the identifier with its presentation")
  let auth : AuthorizationResult ← orFail (← ask (.authorization aid))
  check (auth.authorized = true) (.validation "LEI_NOT_AUTHORIZED"
    "the vlei verifier does not currently authorize this AID")
  check (auth.lei = "" ∨ equalFold auth.lei identity.effectiveValue) (.validation "LEI_MISMATCH"
    s!"the AID is authorized for LEI {quoted auth.lei}, not {quoted identity.effectiveValue}")
  let ok : Bool ← orFail (← ask (.verifySignature aid signingInput sub.cesrSignature))
  check (ok = true) (.validation "PRICC_SIGNATURE_INVALID"
    "the CESR signature does not verify against the subject AID's current key")
  return [⟨some (leiMethod D aid), sub.cesrSignature⟩]

/-- `VerifyProofs` of the kinds. -/
def verifyProofs (identity : VerifiedIdentity) (sub : ProofSubmission) (signingInput : String) :
    Program D (List ProvenKey) := do
  let did := identity.effectiveValue
  match identity.kind with
  | .didWeb =>
    let parsed ← orFail (parseJWSProofs D sub signingInput)
    let doc : DIDDocument ← run (.resolve did (parsed.map fun proof => ⟨proof.header.kid, proof.header.jwk⟩))
    orFail (didWebKeys D doc did parsed)
  | .didKey =>
    let parsed ← orFail (parseJWSProofs D sub signingInput)
    orFail (didKeyKeys D did parsed)
  | .lei => verifyLEIProof D identity sub signingInput

/-- The failure path after a claim: release it as best one can. -/
def releaseAndFail {α : Type} (claim : Claim) (e : Error) : Program D α := do
  let _ ← tryRun (.releaseChallenge claim)
  failWith e

/-- `IDENTITY_VERIFIED`, or `IDENTITY_UPDATED` of an identity that was verified before. -/
def proofEventType (statusBefore : IdentityStatus) : EventType :=
  if statusBefore = .verified then .identityUpdated else .identityVerified

/-- The event of a control proof. -/
def proofEvent (statusBefore : IdentityStatus) (verified : VerifiedIdentity) (previousValue : String) (keys : List ProvenKey)
    (now : Time) : Event :=
  { buildIdentityEvent D verified (proofEventType statusBefore) now with
    keys, previousValue, verifiedAt := D.rfc3339 (now / 1000) }

/-- Claim, seal and commit a proof that passed. -/
def completeProof (loaded : VerifiedIdentity) (challenge : IdentityChallenge) (keys : List ProvenKey) (now : Time) :
    Program D VerifiedIdentity := do
  let claim : Claim := ⟨loaded.identityID, challenge.nonce, now⟩
  run (.claimChallenge claim)
  match loaded.completeVerification with
  | .error e => releaseAndFail D claim e
  | .ok (verified, previousValue) =>
    match ← sealIdentityEvent D (proofEvent D loaded.status verified previousValue keys now) with
    | .error e => releaseAndFail D claim e
    | .ok _ =>
      match ← tryRun (.commitVerification ⟨loaded, challenge, verified, keys, now⟩) with
      | .error e => releaseAndFail D claim e
      | .ok (identity : VerifiedIdentity) => return identity

/-- `VerifyControl`. -/
def verifyControl (providerID identityID : String) (sub : ProofSubmission) : Program D VerifiedIdentity := do
  let identity ← ownedIdentityForWrite D providerID identityID
  let now : Time ← run .clock
  check (identity.status ≠ .revoked) (.invalidState "IDENTITY_REVOKED" "identity is revoked")
  let challenge ← orFail (identity.checkChallenge now)
  orFail sub.validateExactlyOneFamily
  orFail (verifierFor D identity.kind)
  let expectedPayload ← orFail (((identity.proofInput D challenge.nonce).signingInput D).mapError fun _ =>
    .internal "PROOF_INPUT" "could not rebuild signing input")
  let provenKeys ← verifyProofs D identity sub expectedPayload
  if identity.status ≠ .verified then
    let taken : Bool ← run (.existsVerified identity.kind identity.effectiveValue)
    check (taken = false) (.conflict "IDENTIFIER_DUPLICATE" "identifier is already verified by another owner")
  completeProof D identity challenge provenKeys now

/-! ### Revoke -/

/-- The event of a revocation. -/
def revocationEvent (revoked : VerifiedIdentity) (now : Time) : Event :=
  { buildIdentityEvent D revoked .identityRevoked now with revokedAt := D.rfc3339 (now / 1000) }

/-- `Revoke`. -/
def revoke (providerID identityID : String) : Program D VerifiedIdentity := do
  let identity ← ownedIdentityForWrite D providerID identityID
  let now : Time ← run .clock
  let revoked ← orFail identity.revoke
  orFail (← sealIdentityEvent D (revocationEvent D revoked now))
  run (.markRevoked revoked.identityID)
  return revoked

/-! ### Links -/

def maxLinkBatch : Nat := 256

def agentLinkable : RegistrationStatus → Bool
  | .active | .deprecated => true
  | _ => false

/-- The event of a change of links. -/
def linkEvent (identity : VerifiedIdentity) (eventType : EventType) (agentIDs : List String) (now : Time) : Event :=
  { buildIdentityEvent D identity eventType now with ansIDs := agentIDs }

/-- Every agent of a batch must exist, belong to the caller and be live. -/
def checkLinkable (providerID agentID : String) : Program D Unit := do
  let missing := .notFound "AGENT_NOT_FOUND" ("agent " ++ quoted agentID ++ " not found")
  match ← tryRun (.findByAgentID agentID) with
  | .error _ => failWith missing
  | .ok (a : AgentRecord) =>
    check (a.ownerID = providerID) missing
    check (agentLinkable a.status = true) (.validation "AGENT_NOT_LINKABLE"
      s!"agent {quoted agentID} is {a.status.text} — links require a live agent (ACTIVE or DEPRECATED)")

/-- `Link`. -/
def link (providerID identityID : String) (agentIDs : List String) : Program D Nat := do
  let asked : Time ← run .clock
  let allowed : Bool ← run (.allow .link providerID asked)
  check (allowed = true) (rateLimited "link/unlink")
  let identity ← ownedIdentityForWrite D providerID identityID
  check (identity.status = .verified)
    (.invalidState "IDENTITY_NOT_VERIFIED" "links attach only while the identity is VERIFIED")
  check (agentIDs ≠ []) (.validation "INVALID_LINK_REQUEST" "agentIds is required")
  check (agentIDs.length ≤ maxLinkBatch) (.validation "INVALID_LINK_REQUEST"
    s!"at most {maxLinkBatch} agents per link call; chunk larger fleets")
  check ("" ∉ agentIDs) (.validation "INVALID_LINK_REQUEST" "agentIds contains an empty id")
  let deduped := agentIDs.reverse.dedup.reverse
  forEach deduped (checkLinkable D providerID)
  let existing : List IdentityLink ← run (.listLiveByIdentity identityID)
  let newlyLinked := deduped.filter (· ∉ existing.map IdentityLink.agentID)
  if newlyLinked = [] then return 0
  else
    let now : Time ← run .clock
    orFail (← sealIdentityEvent D (linkEvent D identity .identityLinked newlyLinked now))
    run (.commitLinks identityID newlyLinked now)
    return newlyLinked.length

/-- `Unlink`. -/
def unlink (providerID identityID agentID : String) : Program D Unit := do
  let asked : Time ← run .clock
  let allowed : Bool ← run (.allow .link providerID asked)
  check (allowed = true) (rateLimited "link/unlink")
  let identity ← ownedIdentityForWrite D providerID identityID
  let existing : List IdentityLink ← run (.listLiveByIdentity identityID)
  check (agentID ∈ existing.map IdentityLink.agentID)
    (.notFound "LINK_NOT_FOUND" "no live link exists for this identity and agent")
  let now : Time ← run .clock
  orFail (← sealIdentityEvent D (linkEvent D identity .identityUnlinked [agentID] now))
  run (.commitUnlink identityID agentID)

/-! ### The service -/

/-- A request, or something that happens beside the requests. -/
inductive Op where
  | register (providerID rawValue : String) (opts : RegisterOptions)
  | rotate (providerID identityID rawValue : String) (opts : RegisterOptions)
  | verifyControl (providerID identityID : String) (sub : ProofSubmission)
  | revoke (providerID identityID : String)
  | link (providerID identityID : String) (agentIDs : List String)
  | unlink (providerID identityID agentID : String)
  | setAgent (a : AgentRecord)
  | restart

inductive Outcome where
  | challenged (response : IdentityChallengeResponse)
  | identity (v : VerifiedIdentity)
  | linked (count : Nat)
  | done

def operation : Op → Program D Outcome
  | .register providerID rawValue opts => do
      let response ← register D providerID rawValue opts
      return .challenged response
  | .rotate providerID identityID rawValue opts => do
      let response ← rotate D providerID identityID rawValue opts
      return .challenged response
  | .verifyControl providerID identityID sub => do
      let v ← verifyControl D providerID identityID sub
      return .identity v
  | .revoke providerID identityID => do
      let v ← revoke D providerID identityID
      return .identity v
  | .link providerID identityID agentIDs => do
      let count ← link D providerID identityID agentIDs
      return .linked count
  | .unlink providerID identityID agentID => do
      unlink D providerID identityID agentID
      return .done
  | .setAgent a => do
      run (.setAgent a)
      return .done
  | .restart => do
      run .restart
      return .done

abbrev service : Service (RA D) where
  Op := Op
  Out := Outcome
  body := operation D
  init := State.init D

end AgentNameService.Identity
