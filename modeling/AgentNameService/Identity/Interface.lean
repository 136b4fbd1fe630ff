/-
Purpose: The atomic steps of the identity service: single statements and units of work on its tables, the rate limiter, the
  clock, the resolver and the seal of an event in the log.
Source: internal/ra/service/{identity,identityratelimit}.go, internal/adapter/store/sqlite/identity.go,
  internal/adapter/tlclient/client.go
Trusted boundary: human-reviewed model; identity ids are UUIDs and do not repeat; the owner of a registered agent does not
  change and its row stays; the state also keeps what happened, which no step reads
-/
import AgentNameService.Foundation.Interleaving
import AgentNameService.Identity.Log
import AgentNameService.Identity.Store

namespace AgentNameService.Identity

open Except Registration Registration.Store TransparencyLog.Identity


variable (D : Deployment)

/-! ### Rate limits -/

structure OwnerWindow where
  owner : String
  start : Time
  count : Nat
deriving DecidableEq, Repr

/-- `ownerLimiter`. -/
abbrev Limiter := List OwnerWindow

namespace Limiter

def minute : Time := 60 * 1000

/-- A new window of an owner; windows older than two minutes are dropped. -/
def openWindow (l : Limiter) (owner : String) (now : Time) : Limiter :=
  l.filter (fun w => ¬ w.start + 2 * minute ≤ now ∧ w.owner ≠ owner) ++ [⟨owner, now, 1⟩]

/-- `Allow`. -/
def allow (perMinute : Nat) (owner : String) (now : Time) (l : Limiter) : Bool × Limiter :=
  match l.find? (·.owner = owner) with
  | none => (true, l.openWindow owner now)
  | some w =>
    if w.start + minute ≤ now then (true, l.openWindow owner now)
    else if perMinute ≤ w.count then (false, l)
    else (true, l.map fun w => if w.owner = owner then { w with count := w.count + 1 } else w)

end Limiter

/-- Which calls a limiter counts. -/
inductive Budget where
  | register
  | link
deriving DecidableEq, Repr

/-! ### State -/

/-- What the identity service reads of a registered agent. -/
structure AgentRecord where
  agentID : String
  ownerID : String
  status : RegistrationStatus
deriving DecidableEq, Repr

/-- A challenge as it was written, with the state of the row it was written to. -/
structure Issue where
  nonce : String
  identityID : String
  status : IdentityStatus
  value : String
  pendingValue : String
deriving DecidableEq, Repr

/-- The open challenge of a row. -/
def Row.issue? (r : Row) : Option Issue :=
  r.openNonce.map fun nonce => ⟨nonce, r.id, r.status, r.identity.value, r.identity.pendingValue⟩

/-- A claim on a challenge: which one, and the time it was made for. -/
structure Claim where
  identityID : String
  nonce : String
  now : Time
deriving DecidableEq, Repr

/-- A control proof that passed: the identity as it was loaded, its challenge, and what is to be written. -/
structure Attempt where
  loaded : VerifiedIdentity
  challenge : IdentityChallenge
  verified : VerifiedIdentity
  keys : List ProvenKey
  now : Time
deriving DecidableEq

namespace Attempt

def claim (a : Attempt) : Claim := ⟨a.loaded.identityID, a.challenge.nonce, a.now⟩

/-- The identity that is written: the nonce is consumed. -/
def committed (a : Attempt) : VerifiedIdentity :=
  { a.verified with challenge := some { a.challenge with consumedAt := some a.now } }

end Attempt

/-- A proof that was committed, and the identity as it stood in the table then. -/
structure Commit where
  attempt : Attempt
  current : VerifiedIdentity
deriving DecidableEq

structure State where
  identities : Identities
  links : Links
  agents : List AgentRecord
  limiter : Limiter
  linkLimiter : Limiter
  log : List (Leaf D)
  /-- The latest clock reading. -/
  latest : Time
  issued : List Issue
  resolved : List (String × DIDDocument)
  commits : List Commit

def State.init : State D where
  identities := .empty
  links := .empty
  agents := []
  limiter := []
  linkLimiter := []
  log := []
  latest := 0
  issued := []
  resolved := []
  commits := []

/-- What a step reads from outside: the clock, whether the log's acknowledgement arrives, and the DID documents. -/
structure Ambient where
  now : Time
  acknowledged : Bool
  resolve : String → List KeyHint → Except Error DIDDocument

/-! ### Calls -/

inductive Call where
  | clock
  | allow (budget : Budget) (owner : String) (now : Time)
  | findByID (identityID : String)
  | findLive (providerID : String) (kind : IdentifierKind) (value : String)
  | existsVerified (kind : IdentifierKind) (value : String)
  | findByAgentID (agentID : String)
  | listLiveByIdentity (identityID : String)
  | resolve (did : String) (hints : List KeyHint)
  | insert (v : VerifiedIdentity)
  | stageChallenge (v : VerifiedIdentity) (expectedStatus : IdentityStatus) (expectedNonce : String) (staleBefore : Time)
  | claimChallenge (claim : Claim)
  | sealEvent (body : Json)
  | commitVerification (a : Attempt)
  | releaseChallenge (claim : Claim)
  | markRevoked (identityID : String)
  | commitLinks (identityID : String) (agentIDs : List String) (now : Time)
  | commitUnlink (identityID agentID : String)
  /-- The rest of the registration authority registers an agent or changes its status. -/
  | setAgent (a : AgentRecord)
  /-- The process starts again: the limiters are in its memory. -/
  | restart

def sealClaimTTL : Time := 30 * 1000

def mapIdentitySaveErr (e : Error) : Error :=
  if e.kind = .conflict then
    .conflict "IDENTIFIER_DUPLICATE" "identifier is already registered or verified for this scope"
  else e

def tlUnavailable : Error := .unavailable "TL_UNAVAILABLE"
  "the transparency log did not confirm the seal; the operation is retryable and nothing was consumed"

def tlRejectedEvent : Error := .internal "TL_REJECTED_EVENT" "the transparency log rejected the identity event"

namespace Call

def Reply : Call → Type
  | .clock => Time
  | .allow .. | .existsVerified .. | .sealEvent _ => Bool
  | .findByID _ | .findLive .. | .commitVerification _ => VerifiedIdentity
  | .findByAgentID _ => AgentRecord
  | .listLiveByIdentity _ => List IdentityLink
  | .resolve .. => DIDDocument
  | .insert _ | .stageChallenge .. | .claimChallenge _ | .releaseChallenge _ | .markRevoked _ | .commitLinks ..
  | .commitUnlink .. | .setAgent _ | .restart => Unit

end Call

namespace State

variable {D} (s : State D)

/-- Write the identities, and record the challenge that a row has got. -/
def issue (identities : Identities) (identityID : String) : State D :=
  { s with identities, issued := s.issued ++ ((identities.rowByID identityID).bind Row.issue?).toList }

def agent? (agentID : String) : Option AgentRecord := s.agents.find? (·.agentID = agentID)

/-- `Save` of a new identity, whose id is fresh. -/
def insert (v : VerifiedIdentity) : Except Error (State D) := do
  require (s.identities.rowByID v.identityID = none) (.plain "identity id drawn twice")
  let identities ← s.identities.save v
  return s.issue identities v.identityID

def stageChallenge (v : VerifiedIdentity) (expectedStatus : IdentityStatus) (expectedNonce : String)
    (staleBefore : Time) : Except Error (State D) := do
  let identities ← s.identities.stageChallenge v expectedStatus expectedNonce staleBefore
  return s.issue identities v.identityID

/-- The unit of work of `VerifyControl`: consume the nonce and write the identity. -/
def commitVerification (a : Attempt) : Except Error (State D) := do
  let consumed ← s.identities.consumeChallenge a.claim.identityID a.claim.nonce a.now
  let identities ← (consumed.save a.committed).mapError mapIdentitySaveErr
  return { s with
    identities
    commits := s.commits ++ ((s.identities.rowByID a.claim.identityID).map fun r => ⟨a, r.identity⟩).toList }

/-- Insert the links of a batch that are not there. -/
def linkEach (identityID : String) (now : Time) : List String → Links → Except Error Links
  | [], t => .ok t
  | agentID :: rest, t => do
      require ((∃ l ∈ t.rows, l.IsLive identityID agentID) ∨ s.agent? agentID ≠ none) foreignKeyFailed
      linkEach identityID now rest (t.link identityID agentID now)

/-- The unit of work of `Link`: the identity must still be verified. -/
def commitLinks (identityID : String) (agentIDs : List String) (now : Time) : Except Error (State D) := do
  let current ← s.identities.findByID identityID
  require (current.status = .verified) (.invalidState "IDENTITY_NOT_VERIFIED"
    "identity was revoked while the link was sealing; the sealed link event is inert")
  let links ← s.linkEach identityID now agentIDs s.links
  return { s with links }

/-- The unit of work of `Unlink`: a link that has ended already is no error. -/
def commitUnlink (identityID agentID : String) : Except Error (State D) :=
  match s.links.unlink identityID agentID with
  | .ok links => .ok { s with links }
  | .error e => if e.kind = .notFound then .ok s else .error e

def setAgent (a : AgentRecord) : State D :=
  match s.agent? a.agentID with
  | none => { s with agents := s.agents ++ [a] }
  | some _ => { s with
      agents := s.agents.map fun b => if b.agentID = a.agentID then { b with status := a.status } else b }

end State

namespace Call

variable {D}

def exec : (c : Call) → Ambient → State D → Except Error (c.Reply × State D)
  | .clock, input, s => .ok (input.now, { s with latest := max s.latest input.now })
  | .allow .register owner now, _, s =>
    let (allowed, limiter) := s.limiter.allow D.registerPerMinute owner now
    .ok (allowed, { s with limiter })
  | .allow .link owner now, _, s =>
    let (allowed, linkLimiter) := s.linkLimiter.allow D.linkPerMinute owner now
    .ok (allowed, { s with linkLimiter })
  | .findByID identityID, _, s => (s.identities.findByID identityID).map (·, s)
  | .findLive providerID kind value, _, s => (s.identities.findLive providerID kind value).map (·, s)
  | .existsVerified kind value, _, s => .ok (s.identities.existsVerified kind value, s)
  | .findByAgentID agentID, _, s =>
    match s.agent? agentID with
    | some a => .ok (a, s)
    | none => .error noRows
  | .listLiveByIdentity identityID, _, s => .ok (s.links.listLiveByIdentity identityID, s)
  | .resolve did hints, input, s =>
    (input.resolve did hints).map fun (doc : DIDDocument) => (doc, { s with resolved := s.resolved ++ [(did, doc)] })
  | .insert v, _, s => (s.insert v).map ((), ·)
  | .stageChallenge v expectedStatus expectedNonce staleBefore, _, s =>
    (s.stageChallenge v expectedStatus expectedNonce staleBefore).map ((), ·)
  | .claimChallenge claim, _, s =>
    (s.identities.claimChallenge claim.identityID claim.nonce claim.now (claim.now - sealClaimTTL)).map
      fun identities => ((), { s with identities })
  | .sealEvent body, input, s =>
    ((appendEvent D s.log body).mapError fun _ => tlRejectedEvent).map fun log => (input.acknowledged, { s with log })
  | .commitVerification a, _, s => (s.commitVerification a).map (a.committed, ·)
  | .releaseChallenge claim, _, s =>
    (s.identities.releaseChallenge claim.identityID claim.nonce).map fun identities => ((), { s with identities })
  | .markRevoked identityID, _, s => (s.identities.markRevoked identityID).map fun identities => ((), { s with identities })
  | .commitLinks identityID agentIDs now, _, s => (s.commitLinks identityID agentIDs now).map ((), ·)
  | .commitUnlink identityID agentID, _, s => (s.commitUnlink identityID agentID).map ((), ·)
  | .setAgent a, _, s => .ok ((), s.setAgent a)
  | .restart, _, s => .ok ((), { s with limiter := [], linkLimiter := [] })

end Call

/-! ### Questions -/

inductive Query where
  | newID
  | newNonce
  | present (cesr : String)
  | authorization (subjectAID : String)
  | verifySignature (subjectAID signingInput signature : String)

def Query.Answer : Query → Type
  | .newID | .newNonce => Option String
  | .present _ => Except Error PresentationResult
  | .authorization _ => Except Error AuthorizationResult
  | .verifySignature .. => Except Error Bool

/-- The identity service as an interface of atomic calls and questions. -/
abbrev RA : Interleaving.Interface where
  State := State D
  Err := Error
  Input := Ambient
  Call := Call
  Reply := Call.Reply
  exec := Call.exec
  Query := Query
  Answer := Query.Answer

end AgentNameService.Identity
