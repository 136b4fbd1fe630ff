/-
Purpose: The three families of producer events (V1 and V2 agent events, identity events), how they are written and
  read as JSON, and what the log checks of them.
Source: internal/tl/event/event.go, internal/tl/event/v1/event.go, internal/tl/event/identity/event.go,
  internal/domain/attested_expiry.go
Trusted boundary: human-reviewed model; digests, signatures and RFC 3339 are parameters, and a canonical document stands
  for its text
-/
import AgentNameService.Foundation.JsonCodec
import AgentNameService.Registration.Domain

namespace AgentNameService.TransparencyLog

open Except List Json Registration Record


/-! ### Primitives -/

/-- What the log reads of a producer's JWS header. -/
structure Header where
  kid : String
  raid : String
deriving DecidableEq, Repr

/-- What the model leaves open: number literals, SHA-256 of a text and of a leaf, RFC 3339, and detached signatures
under a PEM key. -/
structure Primitives where
  numbers : NumberFormat
  Digest : Type
  decEq : DecidableEq Digest
  sha256 : Json → Digest
  leafHash : Json → Digest
  parseTime : String → Except String Int
  decodeHeader : String → Except String Header
  parseKey : String → String → Except String Unit
  verifies : String → Json → String → Except String Unit

instance (P : Primitives) : DecidableEq P.Digest := P.decEq

/-! ### Event types -/

def knownEventTypes : List String :=
  ["AGENT_REGISTERED", "AGENT_RENEWED", "AGENT_REVOKED", "AGENT_DEPRECATED", "IDENTITY_VERIFIED", "IDENTITY_UPDATED",
    "IDENTITY_REVOKED", "IDENTITY_LINKED", "IDENTITY_UNLINKED"]

/-- The type of an event; `other` carries a text that is none of the known types. -/
inductive EventType where
  | agentRegistered
  | agentRenewed
  | agentRevoked
  | agentDeprecated
  | identityVerified
  | identityUpdated
  | identityRevoked
  | identityLinked
  | identityUnlinked
  | other (text : String) (unknown : text ∉ knownEventTypes)
deriving DecidableEq

namespace EventType

def text : EventType → String
  | .agentRegistered => "AGENT_REGISTERED"
  | .agentRenewed => "AGENT_RENEWED"
  | .agentRevoked => "AGENT_REVOKED"
  | .agentDeprecated => "AGENT_DEPRECATED"
  | .identityVerified => "IDENTITY_VERIFIED"
  | .identityUpdated => "IDENTITY_UPDATED"
  | .identityRevoked => "IDENTITY_REVOKED"
  | .identityLinked => "IDENTITY_LINKED"
  | .identityUnlinked => "IDENTITY_UNLINKED"
  | .other text _ => text

/-- The types that have a name. -/
def known : List EventType :=
  [.agentRegistered, .agentRenewed, .agentRevoked, .agentDeprecated, .identityVerified, .identityUpdated,
    .identityRevoked, .identityLinked, .identityUnlinked]

theorem map_text_known : known.map text = knownEventTypes := rfl

def ofText (s : String) : EventType :=
  match h : known.find? (·.text = s) with
  | some t => t
  | none => .other s (by
      rw [← map_text_known, mem_map]
      rintro ⟨t, ht, rfl⟩
      simpa using find?_eq_none.mp h t ht)

theorem text_ofText (s : String) : (ofText s).text = s := by
  unfold ofText
  split
  · rename_i t h
    simpa using find?_some h
  · rfl

theorem text_injective : Function.Injective text := by
  intro a b h
  cases a with
  | other s unknown =>
    cases b with
    | other => cases h; rfl
    | _ =>
      obtain rfl : s = _ := h
      exact absurd (by decide) unknown
  | _ =>
    cases b with
    | other s unknown =>
      obtain rfl : _ = s := h
      exact absurd (by decide) unknown
    | _ => first | rfl | exact absurd h (by decide)

@[simp] theorem ofText_text (t : EventType) : ofText t.text = t := text_injective (text_ofText _)

/-- The four types of the agent lanes. -/
def isAgent : EventType → Bool
  | .agentRegistered | .agentRenewed | .agentRevoked | .agentDeprecated => true
  | _ => false

/-- The five types of the identity lane. -/
def isIdentity : EventType → Bool
  | .identityVerified | .identityUpdated | .identityRevoked | .identityLinked | .identityUnlinked => true
  | _ => false

def isLink : EventType → Bool
  | .identityLinked | .identityUnlinked => true
  | _ => false

def isProof : EventType → Bool
  | .identityVerified | .identityUpdated => true
  | _ => false

variable {N : NumberFormat}

def codec : Codec N EventType := .iso .string ofText text text_ofText

end EventType

/-! ### Agent events -/

structure Agent where
  host : String
  name : String
  version : String
  providerID : String
deriving DecidableEq, Repr

structure DNSRecord where
  name : String
  data : String
  type : String
  dnssecVerified : Bool
deriving DecidableEq, Repr

structure CertificateInfo where
  fingerprint : String
  certType : String
  notAfter : String
deriving DecidableEq, Repr

/-- The evidence of a V2 event. -/
structure Attestations where
  domainValidation : String
  dnsRecordsProvisioned : List DNSRecord
  identityCerts : List CertificateInfo
  serverCerts : List CertificateInfo
  metadataHashes : List (String × String)
deriving DecidableEq, Repr

/-- An agent event.  The V1 and the V2 event differ in their evidence only. -/
structure AgentEvent (A : Type) where
  ansID : String
  ansName : String
  eventType : EventType
  agent : Option Agent
  attestations : Option A
  expiresAt : String
  issuedAt : String
  raID : String
  renewalStatus : String
  revocationReasonCode : String
  revokedAt : String
  timestamp : String
deriving DecidableEq

abbrev Event := AgentEvent Attestations

namespace V1

structure CertificateInfo where
  fingerprint : String
  certType : String
deriving DecidableEq, Repr

/-- The evidence of a V1 event; the entries of the rotation windows are what V2 has for every certificate. -/
structure Attestations where
  dnsRecordsProvisioned : List (String × String)
  metadataHashes : List (String × String)
  identityCert : Option CertificateInfo
  serverCert : Option CertificateInfo
  domainValidation : String
  validIdentityCerts : List TransparencyLog.CertificateInfo
  validServerCerts : List TransparencyLog.CertificateInfo
deriving DecidableEq, Repr

abbrev Event := AgentEvent Attestations

end V1

/-! ### Identity events -/

namespace Identity

/-- A proven key: the verification method quoted verbatim, and the proof of possession. -/
structure ProvenKey where
  verificationMethod : Option Json
  signedProof : String
deriving DecidableEq, Repr

structure Event where
  ansIDs : List String
  eventType : EventType
  identityID : String
  kind : String
  keys : List ProvenKey
  previousValue : String
  proofMethod : String
  providerID : String
  raID : String
  revokedAt : String
  timestamp : String
  value : String
  verifiedAt : String
deriving DecidableEq

end Identity

/-! ### JSON -/

section Codecs

variable {N : NumberFormat}

def agentCodec (package : String) : Codec N Agent :=
  .iso (codec (package ++ ".Agent")
      (.required "host" .string <| .required "name" .string <| .required "version" .string <|
        .optional "providerId" .string .nil))
    (fun (host, name, version, providerID, _) => ⟨host, name, version, providerID⟩)
    (fun a => (a.host, a.name, a.version, a.providerID, ())) (fun _ => rfl)

def dnsRecordCodec : Codec N DNSRecord :=
  .iso (codec "event.DNSRecord"
      (.required "name" .string <| .required "data" .string <| .required "type" .string <|
        .optional "dnssecVerified" .bool .nil))
    (fun (name, data, type, dnssecVerified, _) => ⟨name, data, type, dnssecVerified⟩)
    (fun r => (r.name, r.data, r.type, r.dnssecVerified, ())) (fun _ => rfl)

def certificateInfoCodec (typeName : String) : Codec N CertificateInfo :=
  .iso (codec typeName
      (.required "fingerprint" .string <| .required "type" .string <| .optional "notAfter" .string .nil))
    (fun (fingerprint, certType, notAfter, _) => ⟨fingerprint, certType, notAfter⟩)
    (fun c => (c.fingerprint, c.certType, c.notAfter, ())) (fun _ => rfl)

def attestationsCodec : Codec N Attestations :=
  .iso (codec "event.Attestations"
      (.optional "domainValidation" .string <|
        .optional "dnsRecordsProvisioned" (.list "event.DNSRecord" dnsRecordCodec) <|
        .optional "identityCerts" (.list "event.CertificateInfo" (certificateInfoCodec "event.CertificateInfo")) <|
        .optional "serverCerts" (.list "event.CertificateInfo" (certificateInfoCodec "event.CertificateInfo")) <|
        .optional "metadataHashes" .stringMap .nil))
    (fun (domainValidation, dns, identityCerts, serverCerts, metadataHashes, _) =>
      ⟨domainValidation, dns, identityCerts, serverCerts, metadataHashes⟩)
    (fun a => (a.domainValidation, a.dnsRecordsProvisioned, a.identityCerts, a.serverCerts, a.metadataHashes, ()))
    (fun _ => rfl)

def V1.certificateInfoCodec : Codec N V1.CertificateInfo :=
  .iso (codec "v1.CertificateInfo" (.optional "fingerprint" .string <| .optional "type" .string .nil))
    (fun (fingerprint, certType, _) => ⟨fingerprint, certType⟩) (fun c => (c.fingerprint, c.certType, ())) (fun _ => rfl)

def V1.attestationsCodec : Codec N V1.Attestations :=
  .iso (codec "v1.Attestations"
      (.optional "dnsRecordsProvisioned" .stringMap <| .optional "metadataHashes" .stringMap <|
        .optional "identityCert" (.pointer V1.certificateInfoCodec (fun _ => nofun)) <|
        .optional "serverCert" (.pointer V1.certificateInfoCodec (fun _ => nofun)) <|
        .optional "domainValidation" .string <|
        .optional "validIdentityCerts" (.list "v1.CertificateInfoExtended"
          (TransparencyLog.certificateInfoCodec "v1.CertificateInfoExtended")) <|
        .optional "validServerCerts" (.list "v1.CertificateInfoExtended"
          (TransparencyLog.certificateInfoCodec "v1.CertificateInfoExtended")) .nil))
    (fun (dns, metadataHashes, identityCert, serverCert, domainValidation, identityCerts, serverCerts, _) =>
      ⟨dns, metadataHashes, identityCert, serverCert, domainValidation, identityCerts, serverCerts⟩)
    (fun a => (a.dnsRecordsProvisioned, a.metadataHashes, a.identityCert, a.serverCert, a.domainValidation,
      a.validIdentityCerts, a.validServerCerts, ()))
    (fun _ => rfl)

/-- The record of an agent event, over a codec for its evidence. -/
def agentEventRecord {A : Type} (package : String) (evidence : Codec N A) (notNull : ∀ a, evidence.encode a ≠ .null) :
    Record N (String × String × EventType × Option Agent × Option A × String × String × String × String × String ×
      String × String × Unit) :=
  .required "ansId" .string <| .required "ansName" .string <| .required "eventType" EventType.codec <|
    .optional "agent" (.pointer (agentCodec package) (fun _ => nofun)) <|
    .optional "attestations" (.pointer evidence notNull) <|
    .optional "expiresAt" .string <| .optional "issuedAt" .string <| .optional "raId" .string <|
    .optional "renewalStatus" .string <| .optional "revocationReasonCode" .string <| .optional "revokedAt" .string <|
    .required "timestamp" .string .nil

def agentEventCodec {A : Type} (package : String) (evidence : Codec N A) (notNull : ∀ a, evidence.encode a ≠ .null) :
    Codec N (AgentEvent A) :=
  .iso (codec (package ++ ".Event") (agentEventRecord package evidence notNull))
    (fun (ansID, ansName, eventType, agent, attestations, expiresAt, issuedAt, raID, renewalStatus,
        revocationReasonCode, revokedAt, timestamp, _) =>
      ⟨ansID, ansName, eventType, agent, attestations, expiresAt, issuedAt, raID, renewalStatus,
        revocationReasonCode, revokedAt, timestamp⟩)
    (fun e => (e.ansID, e.ansName, e.eventType, e.agent, e.attestations, e.expiresAt, e.issuedAt, e.raID,
      e.renewalStatus, e.revocationReasonCode, e.revokedAt, e.timestamp, ()))
    (fun _ => rfl)

def Identity.provenKeyCodec : Codec N Identity.ProvenKey :=
  .iso (codec "identity.ProvenKey" (.required "verificationMethod" .raw <| .required "signedProof" .string .nil))
    (fun (verificationMethod, signedProof, _) => ⟨verificationMethod, signedProof⟩)
    (fun k => (k.verificationMethod, k.signedProof, ())) (fun _ => rfl)

def Identity.eventRecord : Record N (List String × EventType × String × String × List Identity.ProvenKey × String ×
    String × String × String × String × String × String × String × Unit) :=
  .optional "ansIds" (.list "string" .string) <| .required "eventType" EventType.codec <|
    .required "identityId" .string <| .required "kind" .string <|
    .optional "keys" (.list "identity.ProvenKey" Identity.provenKeyCodec) <|
    .optional "previousValue" .string <| .optional "proofMethod" .string <| .optional "providerId" .string <|
    .optional "raId" .string <| .optional "revokedAt" .string <| .required "timestamp" .string <|
    .required "value" .string <| .optional "verifiedAt" .string .nil

def Identity.eventCodec : Codec N Identity.Event :=
  .iso (codec "identity.Event" Identity.eventRecord)
    (fun (ansIDs, eventType, identityID, kind, keys, previousValue, proofMethod, providerID, raID, revokedAt,
        timestamp, value, verifiedAt, _) =>
      ⟨ansIDs, eventType, identityID, kind, keys, previousValue, proofMethod, providerID, raID, revokedAt,
        timestamp, value, verifiedAt⟩)
    (fun e => (e.ansIDs, e.eventType, e.identityID, e.kind, e.keys, e.previousValue, e.proofMethod, e.providerID,
      e.raID, e.revokedAt, e.timestamp, e.value, e.verifiedAt, ()))
    (fun _ => rfl)

end Codecs

/-! ### Checks -/

section Validate

variable (P : Primitives)

/-- `time.Parse(time.RFC3339, …)` of a required timestamp. -/
def validateTimestamp (missing malformed : String) (timestamp : String) : Except String Unit := do
  require (timestamp ≠ "") missing
  let _ ← (P.parseTime timestamp).withContext malformed

/-- `ParseAttestedExpiry`: no text is the zero time. -/
def parseAttestedExpiry (value : String) : Except String (Option Int) :=
  if value = "" then .ok none
  else some <$> (P.parseTime value).withContext "invalid attested certificate expiry"

/-- The known revocation reasons. -/
def revocationReasons : List RevocationReason :=
  [.keyCompromise, .cessationOfOperation, .affiliationChanged, .superseded, .certificateHold, .privilegeWithdrawn,
    .aaCompromise]

def validateRevocationReason (package code : String) : Except String Unit :=
  require (code = "" ∨ code ∈ revocationReasons.map RevocationReason.text)
    (package ++ ": invalid revocationReasonCode " ++ quoted code)

/-- The expiry of every certificate that carries one. -/
def validateCertificates (certs : List CertificateInfo) : Except String Unit :=
  certs.forM fun cert => do
    let _ ← parseAttestedExpiry P cert.notAfter

def Event.validate (ev : Event) : Except String Unit := do
  require (ev.eventType.isAgent = true) ("event: invalid eventType " ++ quoted ev.eventType.text)
  require (ev.ansID ≠ "") "event: ansId required"
  require (ev.ansName ≠ "") "event: ansName required"
  validateTimestamp P "event: timestamp required" "event: timestamp must be RFC3339" ev.timestamp
  validateRevocationReason "event" ev.revocationReasonCode
  let _ ← parseAttestedExpiry P ev.expiresAt
  match ev.attestations with
  | none => .ok ()
  | some attestations => do
      validateCertificates P attestations.identityCerts
      validateCertificates P attestations.serverCerts

def V1.Event.validate (ev : V1.Event) : Except String Unit := do
  require (ev.ansID ≠ "") "event/v1: event.ansId required"
  require (ev.ansName ≠ "") "event/v1: event.ansName required"
  require (ev.eventType.isAgent = true) ("event/v1: invalid eventType " ++ quoted ev.eventType.text)
  validateTimestamp P "event/v1: event.timestamp required" "event/v1: event.timestamp not RFC3339" ev.timestamp
  validateRevocationReason "event/v1" ev.revocationReasonCode
  let _ ← parseAttestedExpiry P ev.expiresAt
  match ev.attestations with
  | none => .ok ()
  | some attestations => do
      validateCertificates P attestations.validIdentityCerts
      validateCertificates P attestations.validServerCerts

namespace Identity

/-- `ID`: the id of the quoted verification method, or nothing. -/
def ProvenKey.id (k : ProvenKey) : String :=
  match k.verificationMethod with
  | none => ""
  | some method =>
    match unmarshal (codec "struct \x7b ID string \x7d" (.required "id" .string .nil) :
        Codec P.numbers (String × Unit)) method with
    | .ok (id, _) => id
    | .error _ => ""

def validateKey (key : ProvenKey × Nat) : Except String Unit := do
  require (key.1.verificationMethod ≠ none) s!"identityevent: keys[{key.2}].verificationMethod required"
  require (key.1.id P ≠ "")
    s!"identityevent: keys[{key.2}].verificationMethod must be an object with an id"
  require (key.1.signedProof ≠ "") s!"identityevent: keys[{key.2}].signedProof required"

def validateProofFields (ev : Event) : Except String Unit := do
  require (ev.keys ≠ []) ("identityevent: " ++ ev.eventType.text ++ " requires non-empty keys")
  ev.keys.zipIdx.forM (validateKey P)
  require (ev.verifiedAt ≠ "") ("identityevent: " ++ ev.eventType.text ++ " requires verifiedAt")
  require (ev.providerID ≠ "") ("identityevent: " ++ ev.eventType.text ++ " requires providerId")

def validateAnsIDs (ev : Event) : Except String Unit :=
  if ev.eventType.isLink then do
    require (ev.ansIDs ≠ []) ("identityevent: " ++ ev.eventType.text ++ " requires non-empty ansIds")
    ev.ansIDs.zipIdx.forM fun id => require (id.1 ≠ "") s!"identityevent: ansIds[{id.2}] is empty"
  else require (ev.ansIDs = []) ("identityevent: ansIds forbidden on " ++ ev.eventType.text)

def Event.validate (ev : Event) : Except String Unit := do
  require (ev.eventType.isIdentity = true) ("identityevent: invalid eventType " ++ quoted ev.eventType.text)
  require (ev.identityID ≠ "") "identityevent: identityId required"
  require (ev.kind ≠ "") "identityevent: kind required"
  require (ev.value ≠ "") "identityevent: value required"
  validateTimestamp P "identityevent: timestamp required" "identityevent: timestamp must be RFC3339" ev.timestamp
  validateAnsIDs ev
  if ev.eventType.isProof then validateProofFields P ev
  require (ev.eventType = .identityRevoked → ev.revokedAt ≠ "")
    "identityevent: IDENTITY_REVOKED requires revokedAt"

end Identity

end Validate

/-! ### The three families -/

/-- The ingest lane, and with it the family of events. -/
inductive Schema where
  | v2
  | v1
  | identity
deriving DecidableEq, Repr

namespace Schema

abbrev Event : Schema → Type
  | .v2 => TransparencyLog.Event
  | .v1 => V1.Event
  | .identity => Identity.Event

/-- `SchemaVersion`. -/
def version : Schema → String
  | .v2 => "V2"
  | .v1 => "V1"
  | .identity => "V2"

/-- What error texts of the family start with. -/
def package : Schema → String
  | .v2 => "event"
  | .v1 => "event/v1"
  | .identity => "identityevent"

def codec {N : NumberFormat} : (s : Schema) → Codec N s.Event
  | .v2 => agentEventCodec "event" attestationsCodec (fun _ => nofun)
  | .v1 => agentEventCodec "v1" V1.attestationsCodec (fun _ => nofun)
  | .identity => Identity.eventCodec

theorem codec_ne_null {N : NumberFormat} (s : Schema) (e : s.Event) : (codec s : Codec N s.Event).encode e ≠ .null := by
  cases s <;> exact nofun

def validate (P : Primitives) : (s : Schema) → s.Event → Except String Unit
  | .v2 => Event.validate P
  | .v1 => V1.Event.validate P
  | .identity => Identity.Event.validate P

def raID : (s : Schema) → s.Event → String
  | .v2 => AgentEvent.raID
  | .v1 => AgentEvent.raID
  | .identity => Identity.Event.raID

def withRaID (raID : String) : (s : Schema) → s.Event → s.Event
  | .v2 => fun e => { e with raID }
  | .v1 => fun e => { e with raID }
  | .identity => fun e => { e with raID }

/-- `AgentID`; an identity event is not keyed by an agent. -/
def agentID : (s : Schema) → s.Event → String
  | .v2 => AgentEvent.ansID
  | .v1 => AgentEvent.ansID
  | .identity => fun _ => ""

def ansName : (s : Schema) → s.Event → String
  | .v2 => AgentEvent.ansName
  | .v1 => AgentEvent.ansName
  | .identity => fun _ => ""

def agentFQDN : (s : Schema) → s.Event → String
  | .v2 => fun e => (e.agent.map Agent.host).getD ""
  | .v1 => fun e => (e.agent.map Agent.host).getD ""
  | .identity => fun _ => ""

def eventType : (s : Schema) → s.Event → EventType
  | .v2 => AgentEvent.eventType
  | .v1 => AgentEvent.eventType
  | .identity => Identity.Event.eventType

def timestamp : (s : Schema) → s.Event → String
  | .v2 => AgentEvent.timestamp
  | .v1 => AgentEvent.timestamp
  | .identity => Identity.Event.timestamp

/-- `IdentityID` and `LinkedAgentIDs`, which identity events have. -/
def identity? : (s : Schema) → s.Event → Option (String × List String)
  | .v2 => fun _ => none
  | .v1 => fun _ => none
  | .identity => fun e => some (e.identityID, e.ansIDs)

end Schema

end AgentNameService.TransparencyLog
