/-
Purpose: The envelope the log wraps around a producer event, the checks and the canonical leaf bytes of it, how a request
  body becomes an envelope and how a stored leaf is read back.
Source: internal/tl/event/{event,builder,view}.go, internal/tl/event/v1/builder.go, internal/tl/event/identity/event.go,
  internal/tl/service/{codec,ingest}.go
Trusted boundary: human-reviewed model; the order in which a struct declares its members is that of the V2 envelope in
  all three families, which canonical bytes do not show
-/
import AgentNameService.TransparencyLog.Event

namespace AgentNameService.TransparencyLog

open Except Json Registration Record


/-! ### Envelopes -/

structure Producer (E : Type) where
  event : Option E
  keyID : String
  signature : String

structure Payload (E : Type) where
  logID : String
  producer : Option (Producer E)

structure Envelope (E : Type) where
  payload : Option (Payload E)
  schemaVersion : String
  signature : String
  status : String

section Codecs

variable {N : NumberFormat} {E : Type} (C : Codec N E) (notNull : ∀ e, C.encode e ≠ .null)

def producerRecord : Record N (Option E × String × String × Unit) :=
  .required "event" (.pointer C notNull) <| .required "keyId" .string <| .required "signature" .string .nil

def producerCodec : Codec N (Producer E) :=
  .iso (codec "Producer" (producerRecord C notNull))
    (fun (event, keyID, signature, _) => ⟨event, keyID, signature⟩)
    (fun p => (p.event, p.keyID, p.signature, ())) (fun _ => rfl)

def payloadRecord : Record N (String × Option (Producer E) × Unit) :=
  .required "logId" .string <| .required "producer" (.pointer (producerCodec C notNull) (fun _ => nofun)) .nil

def payloadCodec : Codec N (Payload E) :=
  .iso (codec "Payload" (payloadRecord C notNull))
    (fun (logID, producer, _) => ⟨logID, producer⟩) (fun p => (p.logID, p.producer, ())) (fun _ => rfl)

def envelopeRecord : Record N (Option (Payload E) × String × String × String × Unit) :=
  .optional "payload" (.pointer (payloadCodec C notNull) (fun _ => nofun)) <|
    .optional "schemaVersion" .string <| .optional "signature" .string <| .optional "status" .string .nil

def envelopeCodec : Codec N (Envelope E) :=
  .iso (codec "Envelope" (envelopeRecord C notNull))
    (fun (payload, schemaVersion, signature, status, _) => ⟨payload, schemaVersion, signature, status⟩)
    (fun e => (e.payload, e.schemaVersion, e.signature, e.status, ())) (fun _ => rfl)

end Codecs

namespace Envelope

variable {E : Type}

def innerEvent (e : Envelope E) : Option E := (e.payload.bind Payload.producer).bind Producer.event

def logID (e : Envelope E) : String := (e.payload.map Payload.logID).getD ""

end Envelope

/-! ### Any of the three envelopes -/

namespace Schema

def envelopeCodec {N : NumberFormat} (s : Schema) : Codec N (Envelope s.Event) :=
  TransparencyLog.envelopeCodec s.codec s.codec_ne_null

/-- The V1 envelope is not asked for the producer's key and signature. -/
def requiresProducer : Schema → Bool
  | .v1 => false
  | .v2 | .identity => true

/-- What is said of an envelope without an event. -/
def missingEvent : Schema → String
  | .v2 => "event: producer.event required"
  | .v1 => "event/v1: payload.producer.event required"
  | .identity => "identityevent: producer.event required"

/-- `json.Marshal` followed by canonicalization. -/
def canonicalize (P : Primitives) (s : Schema) (j : Json) : Except String Json :=
  let canonical := (Json.canonicalize P.numbers j).withContext "crypto: canonicalize"
  match s with
  | .v1 => canonical.withContext "event/v1: canonicalize"
  | .v2 | .identity => canonical

/-- `CanonicalizeEvent`. -/
def canonicalizeEvent (P : Primitives) (s : Schema) (inner : s.Event) : Except String Json :=
  s.canonicalize P ((s.codec : Codec P.numbers s.Event).encode inner)

/-- `BuildEnvelope`. -/
def buildEnvelope (s : Schema) (logID : String) (inner : s.Event) (producerKeyID producerSignature : String) :
    Envelope s.Event where
  payload := some ⟨logID, some ⟨some inner, producerKeyID, producerSignature⟩⟩
  schemaVersion := s.version
  signature := ""
  status := ""

end Schema

/-- An envelope of one of the families. -/
structure Signable where
  schema : Schema
  envelope : Envelope schema.Event

namespace Signable

variable (P : Primitives) (e : Signable)

def version : String := e.envelope.schemaVersion

def logID : String := e.envelope.logID

def agentID : String := (e.envelope.innerEvent.map e.schema.agentID).getD ""

def ansName : String := (e.envelope.innerEvent.map e.schema.ansName).getD ""

def agentFQDN : String := (e.envelope.innerEvent.map e.schema.agentFQDN).getD ""

/-- `EventType`, or nothing where there is no event. -/
def eventType : EventType := (e.envelope.innerEvent.map e.schema.eventType).getD (.other "" (by decide))

def timestamp : String := (e.envelope.innerEvent.map e.schema.timestamp).getD ""

/-- `IdentityID` and `LinkedAgentIDs`, for envelopes that have them. -/
def identity? : Option (String × List String) := e.envelope.innerEvent.bind e.schema.identity?

def validate : Except String Unit := do
  require (e.envelope.schemaVersion = e.schema.version)
    s!"{e.schema.package}: schemaVersion must be {quoted e.schema.version}, got {quoted e.envelope.schemaVersion}"
  match e.envelope.payload with
  | none => .error (e.schema.package ++ ": payload required")
  | some payload =>
    require (payload.logID ≠ "") (e.schema.package ++ ": payload.logId required")
    match payload.producer with
    | none => .error (e.schema.package ++ ": payload.producer required")
    | some producer =>
      require (e.schema.requiresProducer = true → producer.keyID ≠ "")
        (e.schema.package ++ ": payload.producer.keyId required")
      require (e.schema.requiresProducer = true → producer.signature ≠ "")
        (e.schema.package ++ ": payload.producer.signature required")
      match producer.event with
      | none => .error e.schema.missingEvent
      | some event => e.schema.validate P event

def canonical : Except String Json :=
  e.schema.canonicalize P ((e.schema.envelopeCodec : Codec P.numbers _).encode e.envelope)

def signingInput : Except String Json := do
  require (e.envelope.signature = "") (e.schema.package ++ ": SigningInput called on already-signed envelope")
  e.canonical P

def leafBytes : Except String Json := do
  require (e.envelope.signature ≠ "") (e.schema.package ++ ": LeafBytes called on unsigned envelope")
  e.canonical P

/-- `setOuterSignature`. -/
def setOuterSignature (signature : String) : Signable :=
  { e with envelope := { e.envelope with signature } }

end Signable

/-! ### From a request body to an envelope -/

/-- A request body: a JSON document, or text that is none. -/
inductive Body where
  | document (j : Json)
  | malformed (text : String)
deriving DecidableEq

def Body.parse : Body → Except String Json
  | .document j => .ok j
  | .malformed text => .error text

/-- The producer's id in the event is the one in the verified header. -/
def stampRaID (s : Schema) (raID : String) (inner : s.Event) : Except Error s.Event :=
  if s.raID inner = "" then .ok (s.withRaID raID inner)
  else do
    require (s.raID inner = raID) (.validation "RAID_MISMATCH"
      s!"inner event raId {quoted (s.raID inner)} does not match signed raId {quoted raID}")
    return inner

/-- The typed event of a request body, with the producer's id. -/
def parseEvent (P : Primitives) (s : Schema) (raw : Body) (raID : String) : Except Error s.Event := do
  let j ← raw.parse.mapError (.validation "INVALID_EVENT_BODY")
  let inner ← (Json.unmarshal (s.codec : Codec P.numbers s.Event) j).mapError (.validation "INVALID_EVENT_BODY")
  (s.validate P inner).mapError (.validation "INVALID_EVENT")
  stampRaID s raID inner

/-- `ParseAndBuild` of the three codecs. -/
def parseAndBuild (P : Primitives) (s : Schema) (raw : Body) (raID keyID sig logID : String) :
    Except Error (Signable × Json) := do
  let inner ← parseEvent P s raw raID
  let canonical ← (s.canonicalizeEvent P inner).mapError fun text =>
    .plain ("service: canonicalize " ++ (match s with | .v2 => "V2" | .v1 => "V1" | .identity => "identity") ++
      " inner: " ++ text)
  return (⟨s, s.buildEnvelope logID inner keyID sig⟩, canonical)

theorem parseAndBuild_eq_ok_iff {P : Primitives} {s : Schema} {raw : Body} {raID keyID sig logID : String}
    {built : Signable × Json} : parseAndBuild P s raw raID keyID sig logID = .ok built ↔ ∃ inner,
      parseEvent P s raw raID = .ok inner ∧ s.canonicalizeEvent P inner = .ok built.2 ∧
        built.1 = ⟨s, s.buildEnvelope logID inner keyID sig⟩ := by
  simp only [parseAndBuild, bind_eq_ok_iff, mapError_eq_ok_iff, pure_eq_ok_iff]
  constructor
  · rintro ⟨inner, hinner, canonical, hcanonical, rfl⟩
    exact ⟨inner, hinner, hcanonical, rfl⟩
  · rintro ⟨inner, hinner, hcanonical, henv⟩
    exact ⟨inner, hinner, built.2, hcanonical, by rw [← henv]⟩

/-! ### From a stored leaf to an envelope -/

section Stored

variable (P : Primitives)

/-- `json.Unmarshal` into the struct that picks the event out of an envelope. -/
def eventWrapper : Codec P.numbers (((Option Json × Unit) × Unit) × Unit) :=
  codec "struct" (.required "payload" (codec "struct" (.required "producer"
    (codec "struct" (.required "event" .raw .nil)) .nil)) .nil)

def innerEventBytes (raw : Json) : Except String Json := do
  let wrapper ← Json.unmarshal (eventWrapper P) raw
  match wrapper.1.1.1 with
  | none => .error "crypto: canonicalize: Unexpected EOF reached"
  | some event => (Json.canonicalize P.numbers event).withContext "crypto: canonicalize"

/-- What is compared of an event that comes in: the producer, and the version of the agent. -/
def incomingFields : Codec P.numbers (String × (String × Unit) × Unit) :=
  codec "struct" (.required "raId" .string <|
    .required "agent" (codec "struct" (.required "version" .string .nil)) .nil)

/-- What is compared of the event before. -/
def priorFields : Codec P.numbers (String × String × Unit) :=
  codec "struct" (.required "raId" .string <| .required "timestamp" .string .nil (by simp))

/-- The struct that tells which family a stored envelope is of. -/
def storedHeader : Codec P.numbers (String × (((String × Unit) × Unit) × Unit) × Unit) :=
  codec "struct" (.required "schemaVersion" .string <| .required "payload" (codec "struct"
    (.required "producer" (codec "struct" (.required "event" (codec "struct"
      (.required "eventType" .string .nil)) .nil)) .nil)) .nil)

/-- The family of a stored envelope. -/
def storedSchema (schemaVersion eventType : String) : Except String Schema :=
  if "IDENTITY_".toList.isPrefixOf eventType.toList then .ok .identity
  else if schemaVersion = Schema.v2.version then .ok .v2
  else if schemaVersion = Schema.v1.version then .ok .v1
  else .error ("unsupported stored schema " ++ quoted schemaVersion)

def decodeStoredEnvelope (raw : Json) : Except String Signable := do
  let header ← Json.unmarshal (storedHeader P) raw
  let s ← storedSchema header.1 header.2.1.1.1.1
  let envelope ← Json.unmarshal (s.envelopeCodec : Codec P.numbers _) raw
  (⟨s, envelope⟩ : Signable).validate P
  return ⟨s, envelope⟩

end Stored

end AgentNameService.TransparencyLog
