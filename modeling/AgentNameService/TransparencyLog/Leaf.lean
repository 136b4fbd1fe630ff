/-
Purpose: Leaves of the log as values: an event that passed its checks, with the log id and the signatures sealed around
  it.  The bytes of a leaf are computed from the value; reading the bytes back gives the normal form of the value.
Source: internal/tl/event, internal/tl/service/ingest.go
Trusted boundary: none
-/
import AgentNameService.TransparencyLog.Envelope

namespace AgentNameService.TransparencyLog

open Except List Json Record Codec

/-! ### Reading a few fields of an event -/

section Fields

variable {N : NumberFormat} {A : Type} {package : String} {evidence : Codec N A} {notNull : ∀ a, evidence.encode a ≠ .null}
  {x : String × String × EventType × Option Agent × Option A × String × String × String × String × String × String ×
    String × Unit}

theorem read_eventType : readField (string : Codec N String) (select (foldName "eventType")
    (canonicalMembers N ((agentEventRecord package evidence notNull).write x))) "" = .ok x.2.2.1.text := by
  simp (disch := decide) only [agentEventRecord, select_write_of_ne, select_write_self]
  exact readField_string rfl of_decide_eq_true

theorem read_raID : readField (string : Codec N String) (select (foldName "raId")
    (canonicalMembers N ((agentEventRecord package evidence notNull).write x))) "" = .ok x.2.2.2.2.2.2.2.1 := by
  simp (disch := decide) only [agentEventRecord, select_write_of_ne, select_write_self]
  exact readField_string rfl of_decide_eq_true

theorem read_timestamp : readField (string : Codec N String) (select (foldName "timestamp")
    (canonicalMembers N ((agentEventRecord package evidence notNull).write x))) "" = .ok x.2.2.2.2.2.2.2.2.2.2.2.1 := by
  simp (disch := decide) only [agentEventRecord, select_write_of_ne, select_write_self]
  exact readField_string rfl of_decide_eq_true

theorem decode_version {a : Agent} {fresh} : (codec "struct" (.required "version" .string .nil fresh) : Codec N (String × Unit)).decode
    (canonical N ((agentCodec package : Codec N Agent).encode a)) ("", ()) = .ok (a.version, ()) := by
  refine decode_field ?_ decode_nil
  rw [select_write_of_ne (by decide), select_write_of_ne (by decide), select_write_self]
  exact readField_string rfl of_decide_eq_true

theorem read_version {fresh} : readField (codec "struct" (.required "version" .string .nil fresh) : Codec N (String × Unit))
    (select (foldName "agent") (canonicalMembers N ((agentEventRecord package evidence notNull).write x))) ("", ()) =
      .ok ((x.2.2.2.1.map Agent.version).getD "", ()) := by
  simp (disch := decide) only [agentEventRecord, select_write_of_ne, select_write_self]
  cases x.2.2.2.1 with
  | none => rfl
  | some a =>
    change readField _ [("agent", canonical N ((agentCodec package).encode a))] ("", ()) = _
    rw [readField, decode_version]
    rfl

end Fields

section Decode

variable {P : Primitives} {A : Type} {package : String} {evidence : Codec P.numbers A}
  {notNull : ∀ a, evidence.encode a ≠ .null}

theorem decode_incomingFields (e : AgentEvent A) : (incomingFields P).decode
    (canonical P.numbers ((agentEventCodec package evidence notNull).encode e)) (incomingFields P).zero =
      .ok (e.raID, ((e.agent.map Agent.version).getD "", ()), ()) :=
  decode_field read_raID (decode_field read_version decode_nil)

theorem decode_priorFields (e : AgentEvent A) : (priorFields P).decode
    (canonical P.numbers ((agentEventCodec package evidence notNull).encode e)) (priorFields P).zero =
      .ok (e.raID, e.timestamp, ()) :=
  decode_field read_raID (decode_field read_timestamp decode_nil)

/-- The type of an event, in whatever family it is. -/
theorem decode_eventType (s : Schema) (e : s.Event) {fresh} :
    (codec "struct" (.required "eventType" .string .nil fresh) : Codec P.numbers (String × Unit)).decode
      (canonical P.numbers ((s.codec : Codec P.numbers _).encode e)) ("", ()) = .ok ((s.eventType e).text, ()) := by
  cases s with
  | v2 | v1 => exact decode_field read_eventType decode_nil
  | identity =>
    refine decode_field ?_ decode_nil
    unfold Identity.eventRecord
    rw [select_write_of_ne (by decide), select_write_self]
    exact readField_string rfl of_decide_eq_true

end Decode

/-! ### Normal forms of events -/

namespace Schema

variable {N : NumberFormat} (s : Schema) (e : s.Event)

/-- The event that is read back from canonical bytes. -/
abbrev norm (N : NumberFormat) : s.Event := (s.codec : Codec N s.Event).norm e

theorem agentID_norm : s.agentID (s.norm e N) = s.agentID e := by cases s <;> rfl

theorem ansName_norm : s.ansName (s.norm e N) = s.ansName e := by cases s <;> rfl

theorem raID_norm : s.raID (s.norm e N) = s.raID e := by cases s <;> rfl

theorem eventType_norm : s.eventType (s.norm e N) = s.eventType e := by
  cases s <;> exact EventType.ofText_text _

theorem agentFQDN_norm : s.agentFQDN (s.norm e N) = s.agentFQDN e := by
  cases s with
  | v2 | v1 => obtain ⟨_, _, _, _ | agent, _⟩ := e <;> rfl
  | identity => rfl

theorem identity?_norm : s.identity? (s.norm e N) = s.identity? e := by
  cases s with
  | v2 | v1 => rfl
  | identity =>
    have hids : e.ansIDs.map (string : Codec N String).norm = e.ansIDs := map_id _
    exact congrArg (fun ids => some (e.identityID, ids)) hids

end Schema

/-! ### Leaves -/

/-- A sealed event. -/
structure Leaf (P : Primitives) where
  schema : Schema
  event : schema.Event
  logID : String
  keyID : String
  producerSignature : String
  signature : String
  valid : schema.validate P event = .ok ()
  sound : defect P.numbers ((schema.codec : Codec P.numbers _).encode event) = none
  logID_ne : logID ≠ ""
  signature_ne : signature ≠ ""
  producer_ne : schema.requiresProducer = true → keyID ≠ "" ∧ producerSignature ≠ ""

namespace Leaf

variable {P : Primitives} (l : Leaf P)

def envelope : Envelope l.schema.Event :=
  { l.schema.buildEnvelope l.logID l.event l.keyID l.producerSignature with signature := l.signature }

def signable : Signable := ⟨l.schema, l.envelope⟩

/-- The canonical bytes of the producer's event. -/
def inner : Json := canonical P.numbers ((l.schema.codec : Codec P.numbers _).encode l.event)

/-- The canonical bytes of the leaf. -/
def raw : Json := canonical P.numbers ((l.schema.envelopeCodec : Codec P.numbers _).encode l.envelope)

theorem version_ne (s : Schema) : s.version ≠ "" := by cases s <;> decide

/-- The document of a sealed envelope around the document of an event. -/
def document (event : Json) : Json :=
  .object [("payload", .object [("logId", .string l.logID), ("producer", .object [("event", event),
      ("keyId", .string l.keyID), ("signature", .string l.producerSignature)])]),
    ("schemaVersion", .string l.schema.version), ("signature", .string l.signature)]

theorem encode_envelope : (l.schema.envelopeCodec : Codec P.numbers _).encode l.envelope =
    l.document ((l.schema.codec : Codec P.numbers _).encode l.event) := by
  unfold Schema.envelopeCodec TransparencyLog.envelopeCodec envelopeRecord
  rw [encode_iso, encode_codec, write_optional rfl, write_optional, write_optional,
    write_optional_of_isEmpty]
  · rfl
  · rfl
  · exact decide_eq_false l.signature_ne
  · exact decide_eq_false (version_ne l.schema)

theorem canonical_document (event : Json) : canonical P.numbers (l.document event) = l.document (canonical P.numbers event) := by
  unfold document
  simp only [canonical_object, canonicalMembers, canonical_string]
  rw [sortMembers_eq_self, sortMembers_eq_self, sortMembers_eq_self]
  all_goals simp; decide

theorem raw_eq : l.raw = l.document l.inner := by
  unfold raw inner
  rw [encode_envelope, canonical_document]

theorem depth_document (event : Json) : (l.document event).depth = event.depth + 3 := by
  simp [document, depth, depthMembers]

theorem defect_document {event : Json} :
    defect P.numbers (l.document event) = none ↔ defect P.numbers event = none := by
  have hproducer : (["event", "keyId", "signature"].map sortKey).Nodup := by decide
  have hpayload : (["logId", "producer"].map sortKey).Nodup := by decide
  have henvelope : (["payload", "schemaVersion", "signature"].map sortKey).Nodup := by decide
  have hstring (text : String) : defect P.numbers (.string text) = none := by simp [defect]
  simp only [map_cons, map_nil] at hproducer hpayload henvelope
  simp only [document, defect_object_eq_none, forall_mem_cons, not_mem_nil, false_implies, implies_true,
    and_true, map_cons, map_nil, hproducer, hpayload, henvelope, hstring, true_and]

/-! ### The bytes of a leaf -/

theorem Schema.canonicalize_eq_ok_iff {s : Schema} {j k : Json} :
    s.canonicalize P j = .ok k ↔ canonicalize P.numbers j = .ok k := by
  cases s <;> simp [Schema.canonicalize]

theorem defect_envelope : defect P.numbers ((l.schema.envelopeCodec : Codec P.numbers _).encode l.envelope) = none := by
  rw [encode_envelope, defect_document]
  exact l.sound

theorem validate_signable : l.signable.validate P = .ok () := by
  have hkeyID : l.schema.requiresProducer = true → l.keyID ≠ "" := fun h => (l.producer_ne h).1
  have hsignature : l.schema.requiresProducer = true → l.producerSignature ≠ "" := fun h => (l.producer_ne h).2
  unfold Signable.validate
  refine bind_eq_ok_iff.mpr ⟨(), require_eq_ok_iff.mpr rfl, ?_⟩
  refine bind_eq_ok_iff.mpr ⟨(), require_eq_ok_iff.mpr l.logID_ne, ?_⟩
  refine bind_eq_ok_iff.mpr ⟨(), require_eq_ok_iff.mpr hkeyID, ?_⟩
  exact bind_eq_ok_iff.mpr ⟨(), require_eq_ok_iff.mpr hsignature, l.valid⟩

theorem leafBytes_signable : l.signable.leafBytes P = .ok l.raw := by
  have hdefect := l.defect_envelope
  have hraw : canonical P.numbers ((l.schema.envelopeCodec : Codec P.numbers _).encode l.envelope) = l.raw := rfl
  simp only [Signable.leafBytes, Signable.canonical, bind_eq_ok_iff, require_eq_ok_iff, exists_const,
    Schema.canonicalize_eq_ok_iff]
  refine ⟨l.signature_ne, ?_⟩
  change canonicalize P.numbers ((l.schema.envelopeCodec : Codec P.numbers _).encode l.envelope) = _
  rw [encode_envelope] at hdefect hraw ⊢
  exact canonicalize_object.mpr ⟨hdefect, hraw⟩

theorem depth_raw : l.raw.depth = l.inner.depth + 3 := by
  rw [raw_eq, depth_document]

/-! ### Reading a leaf back -/

/-- What names select among the members of a leaf. -/
theorem select_document (payload : Json) : select (foldName "payload")
    [("payload", payload), ("schemaVersion", .string l.schema.version), ("signature", .string l.signature)] =
      [("payload", payload)] := by
  have hversion : foldName "schemaVersion" ≠ foldName "payload" := by decide
  have hsignature : foldName "signature" ≠ foldName "payload" := by decide
  simp [select, hversion, hsignature]

theorem select_payload (producer : Json) : select (foldName "producer")
    [("logId", .string l.logID), ("producer", producer)] = [("producer", producer)] := by
  have hlogID : foldName "logId" ≠ foldName "producer" := by decide
  simp [select, hlogID]

theorem select_producer (event : Json) : select (foldName "event")
    [("event", event), ("keyId", .string l.keyID), ("signature", .string l.producerSignature)] =
      [("event", event)] := by
  have hkeyID : foldName "keyId" ≠ foldName "event" := by decide
  have hsignature : foldName "signature" ≠ foldName "event" := by decide
  simp [select, hkeyID, hsignature]

theorem decode_eventWrapper (event : Json) : (eventWrapper P).decode (l.document event) (eventWrapper P).zero =
    .ok (((some event, ()), ()), ()) := by
  refine decode_of_select (l.select_document _) ?_ rfl
  refine decode_of_select (l.select_payload _) ?_ rfl
  exact decode_of_select (l.select_producer _) rfl rfl

theorem encode_eq_object (s : Schema) (e : s.Event) :
    ∃ members, (s.codec : Codec P.numbers _).encode e = .object members := by
  cases s <;> exact ⟨_, rfl⟩

theorem canonicalize_inner : canonicalize P.numbers l.inner = .ok l.inner := by
  obtain ⟨members, hmembers⟩ := encode_eq_object l.schema l.event
  have hevent : canonicalize P.numbers ((l.schema.codec : Codec P.numbers _).encode l.event) = .ok l.inner := by
    rw [hmembers, canonicalize_object, ← hmembers]
    exact ⟨l.sound, rfl⟩
  exact canonicalize_of_canonicalize hevent

theorem innerEventBytes_raw {j : Json} : innerEventBytes P l.raw = .ok j ↔ l.raw.depth ≤ 10000 ∧ j = l.inner := by
  unfold innerEventBytes
  rw [bind_eq_ok_iff]
  constructor
  · rintro ⟨wrapper, hwrapper, hinner⟩
    rw [unmarshal_eq_ok_iff, raw_eq, decode_eventWrapper] at hwrapper
    obtain ⟨hdepth, hwrapper⟩ := hwrapper
    cases hwrapper
    rw [withContext_eq_ok_iff, canonicalize_inner] at hinner
    rw [raw_eq]
    exact ⟨hdepth, (ok.inj hinner).symm⟩
  · rintro ⟨hdepth, rfl⟩
    refine ⟨(((some l.inner, ()), ()), ()), ?_, ?_⟩
    · rw [unmarshal_eq_ok_iff, raw_eq, decode_eventWrapper, ← raw_eq]
      exact ⟨hdepth, rfl⟩
    · rw [withContext_eq_ok_iff, canonicalize_inner]

/-! ### Recovering a leaf -/

def eventType : EventType := l.schema.eventType l.event

theorem select_schemaVersion (payload : Json) : select (foldName "schemaVersion")
    [("payload", payload), ("schemaVersion", .string l.schema.version), ("signature", .string l.signature)] =
      [("schemaVersion", .string l.schema.version)] := by
  have hpayload : foldName "payload" ≠ foldName "schemaVersion" := by decide
  have hsignature : foldName "signature" ≠ foldName "schemaVersion" := by decide
  simp [select, hpayload, hsignature]

theorem decode_storedHeader : (storedHeader P).decode l.raw (storedHeader P).zero =
    .ok (l.schema.version, (((l.eventType.text, ()), ()), ()), ()) := by
  rw [raw_eq]
  refine decode_of_select (l.select_schemaVersion _) rfl (decode_of_select (l.select_document _) ?_ rfl)
  refine decode_of_select (l.select_payload _) ?_ rfl
  exact decode_of_select (l.select_producer _) (decode_eventType l.schema l.event) rfl

/-- The types of a family pass its checks and no others do. -/
theorem eventType_family : match l.schema with
    | .identity => l.eventType.isIdentity = true
    | .v1 | .v2 => l.eventType.isAgent = true := by
  obtain ⟨s, e, _, _, _, _, hvalid, _⟩ := l
  cases s with
  | v2 =>
    simp only [Schema.validate, Event.validate, bind_eq_ok_iff, require_eq_ok_iff] at hvalid
    exact hvalid.choose_spec.1
  | v1 =>
    simp only [Schema.validate, V1.Event.validate, bind_eq_ok_iff, require_eq_ok_iff] at hvalid
    obtain ⟨_, _, _, _, _, htype, _⟩ := hvalid
    exact htype
  | identity =>
    simp only [Schema.validate, Identity.Event.validate, bind_eq_ok_iff, require_eq_ok_iff] at hvalid
    exact hvalid.choose_spec.1

theorem storedSchema_eq : storedSchema l.schema.version l.eventType.text = .ok l.schema := by
  have hfamily := l.eventType_family
  generalize l.eventType = t at hfamily ⊢
  generalize l.schema = s at hfamily ⊢
  cases s with
  | identity | v1 | v2 => cases t <;> first | rfl | cases hfamily

/-- What is read back still passes the checks. -/
def Recoverable : Prop := l.schema.validate P (l.schema.norm l.event P.numbers) = .ok ()

/-- The leaf that is read back from the bytes of a leaf. -/
def normalized (h : l.Recoverable) : Leaf P :=
  { l with
    event := l.schema.norm l.event P.numbers
    valid := h
    sound := (defect_norm _).mpr l.sound }

theorem norm_envelope : (l.schema.envelopeCodec : Codec P.numbers _).norm l.envelope =
    { l.schema.buildEnvelope l.logID (l.schema.norm l.event P.numbers) l.keyID l.producerSignature with
      signature := l.signature } := rfl

variable {l}

@[simp] theorem inner_normalized (h : l.Recoverable) : (l.normalized h).inner = l.inner := canonical_norm _ _

@[simp] theorem raw_normalized (h : l.Recoverable) : (l.normalized h).raw = l.raw := by
  rw [raw_eq, raw_eq, inner_normalized]
  rfl

theorem recoverable_of_validate
    (h : (⟨l.schema, (l.schema.envelopeCodec : Codec P.numbers _).norm l.envelope⟩ : Signable).validate P = .ok ()) :
    l.Recoverable := by
  rw [norm_envelope] at h
  simp only [Signable.validate, Schema.buildEnvelope, bind_eq_ok_iff] at h
  obtain ⟨_, _, _, _, _, _, _, _, hvalid⟩ := h
  exact hvalid

variable (l) in
/-- What the bytes of a leaf are read as. -/
theorem decodeStoredEnvelope_raw {e : Signable} : decodeStoredEnvelope P l.raw = .ok e ↔
    l.raw.depth ≤ 10000 ∧ ∃ h : l.Recoverable, e = (l.normalized h).signable := by
  unfold decodeStoredEnvelope
  simp only [bind_eq_ok_iff, pure_eq_ok_iff, unmarshal_eq_ok_iff, decode_storedHeader]
  constructor
  · rintro ⟨_, ⟨hsmall, hheader⟩, s, hs, envelope, ⟨_, henvelope⟩, _, hvalid, rfl⟩
    obtain rfl := ok.inj hheader
    rw [storedSchema_eq] at hs
    obtain rfl := ok.inj hs
    rw [raw, decode_canonical _ _ l.defect_envelope] at henvelope
    obtain rfl := ok.inj henvelope
    exact ⟨hsmall, recoverable_of_validate hvalid, rfl⟩
  · rintro ⟨hsmall, h, rfl⟩
    refine ⟨_, ⟨hsmall, rfl⟩, l.schema, l.storedSchema_eq, _, ⟨hsmall, ?_⟩, (), ?_, rfl⟩
    · exact decode_canonical _ _ l.defect_envelope
    · exact (l.normalized h).validate_signable

end Leaf

/-- A leaf of an event, for examples. -/
def Sample.leaf {P : Primitives} (schema : Schema) (event : schema.Event) (valid : schema.validate P event = .ok ())
    (sound : defect P.numbers ((schema.codec : Codec P.numbers _).encode event) = none) : Leaf P :=
  ⟨schema, event, "log-1", "key", "ra", "seal", valid, sound, by decide, by decide, fun _ => by decide⟩

end AgentNameService.TransparencyLog
