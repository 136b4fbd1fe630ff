/-
Purpose: What an auditor can check of a leaf alone.  The producer signs the canonical form of the body; the leaf holds the
  canonical form of the typed event, with the producer's id filled in.  The signature still verifies where the two are one.
Source: internal/tl/service/{log,codec,producersig}.go, internal/tl/event/event.go
Trusted boundary: a signature under a key verifies over one message at most
-/
import AgentNameService.TransparencyLog.Ingest

namespace AgentNameService.TransparencyLog

open Interleaving Except Prog Json

variable {P : Primitives}

/-! ### The audit of a leaf -/

/-- The producer's signature in the bytes of a leaf. -/
def Leaf.signatureIn (raw : Json) : Option Json :=
  ((Leaf.member "payload" raw).bind (Leaf.member "producer")).bind (Leaf.member "signature")

/-- The id of the producer's key in the bytes of a leaf. -/
def Leaf.keyIDIn (raw : Json) : Option Json :=
  ((Leaf.member "payload" raw).bind (Leaf.member "producer")).bind (Leaf.member "keyId")

theorem Leaf.signatureIn_raw (l : Leaf P) : Leaf.signatureIn l.raw = some (.string l.producerSignature) := by
  rw [raw_eq]
  rfl

theorem Leaf.keyIDIn_raw (l : Leaf P) : Leaf.keyIDIn l.raw = some (.string l.keyID) := by
  rw [raw_eq]
  rfl

/-- What an auditor does who holds a leaf and the producer's public key. -/
def checkProducerSignature (P : Primitives) (raw : Json) (pem : String) : Except String Unit :=
  match Leaf.eventIn raw, Leaf.signatureIn raw with
  | some event, some (.string signature) => P.verifies signature event pem
  | _, _ => .error "no producer event"

theorem Leaf.checkProducerSignature_raw (l : Leaf P) (pem : String) :
    checkProducerSignature P l.raw pem = P.verifies l.producerSignature l.inner pem := by
  rw [checkProducerSignature, eventIn_raw, signatureIn_raw]

/-! ### What was signed and what is sealed -/

/-- The body is what an event of the lane is written as, up to the order of members and the form of numbers, and that
event names its producer. -/
def NamesProducer (P : Primitives) (s : Schema) (body : Body) : Prop :=
  ∃ j, body.parse = .ok j ∧ ∃ event : s.Event, s.raID event ≠ "" ∧
    canonical P.numbers j = canonical P.numbers ((s.codec : Codec P.numbers _).encode event)

theorem stampRaID_of_ne {s : Schema} {raID : String} {inner event : s.Event} (h : stampRaID s raID inner = .ok event)
    (hne : s.raID inner ≠ "") : event = inner := by
  unfold stampRaID at h
  rw [if_neg hne] at h
  simp only [bind_eq_ok_iff, pure_eq_ok_iff] at h
  exact h.choose_spec.2.symm

theorem raID_of_stampRaID {s : Schema} {raID : String} {inner event : s.Event} (h : stampRaID s raID inner = .ok event) :
    s.raID event = raID := by
  unfold stampRaID at h
  split at h
  · obtain rfl := ok.inj h
    cases s <;> rfl
  · simp only [bind_eq_ok_iff, require_eq_ok_iff, pure_eq_ok_iff] at h
    obtain ⟨_, hraID, rfl⟩ := h
    exact hraID

theorem raid_ne_of_readHeader {jws : String} {header : Header} (h : readHeader P jws = .ok header) : header.raid ≠ "" := by
  simp only [readHeader, bind_eq_ok_iff, mapError_eq_ok_iff, require_eq_ok_iff,
    pure_eq_ok_iff] at h
  obtain ⟨_, _, _, _, _, hne, rfl⟩ := h
  exact hne.2

section Signature

/-- A signature under a key is one of a single message. -/
def SignaturesBind (P : Primitives) : Prop :=
  ∀ jws pem m n, P.verifies jws m pem = .ok () → P.verifies jws n pem = .ok () → m = n

variable {l : Leaf P} {input : AppendInput} {pem : String}

/-- The signature verifies over the sealed event exactly where the body was that event. -/
theorem Requested.verifies_iff (hbinds : SignaturesBind P) (h : Requested l input pem) :
    P.verifies l.producerSignature l.inner pem = .ok () ↔ NamesProducer P l.schema input.rawBody := by
  obtain ⟨raID, hheader, hparsed⟩ := h.parsed
  have hverified := h.verified
  simp only [verifyDetachedWithPEM, bind_eq_ok_iff, withContext_eq_ok_iff] at hverified
  obtain ⟨_, _, j, hj, signed, hsigned, hverifies⟩ := hverified
  obtain ⟨hdefect, rfl⟩ := of_canonicalize hsigned
  simp only [parseEvent, bind_eq_ok_iff, mapError_eq_ok_iff, hj, ok.injEq, exists_eq_left',
    unmarshal_eq_ok_iff] at hparsed
  obtain ⟨inner, ⟨_, hdecode⟩, _, _, hstamp⟩ := hparsed
  rw [h.signature]
  constructor
  · intro hsealed
    refine ⟨j, hj, l.event, ?_, hbinds _ _ _ _ hverifies hsealed⟩
    rw [raID_of_stampRaID hstamp]
    exact raid_ne_of_readHeader hheader
  · rintro ⟨j', hj', event, hraID, hcanonical⟩
    obtain rfl := ok.inj (hj.symm.trans hj')
    have hsound : defect P.numbers ((l.schema.codec : Codec P.numbers _).encode event) = none := by
      rw [← defect_canonical, ← hcanonical, defect_canonical]
      exact hdefect
    -- the body is read as an event with the same normal form, and nothing is filled in
    obtain ⟨read, hread, hnorm⟩ := l.schema.codec.decode_encode event j hsound hcanonical
    obtain rfl := ok.inj (hdecode.symm.trans hread)
    have hnamed : l.schema.raID inner ≠ "" := by
      rw [← Schema.raID_norm, Schema.norm, hnorm, Schema.raID_norm]
      exact hraID
    have hinner : l.inner = canonical P.numbers j := by
      rw [Leaf.inner, stampRaID_of_ne hstamp hnamed, hcanonical]
      exact Codec.canonical_congr _ hnorm
    rw [hinner]
    exact hverifies

end Signature

/-! ### What an append adds to the log -/

/-- The entry is the leaf of the request. -/
def Seals (P : Primitives) (s : Schema) (input : AppendInput) (c : Call P) : Prop :=
  ∀ entry, c = .add entry → ∃ (l : Leaf P) (pem : String), l.schema = s ∧ l.raw = entry ∧ Requested l input pem

section Adds

variable {lane : Schema} {input : AppendInput} {env : Signable} {canonical : Json} {logID signature : String} {β : Type}

theorem seals_of_restores (c : Call P) (hc : c.restores) : Seals P lane input c := by
  rintro entry rfl
  exact absurd hc not_false

theorem calls_ask {A : Call P → Prop} {R : β → Prop} {q : Query} {f : q.Answer → Program P β}
    (h : ∀ a, (f a).Calls A R) : (ask q >>= f).Calls A R := h

theorem Built.schema_eq (h : Built (P := P) lane input env canonical logID) : env.schema = lane := by
  obtain ⟨_, _, _, _, hbuilt⟩ := h
  obtain ⟨_, _, _, henv⟩ := parseAndBuild_eq_ok_iff.mp hbuilt
  exact congrArg Signable.schema henv

theorem logAppend_adds (h : Built (P := P) lane input env canonical logID) :
    (logAppend (env.setOuterSignature signature)).Calls (Seals P lane input) fun _ => True := by
  apply Calls.lift
  intro _ hvalid
  apply Calls.lift
  intro bytes hbytes
  apply calls_run
  · intro entry hentry
    obtain rfl := Call.add.inj hentry
    rw [mapError_eq_ok_iff] at hvalid hbytes
    obtain ⟨l, pem, hsignable, _, hraw, _, hrequested⟩ := h.leaf hvalid hbytes
    exact ⟨l, pem, (congrArg Signable.schema hsignable).trans h.schema_eq, hraw, hrequested⟩
  · intro added
    apply Calls.lift
    intro entry _
    trivial

theorem duplicateResult_adds (rec : EventRecord P) :
    (duplicateResult rec).Calls (Seals P lane input) fun _ => True := by
  apply calls_ask
  intro latest
  cases latest <;> trivial

theorem completeAppend_adds (h : Built (P := P) lane input env canonical logID) {eventHash : P.Digest} :
    (completeAppend (env.setOuterSignature signature) eventHash logID).Calls (Seals P lane input) fun _ => True := by
  apply (calls_inContext _ (logAppend_adds h)).bind
  intro res _
  split
  · apply (recoverIndex_restores.mono seals_of_restores).bind
    intro _ _
    apply calls_run (by intro _ h; cases h)
    intro row
    apply Calls.lift
    intro rec _
    apply calls_liftText
    intro _
    apply calls_run (by intro _ h; cases h)
    intro _
    exact duplicateResult_adds rec
  · apply (calls_inContext _ ((storeEvent_restores _ _ _ _ _).mono seals_of_restores)).bind
    intro _ _
    apply calls_run (by intro _ h; cases h)
    intro _
    trivial

theorem ensureIndexReady_adds : (ensureIndexReady).Calls (Seals P lane input) fun _ => True := by
  apply calls_run nofun
  intro ready
  split
  · trivial
  · apply calls_run nofun
    intro _
    apply (recoverIndex_restores.mono seals_of_restores).outcome.bind
    intro result _
    apply calls_run nofun
    intro _
    apply calls_run nofun
    intro _
    exact Calls.of_ret _

theorem checkAgentEvent_adds {incoming : Except Registration.Error String}
    {judge : String → Option (EventRecord P) → Program P Unit} (hnone : ∀ raID, judge raID none = pure ())
    (hsome : ∀ raID rec, judge raID (some rec) = lift (checkPrior P env raID rec)) (ansName agentID : String) :
    (lift incoming >>= fun raID => run (.latestAgentState ansName agentID) >>= judge raID).Calls (Seals P lane input)
      fun _ => True := by
  apply Calls.lift
  intro raID _
  apply calls_run nofun
  intro row
  cases row with
  | none =>
    rw [hnone]
    trivial
  | some rec =>
    rw [hsome]
    exact Calls.of_ret _

theorem checkAgentState_adds : (checkAgentState env canonical).Calls (Seals P lane input) fun _ => True := by
  unfold checkAgentState
  generalize checkIncoming P env canonical = incoming
  cases env.schema with
  | identity => trivial
  | v1 | v2 => exact checkAgentEvent_adds (fun _ => rfl) (fun _ _ => rfl) _ _

theorem appendChecked_adds (h : Built (P := P) lane input env canonical logID) :
    (appendChecked env canonical logID).Calls (Seals P lane input) fun _ => True := by
  apply calls_run nofun
  intro existing
  cases existing with
  | some index =>
    apply calls_run nofun
    intro row
    apply Calls.lift
    intro rec _
    exact duplicateResult_adds rec
  | none =>
    apply checkAgentState_adds.bind
    intro _ _
    have hsigned : (attest env).Calls (Seals P lane input) fun signed => ∃ signature, signed = env.setOuterSignature signature := by
      apply calls_liftText
      intro signingInput
      apply calls_ask
      intro answer
      apply calls_liftText
      intro signature
      exact ⟨signature, rfl⟩
    apply hsigned.bind
    rintro _ ⟨signature, rfl⟩
    apply calls_run nofun
    intro _
    apply calls_run nofun
    intro _
    apply (completeAppend_adds h).outcome.bind
    intro result _
    apply calls_run nofun
    intro _
    exact Calls.of_ret _

/-- The only entry an append ever adds to the log is the leaf of its request. -/
theorem append_adds (lane : Schema) (input : AppendInput) :
    (append lane input).Calls (Seals P lane input) fun _ => True := by
  have hverify : (verify input.producerSignature input.rawBody).Calls (Seals P lane input) fun header =>
      readHeader P input.producerSignature = .ok header ∧
        ∃ pem, verifyDetachedWithPEM P input.producerSignature input.rawBody pem = .ok () := by
    apply Calls.lift
    intro header hheader
    apply calls_ask
    intro key
    match key with
    | .error .notFound => trivial
    | .error .failed => trivial
    | .ok pem =>
      apply Calls.lift
      intro _ hverified
      rw [mapError_eq_ok_iff] at hverified
      exact ⟨hheader, pem, hverified⟩
  apply hverify.bind
  rintro header ⟨hheader, pem, hverified⟩
  apply calls_ask
  intro answer
  apply calls_liftText
  intro logID
  apply Calls.lift
  intro built hbuilt
  apply ensureIndexReady_adds.bind
  intro _ _
  exact appendChecked_adds ⟨header, pem, hheader, hverified, hbuilt⟩

end Adds

/-! ### The audit of every leaf -/

namespace Sample

/-- A revocation that names its producer. -/
def revoked : Identity.Event where
  ansIDs := []
  eventType := .identityRevoked
  identityID := "i"
  kind := "did:web"
  keys := []
  previousValue := ""
  proofMethod := ""
  providerID := ""
  raID := "ra"
  revokedAt := "t"
  timestamp := "t"
  value := "did:web:a"
  verifiedAt := ""

/-- The document of that revocation. -/
def namedRevocation : Json :=
  .object [("eventType", .string "IDENTITY_REVOKED"), ("identityId", .string "i"), ("kind", .string "did:web"),
    ("raId", .string "ra"), ("revokedAt", .string "t"), ("timestamp", .string "t"), ("value", .string "did:web:a")]

/-- One document is signed. -/
def signing (signed : Json) : Primitives :=
  { primitives with verifies := fun _ m _ => if m = signed then .ok () else .error "signature is invalid" }

theorem signing_binds (signed : Json) : SignaturesBind (signing signed) := by
  have hsigned (m : Json) (h : (if m = signed then .ok () else .error "signature is invalid" : Except String Unit) = .ok ()) :
      m = signed := by
    split at h
    · assumption
    · cases h
  intro jws pem m n hm hn
  exact (hsigned m hm).trans (hsigned n hn).symm

/-- The document that a producer signs for a revocation without its own id. -/
def unnamed : Json :=
  .object [("eventType", .string "IDENTITY_REVOKED"), ("identityId", .string "i"), ("kind", .string "did:web"),
    ("revokedAt", .string "t"), ("timestamp", .string "t"), ("value", .string "did:web:a")]

/-- The revocation without the producer's id, appended. -/
def stamped : Gate (service (signing unnamed)) :=
  (Gate.start _).serve (setting _) (.append .identity ⟨revocation "i", "ra"⟩) .sequenced (world "log-1") 60

end Sample

open Sample

end AgentNameService.TransparencyLog
