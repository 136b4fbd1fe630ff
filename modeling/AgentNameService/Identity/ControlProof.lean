/-
Purpose: How control of an identifier is proven: the signing input of a challenge, the compact signatures over it, the keys
  that a DID document or a did:key names, and the keys that are sealed.
Source: internal/ra/service/{identitykinds,leiverifier}.go, internal/crypto/{proofinput,jws,jwk}.go, internal/port/didresolver.go
Trusted boundary: human-reviewed model; keys, signatures, base64url and the texts of points in time are parameters
-/
import AgentNameService.Identity.Domain
import AgentNameService.TransparencyLog.Envelope

namespace AgentNameService.Identity

open Except Json List Registration TransparencyLog TransparencyLog.Identity

/-- What is read of the header of a compact signature. -/
structure JWSProtectedHeader where
  kid : String
  jwk : Option Json

/-- A registration authority: its configuration, the log it seals to, and what the model leaves open. -/
structure Deployment where
  log : Primitives
  raID : String
  challengeTTL : Time
  registerPerMinute : Nat
  linkPerMinute : Nat
  leiEnabled : Bool
  /-- The text of a point in time, given in whole seconds. -/
  rfc3339 : Nat → String
  /-- The base64url text of the bytes of a canonical document. -/
  base64url : Json → String
  thumbprint : String → String
  Key : Type
  parseJWK : Json → Except String Key
  decodeMultibase : String → Except String Key
  decodeHeader : String → Except String JWSProtectedHeader
  verifyJWS : Key → String → Except String Unit

variable (D : Deployment)

/-! ### The signing input -/

def identityProofPurpose : String := "ans:identity-proof:v1"

structure IdentityProofInput where
  identifier : String
  identityID : String
  nonce : String
  purpose : String
  raID : String
  scheme : String
deriving DecidableEq, Repr

/-- `json.Marshal`. -/
def IdentityProofInput.document (input : IdentityProofInput) : Json :=
  .object [("identifier", .string input.identifier), ("identityId", .string input.identityID),
    ("nonce", .string input.nonce), ("purpose", .string input.purpose), ("raId", .string input.raID),
    ("scheme", .string input.scheme)]

def IdentityProofInput.signingInput (input : IdentityProofInput) : Except String String := do
  let canonical ← canonicalize D.log.numbers input.document
  return D.base64url canonical

/-- What a proof of an identity signs, for a nonce. -/
def VerifiedIdentity.proofInput (v : VerifiedIdentity) (nonce : String) : IdentityProofInput where
  identifier := v.effectiveValue
  identityID := v.identityID
  nonce := nonce
  purpose := identityProofPurpose
  raID := D.raID
  scheme := v.kind.text

/-! ### Submissions -/

structure ProofSubmission where
  signedProofs : List String
  cesrSignature : String
deriving DecidableEq, Repr

def proofInvalid (message : String) : Error := .validation "IDENTIFIER_PROOF_INVALID" message

def methodInvalid (message : String) : Error := .validation "DID_VERIFICATION_METHOD_INVALID" message

def ProofSubmission.validateExactlyOneFamily (sub : ProofSubmission) : Except Error Unit :=
  require ((sub.signedProofs ≠ []) ≠ (sub.cesrSignature ≠ ""))
    (proofInvalid "exactly one of signedProofs or cesrSignature must be set")

/-- `splitStandardJWS`: three segments, none of them empty. -/
def splitStandardJWS (jws : String) : Except String (String × String × String) :=
  match jws.toList.splitOn '.' with
  | [header, payload, signature] =>
    if payload = [] then .error "jws: standard form requires non-empty payload segment"
    else if header = [] ∨ signature = [] then .error "jws: empty header or signature segment"
    else .ok (String.ofList header, String.ofList payload, String.ofList signature)
  | _ :: _ :: _ :: _ :: _ => .error "jws: too many segments"
  | _ => .error "jws: not a compact JWS"

/-- `DecodeStandardJWS`: the header and the payload segment. -/
def decodeStandardJWS (jws : String) : Except String (JWSProtectedHeader × String) := do
  let (header, payload, _) ← splitStandardJWS jws
  let decoded ← D.decodeHeader header
  return (decoded, payload)

structure JWSProof where
  jws : String
  header : JWSProtectedHeader

def maxProofsPerVerify : Nat := 16

/-- The checks of one submitted signature, after the kids that were named before it. -/
def parseJWSProof (signingInput : String) (seenKids : List String) (jws : String) (i : Nat) : Except Error JWSProof :=
  match decodeStandardJWS D jws with
  | .error _ => .error (proofInvalid s!"signedProofs[{i}] is not a compact JWS")
  | .ok (header, payload) => do
      require (payload = signingInput) (.validation "PRICC_SIGNATURE_INVALID"
        s!"signedProofs[{i}] payload does not equal the served signingInput")
      require (header.kid ≠ "") (methodInvalid s!"signedProofs[{i}] names no kid")
      require (header.kid ∉ seenKids) (proofInvalid s!"signedProofs[{i}] duplicates kid {quoted header.kid}")
      return ⟨jws, header⟩

def parseEachJWSProof (signingInput : String) : List (String × Nat) → List String → Except Error (List JWSProof)
  | [], _ => .ok []
  | (jws, i) :: rest, seenKids => do
      let proof ← parseJWSProof D signingInput seenKids jws i
      let proofs ← parseEachJWSProof signingInput rest (proof.header.kid :: seenKids)
      return proof :: proofs

def parseJWSProofs (sub : ProofSubmission) (signingInput : String) : Except Error (List JWSProof) := do
  require (sub.signedProofs ≠ []) (proofInvalid "signedProofs is required")
  require (sub.signedProofs.length ≤ maxProofsPerVerify) (proofInvalid s!"at most {maxProofsPerVerify} proofs per call")
  parseEachJWSProof D signingInput sub.signedProofs.zipIdx []

/-- Verify each proof under the key that its kid selects, and quote the key's verification method. -/
def sealEachJWSProof (did : String) (selectKey : String → Except Error (D.Key × Json)) :
    List (JWSProof × Nat) → Except Error (List ProvenKey)
  | [] => .ok []
  | (proof, i) :: rest => do
      let (pub, method) ← selectKey proof.header.kid
      (D.verifyJWS pub proof.jws).mapError fun _ => .validation "PRICC_SIGNATURE_INVALID"
        s!"signedProofs[{i}] does not verify against {did}'s key {quoted proof.header.kid}"
      let proven ← sealEachJWSProof did selectKey rest
      return ⟨some method, proof.jws⟩ :: proven

def sealJWSProofs (parsed : List JWSProof) (did : String) (selectKey : String → Except Error (D.Key × Json)) :
    Except Error (List ProvenKey) :=
  sealEachJWSProof D did selectKey parsed.zipIdx

/-! ### Keys of a DID document -/

structure KeyHint where
  kid : String
  publicKeyJWK : Option Json

structure VerificationMethod where
  id : String
  controller : String
  type : String
  publicKeyJwk : Option Json
  publicKeyMultibase : String
  /-- The object as the document has it. -/
  raw : Json
deriving DecidableEq

structure DIDDocument where
  id : String
  assertionMethod : List VerificationMethod
deriving DecidableEq

def DIDDocument.findAssertionMethod (doc : DIDDocument) (kid : String) : Option VerificationMethod :=
  doc.assertionMethod.find? (·.id = kid)

/-- The key of a verification method. -/
def VerificationMethod.key (vm : VerificationMethod) : Except Error D.Key :=
  match vm.publicKeyJwk with
  | some jwk => (D.parseJWK jwk).mapError methodInvalid
  | none =>
    if vm.publicKeyMultibase ≠ "" then (D.decodeMultibase vm.publicKeyMultibase).mapError methodInvalid
    else .error (methodInvalid ("verification method " ++ quoted vm.id ++ " carries no key material"))

/-- The key that a kid selects in the document of a DID. -/
def selectDocumentKey (doc : DIDDocument) (did kid : String) : Except Error (D.Key × Json) := do
  require ((did ++ "#").toList.isPrefixOf kid.toList = true)
    (methodInvalid ("kid " ++ quoted kid ++ " is not a fragment of " ++ quoted did))
  match doc.findAssertionMethod kid with
  | none => .error (methodInvalid ("kid " ++ quoted kid ++ " is not an assertionMethod of " ++ quoted did))
  | some vm =>
    require (vm.controller = "" ∨ vm.controller = did) (methodInvalid
      s!"verification method {quoted kid} is controlled by {quoted vm.controller}, not {quoted did}")
    let pub ← vm.key D
    return (pub, vm.raw)

/-- `VerifyProofs` of did:web, once the document is there. -/
def didWebKeys (doc : DIDDocument) (did : String) (parsed : List JWSProof) : Except Error (List ProvenKey) := do
  require (doc.id = did) (.validation "DID_DOCUMENT_ID_MISMATCH"
    s!"resolved document id {quoted doc.id} does not match {quoted did}")
  sealJWSProofs D parsed did (selectDocumentKey D doc did)

/-! ### The key of a did:key -/

/-- `DecodeDIDKey`: the key, and the only kid it has. -/
def decodeDIDKey (did : String) : Except String (D.Key × String) :=
  match cutPrefix "did:key:" did with
  | none => .error "crypto/jwk: invalid JWK: not a did:key identifier"
  | some msid => do
      require (msid ≠ "") "crypto/jwk: invalid JWK: not a did:key identifier"
      let pub ← D.decodeMultibase msid
      return (pub, did ++ "#" ++ msid)

/-- The verification method that is sealed for a did:key. -/
def didKeyMethod (did kid : String) : Json :=
  .object [("controller", .string did), ("id", .string kid),
    ("publicKeyMultibase", .string ((cutPrefix "did:key:" did).getD did)), ("type", .string "Multikey")]

def selectDIDKey (pub : D.Key) (did expectedKid kid : String) : Except Error (D.Key × Json) := do
  require (kid = expectedKid) (methodInvalid
    s!"kid {quoted kid} is not the did:key verification method {quoted expectedKid}")
  return (pub, didKeyMethod did expectedKid)

/-- `VerifyProofs` of did:key. -/
def didKeyKeys (did : String) (parsed : List JWSProof) : Except Error (List ProvenKey) := do
  let (pub, expectedKid) ← (decodeDIDKey D did).mapError badFormat
  sealJWSProofs D parsed did (selectDIDKey D pub did expectedKid)

/-! ### lei -/

inductive PresentationStatus where
  | authorized
  | pending
deriving DecidableEq, Repr

structure PresentationResult where
  subjectAID : String
  lei : String
  status : PresentationStatus
deriving DecidableEq, Repr

structure AuthorizationResult where
  authorized : Bool
  lei : String
deriving DecidableEq, Repr

/-- `strings.EqualFold`. -/
def equalFold (a b : String) : Bool := foldName a = foldName b

/-- The verification method that is sealed for a holder of a vLEI. -/
def leiMethod (aid : String) : Json :=
  .object [("id", .string aid), ("thumbprint", .string (D.thumbprint aid)), ("type", .string "vLEI-KERI-AID")]

/-! ### What an accepted submission proves -/

variable {D} {signingInput : String}

theorem decodeStandardJWS_of_parseJWSProof {jws : String} {seenKids : List String} {i : Nat} {proof : JWSProof}
    (h : parseJWSProof D signingInput seenKids jws i = .ok proof) :
    decodeStandardJWS D proof.jws = .ok (proof.header, signingInput) := by
  unfold parseJWSProof at h
  split at h
  · cases h
  · rename_i header payload hdecode
    simp only [bind_eq_ok_iff, require_eq_ok_iff, pure_eq_ok_iff] at h
    obtain ⟨_, rfl, _, _, _, _, rfl⟩ := h
    exact hdecode

theorem decodeStandardJWS_of_parseEach {items : List (String × Nat)} {seenKids : List String}
    {proofs : List JWSProof} (h : parseEachJWSProof D signingInput items seenKids = .ok proofs) :
    ∀ proof ∈ proofs, decodeStandardJWS D proof.jws = .ok (proof.header, signingInput) := by
  induction items generalizing seenKids proofs with
  | nil =>
    cases h
    exact forall_mem_nil _
  | cons item rest ih =>
    simp only [parseEachJWSProof, bind_eq_ok_iff, pure_eq_ok_iff] at h
    obtain ⟨proof, hproof, proofs', hrest, rfl⟩ := h
    exact forall_mem_cons.mpr ⟨decodeStandardJWS_of_parseJWSProof hproof, ih hrest⟩

/-- A submitted signature that is accepted carries the served input as its payload. -/
theorem decodeStandardJWS_of_parseJWSProofs {sub : ProofSubmission} {proofs : List JWSProof}
    (h : parseJWSProofs D sub signingInput = .ok proofs) :
    ∀ proof ∈ proofs, decodeStandardJWS D proof.jws = .ok (proof.header, signingInput) := by
  simp only [parseJWSProofs, bind_eq_ok_iff, require_eq_ok_iff] at h
  obtain ⟨_, _, _, _, heach⟩ := h
  exact decodeStandardJWS_of_parseEach heach

/-- A sealed key is the key that the kid of one of the proofs selects, and that proof verifies under it. -/
theorem mem_sealEachJWSProof {did : String} {selectKey : String → Except Error (D.Key × Json)}
    {items : List (JWSProof × Nat)} {keys : List ProvenKey} (h : sealEachJWSProof D did selectKey items = .ok keys) :
    ∀ key ∈ keys, ∃ item ∈ items, ∃ pub method, selectKey item.1.header.kid = .ok (pub, method) ∧
      D.verifyJWS pub item.1.jws = .ok () ∧ key = ⟨some method, item.1.jws⟩ := by
  induction items generalizing keys with
  | nil =>
    cases h
    exact forall_mem_nil _
  | cons item rest ih =>
    simp only [sealEachJWSProof, bind_eq_ok_iff, mapError_eq_ok_iff, pure_eq_ok_iff] at h
    obtain ⟨⟨pub, method⟩, hselect, _, hverify, keys', hrest, rfl⟩ := h
    intro key hkey
    rcases mem_cons.mp hkey with rfl | hkey
    · exact ⟨item, mem_cons_self, pub, method, hselect, hverify, rfl⟩
    · obtain ⟨item', hitem', hfacts⟩ := ih hrest key hkey
      exact ⟨item', mem_cons_of_mem item hitem', hfacts⟩

theorem selectDocumentKey_eq_ok_iff {doc : DIDDocument} {did kid : String} {pub : D.Key} {method : Json} :
    selectDocumentKey D doc did kid = .ok (pub, method) ↔ (did ++ "#").toList.isPrefixOf kid.toList = true ∧
      ∃ vm, doc.findAssertionMethod kid = some vm ∧ (vm.controller = "" ∨ vm.controller = did) ∧
        vm.key D = .ok pub ∧ vm.raw = method := by
  unfold selectDocumentKey
  simp only [bind_eq_ok_iff, require_eq_ok_iff, exists_and_left, exists_const]
  apply and_congr_right
  intro _
  cases doc.findAssertionMethod kid with
  | none => simp
  | some vm =>
    simp only [bind_eq_ok_iff, require_eq_ok_iff, pure_eq_ok_iff, Prod.mk.injEq,
      Option.some.injEq, exists_eq_left', exists_and_left, exists_const]
    constructor
    · rintro ⟨hcontroller, key, hkey, rfl, hmethod⟩
      exact ⟨hcontroller, hkey, hmethod⟩
    · rintro ⟨hcontroller, hkey, hmethod⟩
      exact ⟨hcontroller, pub, hkey, rfl, hmethod⟩

end AgentNameService.Identity
