/-
Purpose: The receipt verifier on COSE_Sign1 receipts: parsing, extraction of the inclusion proof from the
  unprotected header, the inclusion walk and the signature check.  The CBOR library and ECDSA are
  parameters.  The signature covers the protected header and the payload, so the module says exactly
  which receipts with those two and the signature unchanged are accepted.
Source: internal/tl/receipt/verify.go, internal/tl/receipt/constants.go
Trusted boundary: human-reviewed model (parseCOSESign1, normalizeIntMap, extractInclusionProof, verify)
-/
import AgentNameService.Foundation.Outcome
import AgentNameService.Receipt.InclusionWalk

namespace AgentNameService.Receipt

open Except List MerkleTree Sha256

/-! ### Decoded values -/

/-- A value the CBOR library decodes into `any`, with the map form that `normalizeIntMap` produces.
`other` stands for the remaining dynamic types and carries the type's name. -/
inductive Value where
  | uint64 (n : Nat)
  | int64 (n : Int)
  | bytes (b : Bytes)
  | byteSlices (items : List Bytes)
  | text (s : String)
  | array (items : List Value)
  | map (entries : List (Value × Value))
  | intMap (entries : List (Int × Value))
  | other (goType : String)

/-- The name of a value's dynamic type, as `%T` prints it. -/
def Value.goType : Value → String
  | .uint64 _ => "uint64"
  | .int64 _ => "int64"
  | .bytes _ => "[]uint8"
  | .byteSlices _ => "[][]uint8"
  | .text _ => "string"
  | .array _ => "[]interface \x7b\x7d"
  | .map _ => "map[interface \x7b\x7d]interface \x7b\x7d"
  | .intMap _ => "map[int]interface \x7b\x7d"
  | .other goType => goType

/-- `toInt`: narrow to a 64-bit `int`, with wrap-around; zero for a non-number. -/
def toInt : Value → Int
  | .int64 n => n
  | .uint64 n => if n % 2 ^ 64 < 2 ^ 63 then n % 2 ^ 64 else n % 2 ^ 64 - 2 ^ 64
  | _ => 0

/-- `toUint64`: narrow to `uint64`, with wrap-around; zero for a non-number. -/
def toUint64 : Value → Nat
  | .uint64 n => n
  | .int64 n => (n % 2 ^ 64).toNat
  | _ => 0

/-- `normalizeIntMap`, with the entries in the order in which the map is iterated. -/
def normalizeIntMap : List (Value × Value) → List (Int × Value)
  | [] => []
  | (key, .map nested) :: rest => (toInt key, .intMap (normalizeIntMap nested)) :: normalizeIntMap rest
  | (key, value) :: rest => (toInt key, value) :: normalizeIntMap rest

/-- Lookup in a map built by successive assignments: the last assignment to a key counts. -/
def lookupLabel (entries : List (Int × Value)) (label : Int) : Option Value :=
  entries.reverse.lookup label

/-- `toByteSlices`. -/
def toByteSlices : Value → Except String (List Bytes)
  | .byteSlices items => .ok items
  | .array items => collect 0 items
  | value => .error s!"hashPath unexpected type {value.goType}"
where
  /-- The loop over the array, from index `i`. -/
  collect (i : Nat) : List Value → Except String (List Bytes)
    | [] => .ok []
    | .bytes b :: rest => (collect (i + 1) rest).map (b :: ·)
    | _ :: _ => .error s!"path element {i} is not bytes"

/-! ### The inclusion proof -/

def labelVDP : Int := 396
def inclusionProofTreeSize : Int := -1
def inclusionProofLeafIndex : Int := -2
def inclusionProofHashPath : Int := -3
def inclusionProofRootHash : Int := -4

/-- `extractedProof`. -/
structure ExtractedProof where
  treeSize : Nat
  leafIndex : Nat
  path : List Bytes
  rootHash : Bytes
deriving DecidableEq

/-- `extractInclusionProof`. -/
def extractInclusionProof (unprotected : List (Int × Value)) : Except String ExtractedProof :=
  match lookupLabel unprotected labelVDP with
  | none => .error s!"unprotected header missing VDP (label {labelVDP})"
  | some (.intMap vdp) => do
      let treeSize ← (lookupLabel vdp inclusionProofTreeSize).elim (.error "VDP missing treeSize") .ok
      let leafIndex ← (lookupLabel vdp inclusionProofLeafIndex).elim (.error "VDP missing leafIndex") .ok
      let pathRaw ← (lookupLabel vdp inclusionProofHashPath).elim (.error "VDP missing hashPath") .ok
      let path ← (toByteSlices pathRaw).withContext "VDP hashPath"
      let rootRaw ← (lookupLabel vdp inclusionProofRootHash).elim (.error "VDP missing rootHash") .ok
      match rootRaw with
      | .bytes rootHash =>
        pure { treeSize := toUint64 treeSize, leafIndex := toUint64 leafIndex, path, rootHash }
      | _ => .error "VDP rootHash is not bytes"
  | some _ => .error "VDP is not a map"

/-! ### Parsing -/

/-- The CBOR library, by the targets the verifier decodes into and the values it encodes. -/
structure Cbor where
  /-- Decode into `cbor.Tag`. -/
  unmarshalTag : Bytes → Except String (Nat × Value)
  /-- Decode into `[]cbor.RawMessage`. -/
  unmarshalRaw : Bytes → Except String (List Bytes)
  /-- Decode into `[]byte`. -/
  unmarshalBytes : Bytes → Except String Bytes
  /-- Decode into `*[]byte`; `none` is the nil pointer. -/
  unmarshalBytesPtr : Bytes → Except String (Option Bytes)
  /-- Decode into `map[any]any`; entries in iteration order. -/
  unmarshalMap : Bytes → Except String (List (Value × Value))
  /-- `cbor.Marshal`. -/
  marshal : Value → Except String Bytes
  /-- Encode with core deterministic options. -/
  detMarshal : Value → Except String Bytes

/-- `coseSign1Parsed`. -/
structure CoseSign1Parsed where
  protectedBytes : Bytes
  unprotected : List (Int × Value)
  payload : Bytes
  signature : Bytes

section Verify

variable (cbor : Cbor)

/-- `decodeCOSERaw`. -/
def decodeCOSERaw (arr : List Bytes) : Except String CoseSign1Parsed :=
  match arr with
  | [arr0, arr1, arr2, arr3] => do
      let protectedBytes ← (cbor.unmarshalBytes arr0).withContext "protected header"
      let rawUnp ← (cbor.unmarshalMap arr1).withContext "unprotected header"
      -- a payload that does not decode is treated like a detached one
      let payload := match cbor.unmarshalBytesPtr arr2 with
        | .ok (some payload) => payload
        | _ => []
      let signature ← (cbor.unmarshalBytes arr3).withContext "signature"
      pure { protectedBytes, unprotected := normalizeIntMap rawUnp, payload, signature }
  | _ => .error s!"COSE_Sign1 must have 4 elements, got {arr.length}"

/-- `decodeCOSEContent`: the tag's content is encoded again and split into raw elements. -/
def decodeCOSEContent (content : Value) : Except String CoseSign1Parsed := do
  let re ← cbor.marshal content
  let arr ← cbor.unmarshalRaw re
  decodeCOSERaw cbor arr

/-- `parseCOSESign1`. -/
def parseCOSESign1 (data : Bytes) : Except String CoseSign1Parsed :=
  match cbor.unmarshalTag data with
  | .ok (18, content) => decodeCOSEContent cbor content
  | _ => do
      let arr ← (cbor.unmarshalRaw data).withContext "data is neither tag-18 nor CBOR array"
      decodeCOSERaw cbor arr

/-! ### Verification -/

variable {PublicKey : Type} (ecdsaVerify : PublicKey → Digest → (r s : Nat) → Bool)

/-- `big.Int.SetBytes`: a big-endian natural number. -/
def setBytes (b : Bytes) : Nat := b.foldl (fun acc byte => acc * 256 + byte.toNat) 0

/-- `verifySignature`: the signature is over the protected header and the payload. -/
def verifySignature (parsed : CoseSign1Parsed) (pub : PublicKey) : Except String Unit := do
  let sigBytes ← (cbor.detMarshal (.array [.text "Signature1", .bytes parsed.protectedBytes, .bytes [],
    .bytes parsed.payload])).withContext "encode Sig_structure"
  require (parsed.signature.length = 64)
    s!"invalid ES256 signature length {parsed.signature.length}"
  require
    (ecdsaVerify pub (sum256 sigBytes) (setBytes (parsed.signature.take 32))
      (setBytes (parsed.signature.drop 32)) = true)
    "ECDSA signature invalid"

/-- The checks of `Verify` on the extracted proof: the path walks from the payload's leaf hash to the
asserted root. -/
def checkProof (payload : Bytes) (proof : ExtractedProof) : Except String Unit := do
  let computedRoot ← (rfc9162RootFromProof (rfc9162LeafHash payload) proof.leafIndex proof.treeSize
    proof.path).withContext "receipt: walk inclusion proof"
  require (proof.rootHash.length = 32)
    s!"receipt: invalid root hash length {proof.rootHash.length}"
  require (computedRoot.val = proof.rootHash)
    "receipt: computed root does not match proof root"

/-- `Verify`. -/
def verify (receiptBytes : Bytes) (publicKey : PublicKey) : Except String Unit := do
  let parsed ← (parseCOSESign1 cbor receiptBytes).withContext "receipt: parse"
  require (parsed.payload.length ≠ 0) "receipt: detached payloads not supported in this TL"
  let proof ← (extractInclusionProof parsed.unprotected).withContext "receipt: extract proof"
  checkProof parsed.payload proof
  verifySignature cbor ecdsaVerify parsed publicKey

/-- `ExtractPayload`. -/
def extractPayload (receiptBytes : Bytes) : Except String Bytes := do
  let parsed ← (parseCOSESign1 cbor receiptBytes).withContext "receipt: parse"
  require (parsed.payload.length ≠ 0) "receipt: no attached payload"
  pure parsed.payload

end Verify

/-! ### What acceptance means -/

/-- The proof is self-consistent: its path walks from the payload's leaf hash to its own root. -/
def ProofWalks (payload : Bytes) (proof : ExtractedProof) : Prop :=
  ∃ root, rfc9162RootFromProof (rfc9162LeafHash payload) proof.leafIndex proof.treeSize proof.path =
    .ok root ∧ root.val = proof.rootHash

theorem checkProof_eq_ok_iff {payload : Bytes} {proof : ExtractedProof} {u : Unit} :
    checkProof payload proof = .ok u ↔ ProofWalks payload proof := by
  simp only [checkProof, bind_eq_ok_iff, withContext_eq_ok_iff, require_eq_ok_iff,
    ProofWalks]
  refine exists_congr fun root => and_congr_right fun _ => ?_
  constructor
  · rintro ⟨_, _, same⟩
    exact same
  · intro same
    exact ⟨u, by rw [← same]; exact root.property, same⟩

section Acceptance

variable {cbor : Cbor} {PublicKey : Type} {ecdsaVerify : PublicKey → Digest → (r s : Nat) → Bool}

/-- A parsed receipt is accepted exactly when it has a payload, a self-consistent proof and a valid
signature. -/
theorem verify_eq_ok_iff {receipt : Bytes} {parsed : CoseSign1Parsed} (pub : PublicKey)
    (parses : parseCOSESign1 cbor receipt = .ok parsed) : verify cbor ecdsaVerify receipt pub = .ok () ↔
      parsed.payload.length ≠ 0 ∧ (∃ proof, extractInclusionProof parsed.unprotected = .ok proof ∧
          ProofWalks parsed.payload proof) ∧ verifySignature cbor ecdsaVerify parsed pub = .ok () := by
  simp only [verify, parses, bind_eq_ok_iff, withContext_eq_ok_iff,
    require_eq_ok_iff, checkProof_eq_ok_iff, ok.injEq]
  constructor
  · rintro ⟨_, rfl, _, payload, proof, extracted, _, walks, signed⟩
    exact ⟨payload, ⟨proof, extracted, walks⟩, signed⟩
  · rintro ⟨payload, ⟨proof, extracted, walks⟩, signed⟩
    exact ⟨parsed, rfl, (), payload, proof, extracted, (), walks, signed⟩

/-- What the signature leaves open.  Let a receipt be accepted and let a second one have the same
protected header, payload and signature.  The second one is accepted exactly when the inclusion proof it
carries is self-consistent; so a change of the root hash alone is always rejected. -/
theorem verify_altered_proof {pub : PublicKey} {receipt receipt' : Bytes} {parsed parsed' : CoseSign1Parsed}
    (parses : parseCOSESign1 cbor receipt = .ok parsed) (parses' : parseCOSESign1 cbor receipt' = .ok parsed')
    (sameProtected : parsed'.protectedBytes = parsed.protectedBytes) (samePayload : parsed'.payload = parsed.payload)
    (sameSignature : parsed'.signature = parsed.signature) (accepted : verify cbor ecdsaVerify receipt pub = .ok ()) :
    (verify cbor ecdsaVerify receipt' pub = .ok () ↔ ∃ proof', extractInclusionProof parsed'.unprotected = .ok proof' ∧
          ProofWalks parsed.payload proof') ∧ ∀ proof proof', extractInclusionProof parsed.unprotected = .ok proof →
        extractInclusionProof parsed'.unprotected = .ok proof' →
        proof'.treeSize = proof.treeSize → proof'.leafIndex = proof.leafIndex →
        proof'.path = proof.path → proof'.rootHash ≠ proof.rootHash →
        verify cbor ecdsaVerify receipt' pub ≠ .ok () := by
  obtain ⟨payload, ⟨original, extracted, walks⟩, signed⟩ := (verify_eq_ok_iff pub parses).mp accepted
  -- the check reads the protected header, the payload and the signature only
  have signature : verifySignature cbor ecdsaVerify parsed' pub = verifySignature cbor ecdsaVerify parsed pub := by
    unfold verifySignature
    rw [sameProtected, samePayload, sameSignature]
  have altered : verify cbor ecdsaVerify receipt' pub = .ok () ↔
      ∃ proof', extractInclusionProof parsed'.unprotected = .ok proof' ∧
        ProofWalks parsed.payload proof' := by
    rw [verify_eq_ok_iff pub parses', signature, samePayload]
    exact ⟨fun h => h.2.1, fun h => ⟨payload, h, signed⟩⟩
  refine ⟨altered, ?_⟩
  intro proof proof' isProof isProof' sameSize sameIndex samePath otherRoot accepted'
  obtain ⟨proof'', isProof'', walks'⟩ := altered.mp accepted'
  obtain rfl : original = proof := ok.inj (extracted.symm.trans isProof)
  obtain rfl : proof'' = proof' := ok.inj (isProof''.symm.trans isProof')
  obtain ⟨root, computed, root_eq⟩ := walks
  obtain ⟨root', computed', root_eq'⟩ := walks'
  rw [sameSize, sameIndex, samePath, computed] at computed'
  obtain rfl := ok.inj computed'
  exact otherRoot (root_eq'.symm.trans root_eq)

/-- A walk that ends has met digests only. -/
theorem exists_digests {path : List Bytes} {fn sn : Nat} {r root : Digest} (h : walkPath path fn sn r = .ok root) :
    ∃ digests : List Digest, path = digests.map Subtype.val := by
  induction path generalizing fn sn r with
  | nil => exact ⟨[], rfl⟩
  | cons p path ih =>
    rw [walkPath] at h
    split at h
    · cases h
    · rename_i sized
      obtain ⟨digests, rfl⟩ : ∃ digests : List Digest, path = digests.map Subtype.val := by split at h <;> exact ih h
      exact ⟨⟨p, not_not.mp sized⟩ :: digests, rfl⟩

end Acceptance

/-! ### Receipts that differ in the proof only -/

/-- The decoded unprotected header of a proof, as the generator lays it out. -/
def vdpHeader (proof : ExtractedProof) : List (Value × Value) :=
  [(.uint64 396,
    .map [(.int64 (-1), .uint64 proof.treeSize), (.int64 (-2), .uint64 proof.leafIndex),
      (.int64 (-3), .array (proof.path.map .bytes)), (.int64 (-4), .bytes proof.rootHash)])]

theorem toByteSlices_collect (i : Nat) (path : List Bytes) : toByteSlices.collect i (path.map .bytes) = .ok path := by
  induction path generalizing i with
  | nil => rfl
  | cons b path ih => simp [toByteSlices.collect, ih, Except.map]

/-- Extraction returns the proof that was laid out. -/
theorem extract_vdpHeader (proof : ExtractedProof) :
    extractInclusionProof (normalizeIntMap (vdpHeader proof)) = .ok proof := by
  have path : toByteSlices (.array (proof.path.map .bytes)) = .ok proof.path :=
    toByteSlices_collect 0 proof.path
  simp [extractInclusionProof, normalizeIntMap, vdpHeader, lookupLabel, toInt, labelVDP, toUint64, path,
    inclusionProofTreeSize, inclusionProofLeafIndex, inclusionProofHashPath, inclusionProofRootHash,
    lookup_cons]

/-- The proof of a log whose only entry is the byte `0x2a`. -/
def singleEntryProof : ExtractedProof :=
  { treeSize := 1, leafIndex := 0, path := [], rootHash := (rfc9162LeafHash [0x2a]).val }

/-- A proof for the same entry in a log of two entries, with a made-up sibling. -/
def inventedProof : ExtractedProof :=
  { treeSize := 2
    leafIndex := 0
    path := [replicate 32 0]
    rootHash := (hashChildren (rfc9162LeafHash [0x2a]).val (replicate 32 0)).val }

/-- A wire format in which the receipt's bytes select one of the two proofs. -/
def twoProofCbor : Cbor where
  unmarshalTag _ := .error "not a tag"
  unmarshalRaw data := .ok [[0x10], data, [0x12], [0x13]]
  unmarshalBytes data := .ok (if data = [0x10] then [0xa1] else replicate 64 0)
  unmarshalBytesPtr _ := .ok (some [0x2a])
  unmarshalMap data := .ok (vdpHeader (if data = [0x00] then singleEntryProof else inventedProof))
  marshal _ := .error "unsupported"
  detMarshal
    | .array [.text _, .bytes protectedBytes, .bytes _, .bytes payload] =>
      .ok (protectedBytes ++ payload)
    | _ => .error "unsupported"

/-- A verifier for a key that has signed a single digest, and for which nothing else verifies. -/
def oneSignatureVerify (_ : Unit) (digest : Digest) (r s : Nat) : Bool :=
  digest = sum256 [0xa1, 0x2a] ∧ r = 0 ∧ s = 0

/-- What a receipt of the sample format parses to. -/
def sampleParsed (proof : ExtractedProof) : CoseSign1Parsed :=
  { protectedBytes := [0xa1]
    unprotected := normalizeIntMap (vdpHeader proof)
    payload := [0x2a]
    signature := replicate 64 0 }

theorem parse_sample (data : Bytes) : parseCOSESign1 twoProofCbor data =
      .ok (sampleParsed (if data = [0x00] then singleEntryProof else inventedProof)) := rfl

theorem verifySignature_sample (proof : ExtractedProof) :
    verifySignature twoProofCbor oneSignatureVerify (sampleParsed proof) () = .ok () := by
  simp [verifySignature, twoProofCbor, sampleParsed, oneSignatureVerify, setBytes, withContext,
    Except.mapError, require, bind, Except.bind]

theorem verify_sample {data : Bytes} {proof : ExtractedProof}
    (selected : (if data = [0x00] then singleEntryProof else inventedProof) = proof) (walks : ProofWalks [0x2a] proof) :
    verify twoProofCbor oneSignatureVerify data () = .ok () := by
  have parses := parse_sample data
  rw [selected] at parses
  exact (verify_eq_ok_iff () parses).mpr
    ⟨by simp [sampleParsed], ⟨proof, extract_vdpHeader proof, walks⟩, verifySignature_sample proof⟩

theorem singleEntryProof_walks : ProofWalks [0x2a] singleEntryProof := ⟨_, rfl, rfl⟩

theorem inventedProof_walks : ProofWalks [0x2a] inventedProof := ⟨_, rfl, rfl⟩

/-- Even for a key under which a single signature verifies, an accepted receipt can be given another
tree size, path and root. -/
theorem accepted_receipt_with_invented_proof :
    ∃ receipt receipt' : Bytes, ∃ parsed parsed' : CoseSign1Parsed, ∃ proof proof' : ExtractedProof,
      (∀ digest r s, oneSignatureVerify () digest r s = true ↔ digest = sum256 [0xa1, 0x2a] ∧ r = 0 ∧ s = 0) ∧
      parseCOSESign1 twoProofCbor receipt = .ok parsed ∧ parseCOSESign1 twoProofCbor receipt' = .ok parsed' ∧
      parsed'.protectedBytes = parsed.protectedBytes ∧ parsed'.payload = parsed.payload ∧
      parsed'.signature = parsed.signature ∧ extractInclusionProof parsed.unprotected = .ok proof ∧
      extractInclusionProof parsed'.unprotected = .ok proof' ∧ proof' ≠ proof ∧
      verify twoProofCbor oneSignatureVerify receipt () = .ok () ∧
      verify twoProofCbor oneSignatureVerify receipt' () = .ok () :=
  ⟨[0x00], [0x01], sampleParsed singleEntryProof, sampleParsed inventedProof,
    singleEntryProof, inventedProof, by simp [oneSignatureVerify], parse_sample [0x00],
    parse_sample [0x01], rfl, rfl, rfl, extract_vdpHeader _, extract_vdpHeader _,
    by simp [singleEntryProof, inventedProof], verify_sample rfl singleEntryProof_walks,
    verify_sample rfl inventedProof_walks⟩

/-- The two sample receipts meet every premise of the general statement. -/
theorem verify_altered_proof_sample : verify twoProofCbor oneSignatureVerify [0x01] () = .ok () ↔
      ∃ proof', extractInclusionProof (sampleParsed inventedProof).unprotected = .ok proof' ∧
        ProofWalks [0x2a] proof' :=
  (verify_altered_proof (parse_sample [0x00]) (parse_sample [0x01]) rfl rfl rfl
    (verify_sample rfl singleEntryProof_walks)).1

end AgentNameService.Receipt
