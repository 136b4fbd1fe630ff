/-
Purpose: The receipt generator, and the round trip through the verifier.  The generator writes Go values with integer
  labels, and the verifier reads what the library decodes them to; the two are joined by the data items that the bytes
  stand for.  The generator takes a DER signature apart and writes both scalars with a fixed width.
Source: internal/tl/receipt/generator.go, internal/tl/receipt/verify.go (ExtractKID), internal/crypto/p1363.go (DERToP1363),
  internal/crypto/keyhash.go (SPKIKeyHash4)
Trusted boundary: human-reviewed model (generateReceipt, derToP1363, extractKID); a hash path is a slice that is not nil,
  as the receipt service makes it; the library's limits on nesting and on numbers of elements are not modelled.
-/
import AgentNameService.Foundation.CborItem
import AgentNameService.Receipt.ProofFields
import Mathlib.Data.Nat.Digits.Lemmas

namespace AgentNameService.Receipt

open List Except CborItem MerkleTree Sha256

/-! ### Signatures -/

/-- Go's cryptographic library, for keys on elliptic curves. -/
structure Crypto (PublicKey : Type) where
  /-- `ecdsa.Verify`. -/
  ecdsaVerify : PublicKey → Digest → (r s : Nat) → Bool
  /-- `Curve.Params().BitSize`. -/
  bitSize : PublicKey → Nat
  /-- `x509.MarshalPKIXPublicKey`. -/
  marshalPKIXPublicKey : PublicKey → Except String Bytes
  /-- `asn1.Unmarshal` into two integers; the last part is the rest of the input. -/
  asn1Unmarshal : Bytes → Except String (Int × Int × Bytes)

/-- `big.Int.Bytes`: big-endian, without leading zeros. -/
def bigIntBytes (n : Nat) : Bytes := ((Nat.digits 256 n).map UInt8.ofNat).reverse

/-- A scalar at the end of a field of zeros. -/
def padScalar (coordBytes : Nat) (scalar : Bytes) : Bytes := replicate (coordBytes - scalar.length) 0 ++ scalar

section Signatures

variable {PublicKey : Type} (crypto : Crypto PublicKey)

/-- `DERToP1363`. -/
def derToP1363 (derSig : Bytes) (coordBytes : Nat) : Except String Bytes := do
  require (0 < coordBytes) s!"crypto: coordBytes must be positive, got {coordBytes}"
  let (r, s, rest) ← (crypto.asn1Unmarshal derSig).withContext "crypto: unmarshal DER signature"
  require (rest.length = 0) "crypto: trailing bytes after DER signature"
  require (0 < r ∧ 0 < s) "crypto: invalid ECDSA scalars"
  let rBytes := bigIntBytes r.natAbs
  let sBytes := bigIntBytes s.natAbs
  require (rBytes.length ≤ coordBytes ∧ sBytes.length ≤ coordBytes)
    s!"crypto: ECDSA scalar exceeds {coordBytes} bytes"
  pure (padScalar coordBytes rBytes ++ padScalar coordBytes sBytes)

/-- `SPKIKeyHash4`: the first four bytes of the digest.  That they pass through a big-endian `uint32` changes nothing. -/
def spkiKeyHash4 (pub : PublicKey) : Except String Bytes := do
  let der ← (crypto.marshalPKIXPublicKey pub).withContext "crypto: marshal SPKI"
  pure ((sum256 der).val.take 4)

end Signatures

/-- The number of a scalar's bytes. -/
theorem setBytes_bigIntBytes (n : Nat) : setBytes (bigIntBytes n) = n := by
  have hfold : ∀ digits : List Nat, (∀ d ∈ digits, d < 256) →
      setBytes ((digits.map UInt8.ofNat).reverse) = Nat.ofDigits 256 digits := by
    intro digits hdigits
    induction digits with
    | nil => rfl
    | cons d rest ih =>
      have hd : d < 256 := hdigits d mem_cons_self
      have hbyte : (UInt8.ofNat d).toNat = d := by
        rw [UInt8.toNat_ofNat']
        omega
      have hrest := ih fun e he => hdigits e (mem_cons_of_mem _ he)
      rw [map_cons, reverse_cons, Nat.ofDigits_cons, ← hrest]
      change ofBigEndian (_ ++ [_]) = _
      rw [ofBigEndian_concat, hbyte]
      change setBytes _ * 256 + d = d + 256 * setBytes _
      omega
  rw [bigIntBytes, hfold _ fun d hd => Nat.digits_lt_base (by omega) hd, Nat.ofDigits_digits]

theorem length_bigIntBytes_le_iff {n : Nat} : (bigIntBytes n).length ≤ 32 ↔ n < 2 ^ 256 := by
  rw [bigIntBytes, length_reverse, length_map, Nat.digits_length_le_iff (by omega)]
  exact Iff.rfl

theorem length_padScalar {coordBytes : Nat} {scalar : Bytes} (h : scalar.length ≤ coordBytes) :
    (padScalar coordBytes scalar).length = coordBytes := by
  rw [padScalar, length_append, length_replicate]
  omega

theorem setBytes_padScalar (coordBytes n : Nat) : setBytes (padScalar coordBytes (bigIntBytes n)) = n := by
  have hzeros : setBytes (padScalar coordBytes (bigIntBytes n)) = setBytes (bigIntBytes n) :=
    ofBigEndian_zeros _ _
  rw [hzeros, setBytes_bigIntBytes]

theorem derToP1363_eq_ok_iff {PublicKey : Type} {crypto : Crypto PublicKey} {der sig : Bytes} :
    derToP1363 crypto der 32 = .ok sig ↔ ∃ r s : Int, crypto.asn1Unmarshal der = .ok (r, s, []) ∧ (0 < r ∧ 0 < s) ∧
      (r.natAbs < 2 ^ 256 ∧ s.natAbs < 2 ^ 256) ∧
      padScalar 32 (bigIntBytes r.natAbs) ++ padScalar 32 (bigIntBytes s.natAbs) = sig := by
  simp only [derToP1363, bind_eq_ok_iff, require_eq_ok_iff, withContext_eq_ok_iff, pure_eq_ok_iff,
    length_bigIntBytes_le_iff, length_eq_zero_iff]
  constructor
  · rintro ⟨_, _, ⟨r, s, rest⟩, hread, _, rfl, _, hpos, _, hfit, heq⟩
    exact ⟨r, s, hread, hpos, hfit, heq⟩
  · rintro ⟨r, s, hread, hpos, hfit, heq⟩
    exact ⟨(), by omega, (r, s, []), hread, (), rfl, (), hpos, (), hfit, heq⟩

/-- A signature whose scalars fit is converted, and both halves stand for the scalars, however short they are. -/
theorem derToP1363_eq {PublicKey : Type} {crypto : Crypto PublicKey} {derSig : Bytes} {r s : Nat}
    (hder : crypto.asn1Unmarshal derSig = .ok (r, s, [])) (hr : 0 < r) (hs : 0 < s) (hr' : r < 2 ^ 256) (hs' : s < 2 ^ 256) :
    ∃ sig, derToP1363 crypto derSig 32 = .ok sig ∧ sig.length = 64 ∧ setBytes (sig.take 32) = r ∧
      setBytes (sig.drop 32) = s := by
  have hrpad := length_padScalar (length_bigIntBytes_le_iff.mpr hr')
  refine ⟨padScalar 32 (bigIntBytes r) ++ padScalar 32 (bigIntBytes s), ?_, ?_, ?_, ?_⟩
  · have hpos : 0 < (r : Int) ∧ 0 < (s : Int) := ⟨by omega, by omega⟩
    exact derToP1363_eq_ok_iff.mpr ⟨r, s, hder, hpos, ⟨hr', hs'⟩, rfl⟩
  · rw [length_append, hrpad, length_padScalar (length_bigIntBytes_le_iff.mpr hs')]
  · rw [take_left' hrpad, setBytes_padScalar]
  · rw [drop_left' hrpad, setBytes_padScalar]

/-! ### The generator -/

/-- `crypto.PublicKey`: a key on an elliptic curve, or one of another dynamic type. -/
inductive CryptoPublicKey (PublicKey : Type) where
  | ecdsa (pub : PublicKey)
  | other (goType : String)

/-- What the generator uses of `port.KeyManager`. -/
structure KeyManager (PublicKey : Type) where
  getPublicKey : (keyID : String) → Except String (CryptoPublicKey PublicKey)
  sign : (keyID : String) → Digest → Except String Bytes

/-- `KeyManagerGenerator`; `now` is what its clock reads. -/
structure KeyManagerGenerator (PublicKey : Type) where
  km : KeyManager PublicKey
  keyID : String
  pub : PublicKey
  keyHash : Bytes
  issuer : String
  now : Int64

/-- The CBOR library with what the generator encodes, and the target that `ExtractKID` decodes into. -/
structure ReceiptCbor extends Cbor where
  /-- Encode `cbor.Tag` with core deterministic options. -/
  detMarshalTag : (number : Nat) → Value → Except String Bytes
  /-- Decode into `map[int]any`; entries in iteration order. -/
  unmarshalIntMap : Bytes → Except String (List (Int × Value))

def labelAlg : Int := 1
def labelKID : Int := 4
def labelCWTClaims : Int := 15
def labelVDS : Int := 395
def algES256 : Int := -7
def vdsRFC9162SHA256 : Int := 1
def cwtIss : Int := 1
def cwtIat : Int := 6

/-- `InclusionProof`. -/
structure InclusionProof where
  treeSize : Nat
  leafIndex : Nat
  path : List Bytes
  rootHash : Bytes

section Generate

variable {PublicKey : Type} (crypto : Crypto PublicKey)

/-- `NewKeyManagerGenerator`. -/
def newKeyManagerGenerator (km : Option (KeyManager PublicKey)) (keyID issuer : String) (now : Int64) :
    Except String (KeyManagerGenerator PublicKey) :=
  match km with
  | none => .error "receipt: key manager required"
  | some km => do
      require (keyID ≠ "") "receipt: keyID required"
      let pub ← (km.getPublicKey keyID).withContext ("receipt: resolve key \"" ++ keyID ++ "\"")
      match pub with
      | .other goType => .error ("receipt: key \"" ++ keyID ++ "\" is not ECDSA (" ++ goType ++ ")")
      | .ecdsa ecPub => do
          require (crypto.bitSize ecPub = 256)
            ("receipt: key \"" ++ keyID ++ "\" must be P-256 for ES256 (got " ++ toString (crypto.bitSize ecPub) ++ "-bit)")
          let kh ← (spkiKeyHash4 crypto ecPub).withContext "receipt: key hash"
          pure { km, keyID, pub := ecPub, keyHash := kh, issuer, now }

/-- The map of the protected header. -/
def protectedMap (g : KeyManagerGenerator PublicKey) : Value :=
  .intMap [(labelAlg, .int64 algES256), (labelKID, .bytes g.keyHash), (labelVDS, .int64 vdsRFC9162SHA256),
    (labelCWTClaims, .intMap [(cwtIss, .text g.issuer), (cwtIat, .int64 g.now.toInt)])]

/-- The map of the unprotected header. -/
def unprotectedMap (proof : InclusionProof) : Value :=
  .intMap [(labelVDP, .intMap [(inclusionProofTreeSize, .uint64 proof.treeSize),
    (inclusionProofLeafIndex, .uint64 proof.leafIndex), (inclusionProofHashPath, .byteSlices proof.path),
    (inclusionProofRootHash, .bytes proof.rootHash)])]

/-- `GenerateReceipt`. -/
def generateReceipt (cbor : ReceiptCbor) (g : KeyManagerGenerator PublicKey) (proof : Option InclusionProof)
    (eventBytes : Bytes) : Except String Bytes :=
  match proof with
  | none => .error "receipt: proof required"
  | some proof => do
      require (eventBytes.length ≠ 0) "receipt: eventBytes required (detached payloads not supported)"
      let protectedBytes ← (cbor.detMarshal (protectedMap g)).withContext "receipt: encode protected header"
      let sigStructureBytes ← (cbor.detMarshal (.array [.text "Signature1", .bytes protectedBytes, .bytes [],
        .bytes eventBytes])).withContext "receipt: encode Sig_structure"
      let derSig ← (g.km.sign g.keyID (sum256 sigStructureBytes)).withContext "receipt: sign"
      let p1363Sig ← (derToP1363 crypto derSig 32).withContext "receipt: DER→P1363"
      cbor.detMarshalTag 18 (.array [.bytes protectedBytes, unprotectedMap proof, .bytes eventBytes, .bytes p1363Sig])

end Generate

/-- `ExtractKID`. -/
def extractKID (cbor : ReceiptCbor) (receiptBytes : Bytes) : Except String Bytes := do
  let parsed ← (parseCOSESign1 cbor.toCbor receiptBytes).withContext "receipt: parse"
  let prot ← (cbor.unmarshalIntMap parsed.protectedBytes).withContext "receipt: parse protected header"
  match lookupLabel prot labelKID with
  | none => .error "receipt: no kid in protected header"
  | some (.bytes kid) => .ok kid
  | some value => .error s!"receipt: kid is not []byte (type {value.goType})"

/-! ### Values and data items -/

/-- The item of an integer. -/
def intItem (n : Int) : CborItem := if 0 ≤ n then .unsigned n.toNat else .negative (-1 - n).toNat

/-- The item of a key; only integers are written as keys. -/
def keyItem : Value → Option CborItem
  | .uint64 n => some (.unsigned n)
  | .int64 n => some (intItem n)
  | _ => none

mutual
/-- The item that a value is written as. -/
def Value.toItem : Value → Option CborItem
  | .uint64 n => some (.unsigned n)
  | .int64 n => some (intItem n)
  | .bytes b => some (.bytes b)
  | .byteSlices items => some (.array (items.map .bytes))
  | .text s => some (.text s)
  | .array items => (itemsOf items).map .array
  | .map entries => (entriesOf entries).map .map
  | .intMap entries => (intEntriesOf entries).map .map
  | .other _ => none

def itemsOf : List Value → Option (List CborItem)
  | [] => some []
  | value :: rest => do
      let item ← value.toItem
      let items ← itemsOf rest
      some (item :: items)

def entriesOf : List (Value × Value) → Option (List (CborItem × CborItem))
  | [] => some []
  | (key, value) :: rest => do
      let label ← keyItem key
      let item ← value.toItem
      let items ← entriesOf rest
      some ((label, item) :: items)

def intEntriesOf : List (Int × Value) → Option (List (CborItem × CborItem))
  | [] => some []
  | (label, value) :: rest => do
      let item ← value.toItem
      let items ← intEntriesOf rest
      some ((intItem label, item) :: items)
end

mutual
/-- What an item is decoded to. -/
def Value.ofItem : CborItem → Value
  | .unsigned n => .uint64 n
  | .negative n => if n < 2 ^ 63 then .int64 (-1 - n) else .other "big.Int"
  | .bytes b => .bytes b
  | .text s => .text s
  | .array items => .array (valuesOf items)
  | .map entries => .map (valueEntriesOf entries)
  | .tag _ _ => .other "cbor.Tag"

def valuesOf : List CborItem → List Value
  | [] => []
  | item :: rest => Value.ofItem item :: valuesOf rest

def valueEntriesOf : List (CborItem × CborItem) → List (Value × Value)
  | [] => []
  | (key, item) :: rest => (Value.ofItem key, Value.ofItem item) :: valueEntriesOf rest
end

/-- The key of an entry is a machine integer. -/
def IntKey (key : CborItem) : Prop := ∃ label : Int, -2 ^ 63 ≤ label ∧ label < 2 ^ 63 ∧ key = intItem label

mutual
/-- Made of machine integers, strings, arrays and maps with integer keys. -/
def Plainly : CborItem → Prop
  | .unsigned _ | .bytes _ | .text _ => True
  | .negative n => n < 2 ^ 63
  | .array items => PlainlyItems items
  | .map entries => PlainlyEntries entries
  | .tag _ _ => False

def PlainlyItems : List CborItem → Prop
  | [] => True
  | item :: rest => Plainly item ∧ PlainlyItems rest

def PlainlyEntries : List (CborItem × CborItem) → Prop
  | [] => True
  | (key, item) :: rest => IntKey key ∧ Plainly item ∧ PlainlyEntries rest
end

/-- The encoder and the decoder are inverse to each other: what is written stands for the item of the value, in as few
bytes as the item takes, and what stands for an item is read as that item in every target, maps in any order. -/
structure Inverse (cbor : ReceiptCbor) (Encodes : Bytes → CborItem → Prop) : Prop where
  detMarshal : ∀ v item, v.toItem = some item → item.Valid →
    ∃ data, cbor.detMarshal v = .ok data ∧ Encodes data item ∧ data.length = item.encode.length
  detMarshalTag : ∀ number v item, v.toItem = some item → number < 2 ^ 64 → item.Valid →
    ∃ data, cbor.detMarshalTag number v = .ok data ∧ Encodes data (.tag number item)
  unmarshalTag : ∀ data number item, Encodes data (.tag number item) → Plainly item →
    ∃ content re, cbor.unmarshalTag data = .ok (number, content) ∧ cbor.marshal content = .ok re ∧ Encodes re item
  unmarshalRaw : ∀ data items, Encodes data (.array items) →
    ∃ arr, cbor.unmarshalRaw data = .ok arr ∧ Forall₂ Encodes arr items
  unmarshalBytes : ∀ data b, Encodes data (.bytes b) → cbor.unmarshalBytes data = .ok b
  unmarshalBytesPtr : ∀ data b, Encodes data (.bytes b) → cbor.unmarshalBytesPtr data = .ok (some b)
  unmarshalMap : ∀ data entries, Encodes data (.map entries) → PlainlyEntries entries →
    ∃ raw, cbor.unmarshalMap data = .ok raw ∧ (Value.map (valueEntriesOf entries)).Reorders (.map raw)
  unmarshalIntMap : ∀ data entries, Encodes data (.map entries) → PlainlyEntries entries →
    ∃ raw, cbor.unmarshalIntMap data = .ok (raw.map fun e => (toInt e.1, e.2)) ∧
      (Value.map (valueEntriesOf entries)).Reorders (.map raw)

/-! ### What the generator writes -/

section Written

variable {PublicKey : Type}

/-- The item of the protected header. -/
def protectedEntries (g : KeyManagerGenerator PublicKey) : List (CborItem × CborItem) :=
  [(.unsigned 1, .negative 6), (.unsigned 4, .bytes g.keyHash), (.unsigned 395, .unsigned 1),
    (.unsigned 15, .map [(.unsigned 1, .text g.issuer), (.unsigned 6, intItem g.now.toInt)])]

/-- The item of the unprotected header. -/
def unprotectedEntries (proof : InclusionProof) : List (CborItem × CborItem) :=
  [(.unsigned 396, .map [(.negative 0, .unsigned proof.treeSize), (.negative 1, .unsigned proof.leafIndex),
    (.negative 2, .array (proof.path.map .bytes)), (.negative 3, .bytes proof.rootHash)])]

/-- The item of a receipt. -/
def receiptItems (protectedBytes : Bytes) (proof : InclusionProof) (payload signature : Bytes) : List CborItem :=
  [.bytes protectedBytes, .map (unprotectedEntries proof), .bytes payload, .bytes signature]

theorem toItem_protectedMap (g : KeyManagerGenerator PublicKey) :
    (protectedMap g).toItem = some (.map (protectedEntries g)) := rfl

/-- The proof that is read back. -/
def InclusionProof.extracted (proof : InclusionProof) : ExtractedProof :=
  { treeSize := proof.treeSize, leafIndex := proof.leafIndex, path := proof.path, rootHash := proof.rootHash }

theorem valuesOf_bytes (path : List Bytes) : valuesOf (path.map .bytes) = path.map .bytes := by
  induction path with
  | nil => rfl
  | cons b path ih => simp [valuesOf, Value.ofItem, ih]

/-- The unprotected header is decoded to the layout of its proof. -/
theorem valueEntriesOf_unprotected (proof : InclusionProof) :
    valueEntriesOf (unprotectedEntries proof) = vdpHeader proof.extracted := by
  simp [unprotectedEntries, valueEntriesOf, Value.ofItem, valuesOf_bytes, vdpHeader, InclusionProof.extracted]

theorem intItem_plainly {n : Int} (h : -2 ^ 63 ≤ n) : Plainly (intItem n) := by
  unfold intItem
  split
  · trivial
  · simp only [Plainly]
    omega

theorem intItem_valid {n : Int} (h : -2 ^ 63 ≤ n) (h' : n < 2 ^ 63) : (intItem n).Valid := by
  unfold intItem
  split <;> simp only [Valid] <;> omega

theorem plainlyItems_bytes (path : List Bytes) : PlainlyItems (path.map .bytes) := by
  induction path with
  | nil => trivial
  | cons b path ih => exact ⟨trivial, ih⟩

theorem plainly_protected (g : KeyManagerGenerator PublicKey) : PlainlyEntries (protectedEntries g) := by
  have hnow := intItem_plainly (Int64.le_toInt g.now)
  refine ⟨⟨1, ?_⟩, ?_, ⟨4, ?_⟩, trivial, ⟨395, ?_⟩, trivial, ⟨15, ?_⟩, ⟨⟨1, ?_⟩, trivial, ⟨6, ?_⟩, hnow, trivial⟩, trivial⟩
  all_goals simp [intItem, Plainly]

theorem plainly_unprotected (proof : InclusionProof) : PlainlyEntries (unprotectedEntries proof) := by
  refine ⟨⟨396, ?_⟩, ⟨⟨-1, ?_⟩, trivial, ⟨-2, ?_⟩, trivial, ⟨-3, ?_⟩, plainlyItems_bytes _, ⟨-4, ?_⟩, trivial, trivial⟩, trivial⟩
  all_goals simp [intItem]

theorem validItems_bytes {path : List Bytes} (h : ∀ b ∈ path, b.length < 2 ^ 64) :
    ValidItems (path.map .bytes) := by
  induction path with
  | nil => trivial
  | cons b path ih => exact ⟨h b mem_cons_self, ih fun b' hb' => h b' (mem_cons_of_mem _ hb')⟩

/-- A proof whose parts fit the machine. -/
structure InclusionProof.Fits (proof : InclusionProof) : Prop where
  treeSize : proof.treeSize < 2 ^ 64
  leafIndex : proof.leafIndex < 2 ^ 64
  path : proof.path.length < 2 ^ 64
  hashes : ∀ b ∈ proof.path, b.length < 2 ^ 64
  rootHash : proof.rootHash.length < 2 ^ 64

theorem valid_unprotected {proof : InclusionProof} (h : proof.Fits) : (map (unprotectedEntries proof)).Valid := by
  have hpath : (array (proof.path.map .bytes)).Valid := ⟨by simpa using h.path, validItems_bytes h.hashes⟩
  refine ⟨?_, ?_, ?_, ⟨?_, ?_, ?_, h.treeSize, ?_, h.leafIndex, ?_, hpath, ?_, h.rootHash, trivial⟩, trivial⟩
  all_goals simp [Valid, unprotectedEntries]

/-- A generator whose parts fit the machine. -/
structure KeyManagerGenerator.Fits (g : KeyManagerGenerator PublicKey) : Prop where
  keyHash : g.keyHash.length ≤ 4
  issuer : (utf8 g.issuer).length < 2 ^ 63

theorem valid_protected {g : KeyManagerGenerator PublicKey} (h : g.Fits) : (map (protectedEntries g)).Valid := by
  have hnow := intItem_valid (Int64.le_toInt g.now) (Int64.toInt_lt g.now)
  have hissuer : (utf8 g.issuer).length < 2 ^ 64 := by
    have := h.issuer
    omega
  have hkeyHash : g.keyHash.length < 2 ^ 64 := by
    have := h.keyHash
    omega
  refine ⟨?_, ?_, ?_, ?_, ?_, hkeyHash, ?_, ?_, ?_, ⟨?_, ?_, ?_, hissuer, ?_, hnow, trivial⟩, trivial⟩
  all_goals simp [Valid, protectedEntries]

theorem length_intItem_le (n : Int) : (intItem n).encode.length ≤ 9 := by
  unfold intItem
  split <;> exact length_head_le _ _

/-- The protected header is little longer than the issuer's name. -/
theorem length_protected_lt {g : KeyManagerGenerator PublicKey} (h : g.Fits) :
    (map (protectedEntries g)).encode.length < 2 ^ 64 := by
  have hnow := length_intItem_le g.now.toInt
  have hissuer := h.issuer
  have hkeyHash := h.keyHash
  have hbytes := length_head_le 2 g.keyHash.length
  have htext := length_head_le 3 (utf8 g.issuer).length
  have hsmall : (head 5 4).length = 1 ∧ (head 0 1).length = 1 ∧ (head 1 6).length = 1 ∧
      (head 0 4).length = 1 ∧ (head 0 395).length = 3 ∧ (head 0 15).length = 1 ∧
      (head 5 2).length = 1 ∧ (head 0 6).length = 1 := by decide
  simp only [protectedEntries, encode, encodeEntries, length_append, length_cons, length_nil,
    Nat.zero_add, Nat.reduceAdd]
  omega

end Written

/-! ### What the verifier reads -/

section Read

variable {PublicKey : Type} {cbor : ReceiptCbor} {Encodes : Bytes → CborItem → Prop}

/-- A receipt is parsed into its parts, the unprotected header in some order. -/
theorem parseCOSESign1_receipt (hcbor : Inverse cbor Encodes) {data protectedBytes payload signature : Bytes}
    {proof : InclusionProof} (hdata : Encodes data (.tag 18 (.array (receiptItems protectedBytes proof payload signature)))) :
    ∃ raw, parseCOSESign1 cbor.toCbor data = .ok ⟨protectedBytes, normalizeIntMap raw, payload, signature⟩ ∧
      (Value.map (vdpHeader proof.extracted)).Reorders (.map raw) := by
  obtain ⟨content, re, htag, hmarshal, hre⟩ :=
    hcbor.unmarshalTag data 18 _ hdata ⟨trivial, plainly_unprotected proof, trivial, trivial, trivial⟩
  obtain ⟨arr, harr, hall⟩ := hcbor.unmarshalRaw re _ hre
  rw [receiptItems] at hall
  cases hall with
  | cons hprotected hall =>
  cases hall with
  | cons hunprotected hall =>
  cases hall with
  | cons hpayload hall =>
  cases hall with
  | cons hsignature hall =>
  cases hall
  obtain ⟨raw, hraw, hreorders⟩ := hcbor.unmarshalMap _ _ hunprotected (plainly_unprotected proof)
  rw [valueEntriesOf_unprotected] at hreorders
  refine ⟨raw, ?_, hreorders⟩
  unfold parseCOSESign1
  rw [htag]
  simp only [decodeCOSEContent, bind_eq_ok_iff]
  refine ⟨re, hmarshal, _, harr, ?_⟩
  simp only [decodeCOSERaw, hcbor.unmarshalBytesPtr _ _ hpayload, bind_eq_ok_iff, withContext_eq_ok_iff, pure_eq_ok_iff]
  exact ⟨_, hcbor.unmarshalBytes _ _ hprotected, raw, hraw, _, hcbor.unmarshalBytes _ _ hsignature, rfl⟩

theorem canonical_vdpHeader (proof : ExtractedProof) : CanonicalMap (vdpHeader proof) where
  distinct := by simp [vdpHeader]
  unsigned := by simp [vdpHeader]
  negative := by simp [vdpHeader]
  decoded := by simp [vdpHeader]

theorem plain_vdpHeader (proof : ExtractedProof) : Plain (vdpHeader proof) := by
  have hpath : toByteSlices (.array (proof.path.map .bytes)) = .ok proof.path := toByteSlices_collect 0 proof.path
  intro vdp hvdp
  obtain rfl : vdp = _ := Value.map.inj (mem_singleton.mp hvdp)
  intro _ _ _
  right
  right
  refine ⟨proof.path, proof.rootHash, proof.treeSize, proof.leafIndex, ?_, ?_, ?_, rfl, rfl⟩
  · intro v hv
    rw [mem_singleton.mp hv]
    exact hpath
  · exact cons_ne_nil _ _
  · intro v hv
    exact mem_singleton.mp hv

/-- The key's hash stands under its label, in every order of the protected header. -/
theorem lookup_keyHash {g : KeyManagerGenerator PublicKey} {raw : List (Value × Value)}
    (h : (Value.map (valueEntriesOf (protectedEntries g))).Reorders (.map raw)) :
    lookupLabel (raw.map fun e => (toInt e.1, e.2)) labelKID = some (.bytes g.keyHash) := by
  obtain ⟨entries, heq, halike⟩ := h.entries rfl
  cases heq
  have hkid : entriesAt labelKID (valueEntriesOf (protectedEntries g)) = [.bytes g.keyHash] := by
    simp [entriesAt, protectedEntries, valueEntriesOf, Value.ofItem, toInt, labelKID]
  have hlabelled := halike labelKID
  rw [hkid] at hlabelled
  obtain ⟨w, hw, hreorders⟩ := hlabelled.singleton
  have hlookup := lookupLabel_map id raw labelKID
  rw [hw] at hlookup
  rcases hreorders.eq_or_maps with rfl | ⟨_, _, hmap, _⟩
  · exact hlookup
  · cases hmap

end Read

/-! ### The round trip -/

section RoundTrip

variable {PublicKey : Type} {cbor : ReceiptCbor} {Encodes : Bytes → CborItem → Prop} {crypto : Crypto PublicKey}
  {km : KeyManager PublicKey} {keyID : String} {pub : PublicKey}

/-- The order of the group of P-256. -/
def p256Order : Nat := 0xffffffff00000000ffffffffffffffffbce6faada7179e84f3b9cac2fc632551

/-- The key manager holds a P-256 key under the name. -/
structure HoldsP256 (crypto : Crypto PublicKey) (km : KeyManager PublicKey) (keyID : String) (pub : PublicKey) : Prop where
  named : keyID ≠ ""
  found : km.getPublicKey keyID = .ok (.ecdsa pub)
  curve : crypto.bitSize pub = 256
  marshals : ∃ der, crypto.marshalPKIXPublicKey pub = .ok der

/-- Whatever is signed, the key manager returns the DER form of a signature that the public key verifies. -/
def CorrectSigner (crypto : Crypto PublicKey) (km : KeyManager PublicKey) (keyID : String) (pub : PublicKey) : Prop :=
  ∀ digest, ∃ der, ∃ r s : Nat, km.sign keyID digest = .ok der ∧ crypto.asn1Unmarshal der = .ok (r, s, []) ∧
    0 < r ∧ r < p256Order ∧ 0 < s ∧ s < p256Order ∧ crypto.ecdsaVerify pub digest r s = true

/-- A slice: its length is a machine integer. -/
abbrev GoSlice (α : Type) := { items : List α // items.length < 2 ^ 63 }

/-- A string: its number of bytes is a machine integer. -/
abbrev GoString := { s : String // (utf8 s).length < 2 ^ 63 }

/-- The leaves of a log. -/
def leavesOf (D : GoSlice (GoSlice UInt8)) : List Bytes := D.val.map (·.val)

/-- The proof of a leaf: the size of the tree, the index, the audit path and the root. -/
def inclusionProofOf (D : List Bytes) (i : Nat) : InclusionProof where
  treeSize := D.length
  leafIndex := i
  path := (auditPath sum256 i D).map Subtype.val
  rootHash := (treeHash sum256 D).val

theorem inclusionProofOf_fits (D : GoSlice (GoSlice UInt8)) (i : Fin (leavesOf D).length) :
    (inclusionProofOf (leavesOf D) i).Fits := by
  have hsize : (leavesOf D).length < 2 ^ 63 := by simpa [leavesOf] using D.property
  have hindex := i.isLt
  have hpath := length_auditPath_le (H := sum256) i (leavesOf D)
  constructor
  · exact Nat.lt_trans hsize (by decide)
  · exact Nat.lt_trans (Nat.lt_trans hindex hsize) (by decide)
  · simp only [inclusionProofOf, length_map]
    omega
  · intro b hb
    obtain ⟨digest, _, rfl⟩ := mem_map.mp hb
    rw [digest.property]
    decide
  · simp only [inclusionProofOf, (treeHash sum256 (leavesOf D)).property]
    decide

/-- The generator of a key, and the four bytes by which it names the key. -/
theorem newKeyManagerGenerator_eq (hkey : HoldsP256 crypto km keyID pub) (issuer : String) (now : Int64) :
    ∃ keyHash, spkiKeyHash4 crypto pub = .ok keyHash ∧ keyHash.length ≤ 4 ∧
      newKeyManagerGenerator crypto (some km) keyID issuer now = .ok ⟨km, keyID, pub, keyHash, issuer, now⟩ := by
  obtain ⟨der, hder⟩ := hkey.marshals
  have hhash : spkiKeyHash4 crypto pub = .ok ((sum256 der).val.take 4) := by
    simp only [spkiKeyHash4, hder, bind_eq_ok_iff, withContext_eq_ok_iff, pure_eq_ok_iff]
    exact ⟨der, rfl, rfl⟩
  refine ⟨_, hhash, length_take_le 4 _, ?_⟩
  simp only [newKeyManagerGenerator, hkey.found, bind_eq_ok_iff, withContext_eq_ok_iff, require_eq_ok_iff]
  refine ⟨(), hkey.named, _, rfl, ?_⟩
  simp only [bind_eq_ok_iff, withContext_eq_ok_iff, require_eq_ok_iff, pure_eq_ok_iff]
  exact ⟨(), hkey.curve, _, hhash, rfl⟩

/-- What the signature covers. -/
def sigStructure (protectedBytes payload : Bytes) : Value :=
  .array [.text "Signature1", .bytes protectedBytes, .bytes [], .bytes payload]

theorem exists_sigStructure (hcbor : Inverse cbor Encodes) {protectedBytes payload : Bytes} (hprotected : protectedBytes.length < 2 ^ 64)
    (hpayload : payload.length < 2 ^ 64) : ∃ sigBytes, cbor.detMarshal (sigStructure protectedBytes payload) = .ok sigBytes := by
  have hvalid : (array [.text "Signature1", .bytes protectedBytes, .bytes [], .bytes payload]).Valid := by
    refine ⟨?_, ?_, hprotected, ?_, hpayload, trivial⟩
    · simp
    · change (utf8 "Signature1").length < 2 ^ 64
      decide
    · simp [Valid]
  obtain ⟨sigBytes, hmarshal, _⟩ := hcbor.detMarshal (sigStructure protectedBytes payload) _ rfl hvalid
  exact ⟨sigBytes, hmarshal⟩

/-- What a receipt is made of: a protected header, a signature over it and over the event, and the item of the whole. -/
theorem generateReceipt_eq (hcbor : Inverse cbor Encodes) {g : KeyManagerGenerator PublicKey} (hfits : g.Fits)
    (hsigner : CorrectSigner crypto g.km g.keyID g.pub) {proof : InclusionProof} (hproof : proof.Fits) {payload : Bytes}
    (hnonempty : payload ≠ []) (hpayload : payload.length < 2 ^ 64) :
    ∃ protectedBytes signature receipt, generateReceipt crypto cbor g (some proof) payload = .ok receipt ∧
      Encodes protectedBytes (.map (protectedEntries g)) ∧
      Encodes receipt (.tag 18 (.array (receiptItems protectedBytes proof payload signature))) ∧
      ∀ unprotected, verifySignature cbor.toCbor crypto.ecdsaVerify ⟨protectedBytes, unprotected, payload, signature⟩ g.pub = .ok () := by
  obtain ⟨protectedBytes, hprotected, hencodes, hlength⟩ := hcbor.detMarshal _ _ (toItem_protectedMap g) (valid_protected hfits)
  have hshort : protectedBytes.length < 2 ^ 64 := hlength ▸ length_protected_lt hfits
  obtain ⟨sigBytes, hsigBytes⟩ := exists_sigStructure hcbor hshort hpayload
  obtain ⟨der, r, s, hsign, hder, hr, hr', hs, hs', hverifies⟩ := hsigner (sum256 sigBytes)
  have horder : p256Order < 2 ^ 256 := by decide
  obtain ⟨signature, hsignature, hlen, rfl, rfl⟩ :=
    derToP1363_eq hder hr hs (Nat.lt_trans hr' horder) (Nat.lt_trans hs' horder)
  have hsmall : signature.length < 2 ^ 64 := by omega
  have hvalid : (array (receiptItems protectedBytes proof payload signature)).Valid :=
    ⟨by simp [receiptItems], hshort, valid_unprotected hproof, hpayload, hsmall, trivial⟩
  obtain ⟨receipt, hreceipt, hitem⟩ := hcbor.detMarshalTag 18
    (.array [.bytes protectedBytes, unprotectedMap proof, .bytes payload, .bytes signature]) _ rfl (by decide) hvalid
  refine ⟨protectedBytes, signature, receipt, ?_, hencodes, hitem, ?_⟩
  · simp only [generateReceipt, bind_eq_ok_iff, withContext_eq_ok_iff, require_eq_ok_iff]
    exact ⟨(), by simpa using hnonempty, _, hprotected, _, hsigBytes, _, hsign, _, hsignature, hreceipt⟩
  · intro unprotected
    rw [sigStructure] at hsigBytes
    simp only [verifySignature, hsigBytes, bind_eq_ok_iff, withContext_eq_ok_iff, require_eq_ok_iff]
    exact ⟨sigBytes, rfl, (), hlen, hverifies⟩

theorem length_leaf_lt (D : GoSlice (GoSlice UInt8)) (i : Fin (leavesOf D).length) : (leavesOf D)[i].length < 2 ^ 64 := by
  obtain ⟨leaf, _, heq⟩ := mem_map.mp (getElem_mem i.isLt)
  have hlt := leaf.property
  rw [heq] at hlt
  exact Nat.lt_trans hlt (by decide)

/-- The honest proof walks to its own root. -/
theorem inclusionProofOf_walks (D : List Bytes) (i : Fin D.length) : ProofWalks (D.get i) (inclusionProofOf D i).extracted := by
  have nonempty : D ≠ [] := ne_nil_of_length_pos i.pos
  obtain ⟨sides, exhausted⟩ := directions_past_root (Nat.le_sub_one_of_lt i.isLt) 0
  rw [toRoot_eq_leafWord i.isLt, length_reverse, Nat.add_zero] at sides exhausted
  rw [replicate_zero, append_nil] at sides
  have reached := (follow_ofList D nonempty _ (D.get i)).mpr ⟨i, leafAt_leafWord i.isLt, by simp⟩
  have walks := rootFromProof_of_word i.isLt reached sides exhausted
  rw [← auditPath_eq_siblings D nonempty] at walks
  exact ⟨_, walks, rfl⟩

/-- What is generated with the proof of a leaf is accepted, and the leaf is read from it. -/
theorem generated_accepted (hcbor : Inverse cbor Encodes) {g : KeyManagerGenerator PublicKey} (hfits : g.Fits)
    (hsigner : CorrectSigner crypto g.km g.keyID g.pub) {D : GoSlice (GoSlice UInt8)} {i : Fin (leavesOf D).length}
    {receipt : Bytes}
    (h : generateReceipt crypto cbor g (some (inclusionProofOf (leavesOf D) i)) (leavesOf D)[i] = .ok receipt) :
    verify cbor.toCbor crypto.ecdsaVerify receipt g.pub = .ok () ∧
      extractPayload cbor.toCbor receipt = .ok (leavesOf D)[i] ∧ extractKID cbor receipt = .ok g.keyHash := by
  have hleaf : (leavesOf D)[i] ≠ [] := by
    simp only [generateReceipt, bind_eq_ok_iff, require_eq_ok_iff] at h
    obtain ⟨_, hlength, _⟩ := h
    simpa using hlength
  obtain ⟨protectedBytes, signature, written, hwritten, hprotected, hitem, hsigned⟩ :=
    generateReceipt_eq hcbor hfits hsigner (inclusionProofOf_fits D i) hleaf (length_leaf_lt D i)
  obtain rfl : written = receipt := ok.inj (hwritten.symm.trans h)
  obtain ⟨raw, hparse, hreorders⟩ := parseCOSESign1_receipt hcbor hitem
  refine ⟨?_, ?_, ?_⟩
  · apply (verify_eq_ok_iff g.pub hparse).mpr
    -- the honest proof is extracted in every order of the header
    refine ⟨by simpa using hleaf, ⟨_, ?_, inclusionProofOf_walks _ i⟩, hsigned _⟩
    rw [((plain_vdpHeader _).readsStrictly (canonical_vdpHeader _)).ordered raw hreorders, extract_vdpHeader]
  · simp only [extractPayload, hparse, bind_eq_ok_iff, withContext_eq_ok_iff, require_eq_ok_iff,
      pure_eq_ok_iff]
    exact ⟨_, rfl, (), by simpa using hleaf, rfl⟩
  · obtain ⟨prot, hprot, hreorders'⟩ := hcbor.unmarshalIntMap _ _ hprotected (plainly_protected _)
    simp only [extractKID, hparse, bind_eq_ok_iff, withContext_eq_ok_iff]
    refine ⟨_, rfl, _, hprot, ?_⟩
    rw [lookup_keyHash hreorders']

/-- Every leaf of every log gets a receipt that the verifier accepts and from which the leaf and the key's name are read. -/
theorem receipt_round_trip (hcbor : Inverse cbor Encodes) (hkey : HoldsP256 crypto km keyID pub)
    (hsigner : CorrectSigner crypto km keyID pub) (issuer : GoString) (now : Int64) (D : GoSlice (GoSlice UInt8))
    (i : Fin (leavesOf D).length) (hleaf : (leavesOf D)[i] ≠ []) :
    ∃ g receipt, newKeyManagerGenerator crypto (some km) keyID issuer.val now = .ok g ∧
      generateReceipt crypto cbor g (some (inclusionProofOf (leavesOf D) i)) (leavesOf D)[i] = .ok receipt ∧
      verify cbor.toCbor crypto.ecdsaVerify receipt pub = .ok () ∧
      extractPayload cbor.toCbor receipt = .ok (leavesOf D)[i] ∧
      extractKID cbor receipt = .ok g.keyHash ∧ spkiKeyHash4 crypto pub = .ok g.keyHash := by
  obtain ⟨keyHash, hhash, hshort, hnew⟩ := newKeyManagerGenerator_eq hkey issuer.val now
  have hfits : (⟨km, keyID, pub, keyHash, issuer.val, now⟩ : KeyManagerGenerator PublicKey).Fits :=
    ⟨hshort, issuer.property⟩
  obtain ⟨_, _, receipt, hreceipt, _⟩ :=
    generateReceipt_eq hcbor hfits hsigner (inclusionProofOf_fits D i) hleaf (length_leaf_lt D i)
  obtain ⟨hverify, hpayload, hkid⟩ := generated_accepted hcbor hfits hsigner hreceipt
  exact ⟨_, receipt, hnew, hreceipt, hverify, hpayload, hkid, hhash⟩

end RoundTrip

/-! ### A library that is inverse -/

namespace Sample

theorem keyItem_ofItem {key : CborItem} (h : IntKey key) : keyItem (Value.ofItem key) = some key := by
  obtain ⟨label, hlow, _, rfl⟩ := h
  unfold intItem
  split
  · rfl
  · rename_i hneg
    have hsmall : (-1 - label).toNat < 2 ^ 63 := by omega
    have hback : -1 - ((-1 - label).toNat : Int) = label := by omega
    rw [Value.ofItem, if_pos hsmall, hback, keyItem, intItem, if_neg hneg]

mutual
/-- What is decoded is written as the item it was decoded from. -/
theorem toItem_ofItem : ∀ item : CborItem, Plainly item → (Value.ofItem item).toItem = some item
  | .unsigned _, _ | .bytes _, _ | .text _, _ => rfl
  | .negative n, h => by
      have hback : (-1 - (-1 - (n : Int))).toNat = n := by omega
      rw [Value.ofItem, if_pos (show n < 2 ^ 63 from h), Value.toItem, intItem, if_neg (by omega), hback]
  | .array items, h => by rw [Value.ofItem, Value.toItem, itemsOf_valuesOf items h, Option.map_some]
  | .map entries, h => by rw [Value.ofItem, Value.toItem, entriesOf_valueEntriesOf entries h, Option.map_some]

theorem itemsOf_valuesOf : ∀ items : List CborItem, PlainlyItems items → itemsOf (valuesOf items) = some items
  | [], _ => rfl
  | item :: rest, h => by
      simp [valuesOf, itemsOf, toItem_ofItem item h.1, itemsOf_valuesOf rest h.2]

theorem entriesOf_valueEntriesOf : ∀ entries : List (CborItem × CborItem), PlainlyEntries entries →
    entriesOf (valueEntriesOf entries) = some entries
  | [], _ => rfl
  | (key, item) :: rest, h => by
      simp [valueEntriesOf, entriesOf, keyItem_ofItem h.1, toItem_ofItem item h.2.1, entriesOf_valueEntriesOf rest h.2.2]
end

/-- The bytes of a value, if it can be written. -/
def written (v : Value) : Except String Bytes :=
  match v.toItem with
  | some item => .ok item.encode
  | none => .error "cbor: unsupported type"

/-- Read the item of the bytes. -/
def reading {α : Type} (target : CborItem → Option α) (data : Bytes) : Except String α :=
  ((decode data).bind target).elim (.error "cbor: cannot unmarshal") .ok

/-- A library that writes maps in the order of their entries. -/
def cbor : ReceiptCbor where
  unmarshalTag := reading fun | .tag number content => some (number, Value.ofItem content) | _ => none
  unmarshalRaw := reading fun | .array items => some (items.map encode) | _ => none
  unmarshalBytes := reading fun | .bytes b => some b | _ => none
  unmarshalBytesPtr := reading fun | .bytes b => some (some b) | _ => none
  unmarshalMap := reading fun | .map entries => some (valueEntriesOf entries) | _ => none
  marshal := written
  detMarshal := written
  detMarshalTag number v :=
    match v.toItem with
    | some item => .ok (tag number item).encode
    | none => .error "cbor: unsupported type"
  unmarshalIntMap := reading fun
    | .map entries => some ((valueEntriesOf entries).map fun e => (toInt e.1, e.2))
    | _ => none

/-- The bytes are the encoding of a valid item. -/
def EncodingOf (data : Bytes) (item : CborItem) : Prop := item.Valid ∧ data = item.encode

theorem reading_eq {α : Type} {target : CborItem → Option α} {data : Bytes} {item : CborItem} {a : α}
    (h : EncodingOf data item) (htarget : target item = some a) : reading target data = .ok a := by
  rw [reading, h.2, decode_encode h.1, Option.bind_some, htarget]
  rfl

theorem forall₂_encode : ∀ items : List CborItem, ValidItems items →
    Forall₂ EncodingOf (items.map encode) items
  | [], _ => .nil
  | _ :: rest, h => .cons ⟨h.1, rfl⟩ (forall₂_encode rest h.2)

theorem cbor_inverse : Inverse cbor EncodingOf where
  detMarshal v item hitem hvalid := ⟨item.encode, by simp [cbor, written, hitem], ⟨hvalid, rfl⟩, rfl⟩
  detMarshalTag number v item hitem hnumber hvalid :=
    ⟨(tag number item).encode, by simp [cbor, hitem], ⟨hnumber, hvalid⟩, rfl⟩
  unmarshalTag data number item hdata hplain :=
    ⟨Value.ofItem item, item.encode, reading_eq hdata rfl, by simp [cbor, written, toItem_ofItem item hplain], hdata.1.2, rfl⟩
  unmarshalRaw data items hdata := ⟨items.map encode, reading_eq hdata rfl, forall₂_encode items hdata.1.2⟩
  unmarshalBytes data b hdata := reading_eq hdata rfl
  unmarshalBytesPtr data b hdata := reading_eq hdata rfl
  unmarshalMap data entries hdata _ := ⟨valueEntriesOf entries, reading_eq hdata rfl, .refl _⟩
  unmarshalIntMap data entries hdata _ := ⟨valueEntriesOf entries, reading_eq hdata rfl, .refl _⟩

/-- A library with one key, for which the signature `(1, 300)` verifies. -/
def crypto : Crypto Unit where
  ecdsaVerify _ _ r s := r = 1 ∧ s = 300
  bitSize _ := 256
  marshalPKIXPublicKey _ := .ok [0x30]
  asn1Unmarshal data := if data = [0x30, 0x07] then .ok (1, 300, []) else .error "asn1: structure error"

/-- A key manager that signs with it. -/
def km : KeyManager Unit where
  getPublicKey _ := .ok (.ecdsa ())
  sign _ _ := .ok [0x30, 0x07]

theorem holds : HoldsP256 crypto km "receipt-k" () where
  named := by decide
  found := rfl
  curve := rfl
  marshals := ⟨_, rfl⟩

theorem signs : CorrectSigner crypto km "receipt-k" () := by
  intro digest
  exact ⟨_, 1, 300, rfl, rfl, by decide, by decide, by decide, by decide, rfl⟩

/-- Three leaves. -/
def leaves : GoSlice (GoSlice UInt8) := ⟨[⟨[0x61], by decide⟩, ⟨[0x62], by decide⟩, ⟨[0x63], by decide⟩], by decide⟩

end Sample

open Sample

/-- The second of three leaves, with a signature whose scalars are shorter than the field. -/
theorem receipt_round_trip_of_three :
    ∃ g receipt, newKeyManagerGenerator crypto (some km) "receipt-k" "ans-test" 1700000000 = .ok g ∧
      generateReceipt crypto cbor g (some (inclusionProofOf [[0x61], [0x62], [0x63]] 1)) [0x62] = .ok receipt ∧
      verify cbor.toCbor crypto.ecdsaVerify receipt () = .ok () ∧
      extractPayload cbor.toCbor receipt = .ok [0x62] ∧
      extractKID cbor receipt = .ok g.keyHash ∧ spkiKeyHash4 crypto () = .ok g.keyHash :=
  receipt_round_trip cbor_inverse holds signs ⟨"ans-test", by decide⟩ 1700000000 leaves
    ⟨1, by decide⟩ (cons_ne_nil _ _)

end AgentNameService.Receipt
