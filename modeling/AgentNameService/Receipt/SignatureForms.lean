/-
Purpose: The two converters of DER signatures, and the way back.  The status tokens have a converter of their own, which
  checks neither the rest of the input nor the signs of the scalars.
Source: internal/crypto/p1363.go (DERToP1363, P1363ToDER), internal/tl/receipt/statustoken.go (derToP1363)
Trusted boundary: human-reviewed model (StatusToken.derToP1363, p1363ToDER); encoding/asn1 is assumed to read back what it
  writes (Asn1).
-/
import AgentNameService.Receipt.Generator

namespace AgentNameService.Receipt

open List Except

/-- `asn1.Marshal` of two scalars, which `asn1.Unmarshal` reads back. -/
structure Asn1 {PublicKey : Type} (crypto : Crypto PublicKey) where
  marshal : (r s : Nat) → Bytes
  unmarshal_marshal : ∀ r s, r < 2 ^ 256 → s < 2 ^ 256 → crypto.asn1Unmarshal (marshal r s) = .ok (r, s, [])

section Converters

variable {PublicKey : Type} {crypto : Crypto PublicKey}

/-- The converter of the status tokens. -/
def StatusToken.derToP1363 (crypto : Crypto PublicKey) (der : Bytes) : Except String Bytes := do
  let (r, s, _) ← (crypto.asn1Unmarshal der).withContext "unmarshal DER"
  let rb := bigIntBytes r.natAbs
  let sb := bigIntBytes s.natAbs
  require (rb.length ≤ 32 ∧ sb.length ≤ 32) s!"r/s exceed {32} bytes"
  pure (padScalar 32 rb ++ padScalar 32 sb)

def p1363ToDER (asn1 : Asn1 crypto) (p1363Sig : Bytes) : Except String Bytes := do
  require (p1363Sig.length ≠ 0 ∧ p1363Sig.length % 2 = 0) "crypto: invalid P1363 signature length"
  let half := p1363Sig.length / 2
  let r := setBytes (p1363Sig.take half)
  let s := setBytes (p1363Sig.drop half)
  require (0 < r ∧ 0 < s) "crypto: invalid ECDSA scalars"
  pure (asn1.marshal r s)

/-- Both converters fail, or both give the same 64 bytes and these survive the way to DER and back. -/
def ConvertersAgree (asn1 : Asn1 crypto) (der : Bytes) : Prop :=
  (∃ text text', derToP1363 crypto der 32 = .error text ∧ StatusToken.derToP1363 crypto der = .error text') ∨
  ∃ sig, sig.length = 64 ∧ derToP1363 crypto der 32 = .ok sig ∧ StatusToken.derToP1363 crypto der = .ok sig ∧
    ∃ der', p1363ToDER asn1 sig = .ok der' ∧ derToP1363 crypto der' 32 = .ok sig

/-- Two integers of at most 32 bytes at the front of the input are the whole input, and they are positive. -/
def PlainSignature (crypto : Crypto PublicKey) (der : Bytes) : Prop :=
  ∀ r s rest, crypto.asn1Unmarshal der = .ok (r, s, rest) → r.natAbs < 2 ^ 256 → s.natAbs < 2 ^ 256 →
    rest = [] ∧ 0 < r ∧ 0 < s

theorem StatusToken.derToP1363_eq_ok_iff {der sig : Bytes} :
    StatusToken.derToP1363 crypto der = .ok sig ↔ ∃ r s rest, crypto.asn1Unmarshal der = .ok (r, s, rest) ∧
      (r.natAbs < 2 ^ 256 ∧ s.natAbs < 2 ^ 256) ∧
      padScalar 32 (bigIntBytes r.natAbs) ++ padScalar 32 (bigIntBytes s.natAbs) = sig := by
  simp only [StatusToken.derToP1363, bind_eq_ok_iff, require_eq_ok_iff, withContext_eq_ok_iff, pure_eq_ok_iff,
    length_bigIntBytes_le_iff]
  constructor
  · rintro ⟨⟨r, s, rest⟩, hread, _, hfit, heq⟩
    exact ⟨r, s, rest, hread, hfit, heq⟩
  · rintro ⟨r, s, rest, hread, hfit, heq⟩
    exact ⟨(r, s, rest), hread, (), hfit, heq⟩

/-- The DER form of a converted signature holds the same scalars. -/
theorem p1363ToDER_padScalar (asn1 : Asn1 crypto) {r s : Nat} (hpos : 0 < r ∧ 0 < s) (hfit : r < 2 ^ 256 ∧ s < 2 ^ 256) :
    (padScalar 32 (bigIntBytes r) ++ padScalar 32 (bigIntBytes s)).length = 64 ∧
      p1363ToDER asn1 (padScalar 32 (bigIntBytes r) ++ padScalar 32 (bigIntBytes s)) = .ok (asn1.marshal r s) := by
  have hr := length_padScalar (length_bigIntBytes_le_iff.mpr hfit.1)
  have hs := length_padScalar (length_bigIntBytes_le_iff.mpr hfit.2)
  have hlen : (padScalar 32 (bigIntBytes r) ++ padScalar 32 (bigIntBytes s)).length = 64 := by
    rw [length_append, hr, hs]
  refine ⟨hlen, ?_⟩
  simp only [p1363ToDER, bind_eq_ok_iff, require_eq_ok_iff, pure_eq_ok_iff, hlen, take_left' hr, drop_left' hr,
    setBytes_padScalar]
  exact ⟨(), by decide, (), hpos, trivial⟩

end Converters

/-- A library that reads two integers of one byte each. -/
def Sample.oneByteScalars : Crypto Unit where
  ecdsaVerify _ _ _ _ := true
  bitSize _ := 256
  marshalPKIXPublicKey _ := .ok []
  asn1Unmarshal
    | 0x30 :: 6 :: 2 :: 1 :: r :: 2 :: 1 :: s :: rest => .ok (r.toInt8.toInt, s.toInt8.toInt, rest)
    | _ => .error "asn1: structure error"

end AgentNameService.Receipt
