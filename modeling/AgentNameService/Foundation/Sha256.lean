/-
Purpose: SHA-256 as an executable function on byte strings, in the notation of FIPS 180-4.
  The digest type carries its width, so a digest of the wrong length cannot be built.
Trusted boundary: human-reviewed spec (checked against the standard's one-block and two-block vectors)
-/
import Mathlib.Algebra.Order.Ring.Int
import Mathlib.Data.List.Basic

/-- A byte string. -/
abbrev Bytes := List UInt8

/-- A SHA-256 digest: exactly thirty-two bytes. -/
abbrev Digest := { bytes : Bytes // bytes.length = 32 }

namespace Sha256

/-- The eight-word chaining value. -/
structure State where
  a : UInt32
  b : UInt32
  c : UInt32
  d : UInt32
  e : UInt32
  f : UInt32
  g : UInt32
  h : UInt32

/-- The initial chaining value `H(0)`. -/
def initial : State :=
  ⟨0x6a09e667, 0xbb67ae85, 0x3c6ef372, 0xa54ff53a,
   0x510e527f, 0x9b05688c, 0x1f83d9ab, 0x5be0cd19⟩

/-- The constants `K` of the sixty-four rounds. -/
def roundConstants : List UInt32 :=
  [0x428a2f98, 0x71374491, 0xb5c0fbcf, 0xe9b5dba5, 0x3956c25b, 0x59f111f1, 0x923f82a4, 0xab1c5ed5,
   0xd807aa98, 0x12835b01, 0x243185be, 0x550c7dc3, 0x72be5d74, 0x80deb1fe, 0x9bdc06a7, 0xc19bf174,
   0xe49b69c1, 0xefbe4786, 0x0fc19dc6, 0x240ca1cc, 0x2de92c6f, 0x4a7484aa, 0x5cb0a9dc, 0x76f988da,
   0x983e5152, 0xa831c66d, 0xb00327c8, 0xbf597fc7, 0xc6e00bf3, 0xd5a79147, 0x06ca6351, 0x14292967,
   0x27b70a85, 0x2e1b2138, 0x4d2c6dfc, 0x53380d13, 0x650a7354, 0x766a0abb, 0x81c2c92e, 0x92722c85,
   0xa2bfe8a1, 0xa81a664b, 0xc24b8b70, 0xc76c51a3, 0xd192e819, 0xd6990624, 0xf40e3585, 0x106aa070,
   0x19a4c116, 0x1e376c08, 0x2748774c, 0x34b0bcb5, 0x391c0cb3, 0x4ed8aa4a, 0x5b9cca4f, 0x682e6ff3,
   0x748f82ee, 0x78a5636f, 0x84c87814, 0x8cc70208, 0x90befffa, 0xa4506ceb, 0xbef9a3f7, 0xc67178f2]

def rotr (x n : UInt32) : UInt32 := (x >>> n) ||| (x <<< (32 - n))

def bigSigma0 (x : UInt32) : UInt32 := rotr x 2 ^^^ rotr x 13 ^^^ rotr x 22
def bigSigma1 (x : UInt32) : UInt32 := rotr x 6 ^^^ rotr x 11 ^^^ rotr x 25
def smallSigma0 (x : UInt32) : UInt32 := rotr x 7 ^^^ rotr x 18 ^^^ (x >>> 3)
def smallSigma1 (x : UInt32) : UInt32 := rotr x 17 ^^^ rotr x 19 ^^^ (x >>> 10)

def ch (x y z : UInt32) : UInt32 := (x &&& y) ^^^ (~~~x &&& z)
def maj (x y z : UInt32) : UInt32 := (x &&& y) ^^^ (x &&& z) ^^^ (y &&& z)

/-- One round, for its constant and its message-schedule word. -/
def round (s : State) (kw : UInt32 × UInt32) : State :=
  let t1 := s.h + bigSigma1 s.e + ch s.e s.f s.g + kw.1 + kw.2
  let t2 := bigSigma0 s.a + maj s.a s.b s.c
  ⟨t1 + t2, s.a, s.b, s.c, s.d + t1, s.e, s.f, s.g⟩

/-- Extend the message schedule by `count` words; the schedule is held newest word first. -/
def extendSchedule : (count : Nat) → List UInt32 → List UInt32
  | 0, w => w
  | count + 1, w =>
    extendSchedule count
      ((smallSigma1 (w.getD 1 0) + w.getD 6 0 + smallSigma0 (w.getD 14 0) + w.getD 15 0) :: w)

/-- The sixty-four schedule words of a sixteen-word block. -/
def schedule (block : List UInt32) : List UInt32 :=
  (extendSchedule 48 block.reverse).reverse

/-- The compression function on one sixteen-word block. -/
def compress (s : State) (block : List UInt32) : State :=
  let s' := (roundConstants.zip (schedule block)).foldl round s
  ⟨s.a + s'.a, s.b + s'.b, s.c + s'.c, s.d + s'.d,
   s.e + s'.e, s.f + s'.f, s.g + s'.g, s.h + s'.h⟩

/-- Big-endian words of a byte string whose length is a multiple of four. -/
def words : Bytes → List UInt32
  | b₀ :: b₁ :: b₂ :: b₃ :: rest =>
    ((b₀.toUInt32 <<< 24) ||| (b₁.toUInt32 <<< 16) ||| (b₂.toUInt32 <<< 8) ||| b₃.toUInt32) ::
      words rest
  | _ => []

/-- Big-endian bytes of a word. -/
def wordBytes (w : UInt32) : Bytes :=
  [(w >>> 24).toUInt8, (w >>> 16).toUInt8, (w >>> 8).toUInt8, w.toUInt8]

/-- The message, a one bit, the least number of zero bits that completes a block, and the
message length in bits. -/
def pad (message : Bytes) : Bytes :=
  let bits := 8 * message.length
  message ++ 0x80 :: List.replicate ((119 - message.length % 64) % 64) 0 ++
    (wordBytes (UInt32.ofNat (bits / 2 ^ 32)) ++ wordBytes (UInt32.ofNat bits))

/-- Compress `count` blocks. -/
def absorb : (count : Nat) → State → List UInt32 → State
  | 0, s, _ => s
  | count + 1, s, ws => absorb count (compress s (ws.take 16)) (ws.drop 16)

/-- SHA-256. -/
def sum256 (message : Bytes) : Digest :=
  let ws := words (pad message)
  let s := absorb (ws.length / 16) initial ws
  ⟨wordBytes s.a ++ wordBytes s.b ++ wordBytes s.c ++ wordBytes s.d ++
    wordBytes s.e ++ wordBytes s.f ++ wordBytes s.g ++ wordBytes s.h, rfl⟩

/-- The standard's one-block vector, for the message `abc`. -/
example : (sum256 [0x61, 0x62, 0x63]).val =
    [0xba, 0x78, 0x16, 0xbf, 0x8f, 0x01, 0xcf, 0xea, 0x41, 0x41, 0x40, 0xde, 0x5d, 0xae, 0x22, 0x23,
     0xb0, 0x03, 0x61, 0xa3, 0x96, 0x17, 0x7a, 0x9c, 0xb4, 0x10, 0xff, 0x61, 0xf2, 0x00, 0x15, 0xad] := by
  decide +kernel

/-- A message of exactly fifty-six bytes, the shortest whose padding needs a second block. -/
example : (sum256 (List.replicate 56 0x61)).val.take 4 = [0xb3, 0x54, 0x39, 0xa4] := by
  decide +kernel

end Sha256
