/-
Purpose: The data items of CBOR and their encoding with heads of least length, and a decoder that inverts it.  Maps are
  written in the order of their entries.
Trusted boundary: human-reviewed spec (head, encode: major types 0 to 6 with definite lengths)
-/
import Mathlib.Data.List.Basic
import Mathlib.Data.List.Nodup
import AgentNameService.Foundation.Sha256

/-- A data item.  `negative n` is the integer `-1 - n`. -/
inductive CborItem where
  | unsigned (n : Nat)
  | negative (n : Nat)
  | bytes (b : Bytes)
  | text (s : String)
  | array (items : List CborItem)
  | map (entries : List (CborItem × CborItem))
  | tag (number : Nat) (content : CborItem)

namespace CborItem

open List

/-! ### Big-endian numbers -/

/-- The last `width` bytes of a number. -/
def bigEndian : (width : Nat) → Nat → Bytes
  | 0, _ => []
  | width + 1, n => bigEndian width (n / 256) ++ [UInt8.ofNat n]

/-- The number that bytes stand for. -/
def ofBigEndian (b : Bytes) : Nat := b.foldl (fun acc byte => acc * 256 + byte.toNat) 0

theorem ofBigEndian_concat (b : Bytes) (byte : UInt8) : ofBigEndian (b ++ [byte]) = ofBigEndian b * 256 + byte.toNat := by
  simp [ofBigEndian]

theorem ofBigEndian_zeros (k : Nat) (b : Bytes) : ofBigEndian (replicate k 0 ++ b) = ofBigEndian b := by
  have hzeros : (replicate k (0 : UInt8)).foldl (fun acc byte => acc * 256 + byte.toNat) 0 = 0 := by
    induction k with
    | zero => rfl
    | succ k ih => simpa [replicate_succ] using ih
  rw [ofBigEndian, foldl_append, hzeros, ofBigEndian]

@[simp] theorem length_bigEndian (width n : Nat) : (bigEndian width n).length = width := by
  induction width generalizing n with
  | zero => rfl
  | succ width ih => simp [bigEndian, ih]

theorem ofBigEndian_bigEndian {width n : Nat} (h : n < 256 ^ width) : ofBigEndian (bigEndian width n) = n := by
  induction width generalizing n with
  | zero =>
    have hzero : n = 0 := by simpa using h
    rw [hzero]
    rfl
  | succ width ih =>
    have hdiv : n / 256 < 256 ^ width := by
      apply Nat.div_lt_of_lt_mul
      rw [Nat.mul_comm, ← Nat.pow_succ]
      exact h
    rw [bigEndian, ofBigEndian_concat, ih hdiv, UInt8.toNat_ofNat']
    omega

/-! ### Heads -/

/-- The initial byte and the argument of an item, in as few bytes as possible. -/
def head (major n : Nat) : Bytes :=
  if n < 24 then [UInt8.ofNat (major * 32 + n)]
  else if n < 256 ^ 1 then UInt8.ofNat (major * 32 + 24) :: bigEndian 1 n
  else if n < 256 ^ 2 then UInt8.ofNat (major * 32 + 25) :: bigEndian 2 n
  else if n < 256 ^ 4 then UInt8.ofNat (major * 32 + 26) :: bigEndian 4 n
  else UInt8.ofNat (major * 32 + 27) :: bigEndian 8 n

/-- The first bytes and the rest, if there are so many. -/
def splitBytes (n : Nat) (data : Bytes) : Option (Bytes × Bytes) :=
  if n ≤ data.length then some (data.take n, data.drop n) else none

theorem splitBytes_append (b rest : Bytes) : splitBytes b.length (b ++ rest) = some (b, rest) := by
  simp [splitBytes]

/-- An argument of the width that the initial byte announces. -/
def readArgument (info : Nat) (rest : Bytes) : Option (Nat × Bytes) :=
  let wide (width : Nat) := (splitBytes width rest).map fun parts => (ofBigEndian parts.1, parts.2)
  match info with
  | 24 => wide 1
  | 25 => wide 2
  | 26 => wide 4
  | 27 => wide 8
  | _ => if info < 24 then some (info, rest) else none

/-- The major type, the argument and what follows. -/
def readHead : Bytes → Option (Nat × Nat × Bytes)
  | [] => none
  | first :: rest => (readArgument (first.toNat % 32) rest).map fun parts => (first.toNat / 32, parts.1, parts.2)

theorem readHead_cons {major info n : Nat} {argument rest : Bytes} (hmajor : major < 8) (hinfo : info < 32)
    (h : readArgument info (argument ++ rest) = some (n, rest)) :
    readHead (UInt8.ofNat (major * 32 + info) :: argument ++ rest) = some (major, n, rest) := by
  have hbyte : (UInt8.ofNat (major * 32 + info)).toNat = major * 32 + info := by
    rw [UInt8.toNat_ofNat']
    omega
  have hmod : (major * 32 + info) % 32 = info := by omega
  have hdiv : (major * 32 + info) / 32 = major := by omega
  rw [cons_append, readHead, hbyte, hmod, hdiv, h]
  rfl

/-- A wide argument is read back. -/
theorem wide_bigEndian {width n : Nat} (h : n < 256 ^ width) (rest : Bytes) :
    ((splitBytes width (bigEndian width n ++ rest)).map fun parts => (ofBigEndian parts.1, parts.2)) = some (n, rest) := by
  have hsplit := splitBytes_append (bigEndian width n) rest
  rw [length_bigEndian] at hsplit
  rw [hsplit, Option.map_some, ofBigEndian_bigEndian h]

theorem readHead_head {major n : Nat} (hmajor : major < 8) (hn : n < 2 ^ 64) (rest : Bytes) :
    readHead (head major n ++ rest) = some (major, n, rest) := by
  have hwide : n < 256 ^ 8 := hn
  unfold head
  split
  · rename_i hsmall
    apply readHead_cons hmajor (by omega)
    unfold readArgument
    split <;> first | omega | simp [hsmall]
  · split
    · rename_i hone
      exact readHead_cons hmajor (by omega) (wide_bigEndian hone rest)
    · split
      · rename_i htwo
        exact readHead_cons hmajor (by omega) (wide_bigEndian htwo rest)
      · split
        · rename_i hfour
          exact readHead_cons hmajor (by omega) (wide_bigEndian hfour rest)
        · exact readHead_cons hmajor (by omega) (wide_bigEndian hwide rest)

theorem head_length_pos (major n : Nat) : 0 < (head major n).length := by
  unfold head
  repeat' split
  all_goals simp

theorem length_head_le (major n : Nat) : (head major n).length ≤ 9 := by
  unfold head
  repeat' split
  all_goals simp

/-! ### Items -/

/-- The bytes of a text. -/
def utf8 (s : String) : Bytes := s.toByteArray.data.toList

/-- The text of bytes, if they are well formed. -/
def ofUtf8? (b : Bytes) : Option String := String.fromUTF8? ⟨b.toArray⟩

theorem ofUtf8?_utf8 (s : String) : ofUtf8? (utf8 s) = some s := by
  have hbytes : (⟨(utf8 s).toArray⟩ : ByteArray) = s.toByteArray := by simp [utf8]
  rw [ofUtf8?, hbytes, String.fromUTF8?, dif_pos s.isValidUTF8]
  rfl

mutual
/-- Arguments fit eight bytes, and the keys of a map are distinct. -/
def Valid : CborItem → Prop
  | .unsigned n => n < 2 ^ 64
  | .negative n => n < 2 ^ 64
  | .bytes b => b.length < 2 ^ 64
  | .text s => (utf8 s).length < 2 ^ 64
  | .array items => items.length < 2 ^ 64 ∧ ValidItems items
  | .map entries => entries.length < 2 ^ 64 ∧ (entries.map (·.1)).Nodup ∧ ValidEntries entries
  | .tag number content => number < 2 ^ 64 ∧ content.Valid

def ValidItems : List CborItem → Prop
  | [] => True
  | item :: rest => item.Valid ∧ ValidItems rest

def ValidEntries : List (CborItem × CborItem) → Prop
  | [] => True
  | (key, value) :: rest => key.Valid ∧ value.Valid ∧ ValidEntries rest
end

mutual
/-- The encoding of an item. -/
def encode : CborItem → Bytes
  | .unsigned n => head 0 n
  | .negative n => head 1 n
  | .bytes b => head 2 b.length ++ b
  | .text s => head 3 (utf8 s).length ++ utf8 s
  | .array items => head 4 items.length ++ encodeItems items
  | .map entries => head 5 entries.length ++ encodeEntries entries
  | .tag number content => head 6 number ++ content.encode

def encodeItems : List CborItem → Bytes
  | [] => []
  | item :: rest => item.encode ++ encodeItems rest

def encodeEntries : List (CborItem × CborItem) → Bytes
  | [] => []
  | (key, value) :: rest => key.encode ++ (value.encode ++ encodeEntries rest)
end

/-- Read a number of things one after the other. -/
def readMany {α : Type} (read : Bytes → Option (α × Bytes)) : Nat → Bytes → Option (List α × Bytes)
  | 0, data => some ([], data)
  | n + 1, data => do
      let (a, rest) ← read data
      let (as, rest) ← readMany read n rest
      some (a :: as, rest)

/-- Read a key and its value. -/
def readPair {α : Type} (read : Bytes → Option (α × Bytes)) (data : Bytes) : Option ((α × α) × Bytes) := do
  let (key, rest) ← read data
  let (value, rest) ← read rest
  some ((key, value), rest)

/-- Read one item, nested at most `fuel` deep. -/
def readItem : (fuel : Nat) → Bytes → Option (CborItem × Bytes)
  | 0, _ => none
  | fuel + 1, data => do
      let (major, n, rest) ← readHead data
      match major with
      | 0 => some (.unsigned n, rest)
      | 1 => some (.negative n, rest)
      | 2 => do
          let (b, rest) ← splitBytes n rest
          some (.bytes b, rest)
      | 3 => do
          let (b, rest) ← splitBytes n rest
          let s ← ofUtf8? b
          some (.text s, rest)
      | 4 => do
          let (items, rest) ← readMany (readItem fuel) n rest
          some (.array items, rest)
      | 5 => do
          let (entries, rest) ← readMany (readPair (readItem fuel)) n rest
          some (.map entries, rest)
      | 6 => do
          let (content, rest) ← readItem fuel rest
          some (.tag n content, rest)
      | _ => none

/-- Read a whole byte string as one item. -/
def decode (data : Bytes) : Option CborItem :=
  match readItem data.length data with
  | some (item, []) => some item
  | _ => none

/-! ### Decoding inverts encoding -/

mutual
/-- How deep an item is nested. -/
def depth : CborItem → Nat
  | .array items => depthItems items + 1
  | .map entries => depthEntries entries + 1
  | .tag _ content => content.depth + 1
  | .unsigned _ | .negative _ | .bytes _ | .text _ => 1

def depthItems : List CborItem → Nat
  | [] => 0
  | item :: rest => max item.depth (depthItems rest)

def depthEntries : List (CborItem × CborItem) → Nat
  | [] => 0
  | (key, value) :: rest => max (max key.depth value.depth) (depthEntries rest)
end

mutual
/-- Every level has a head, so an item is at least as long as it is deep. -/
theorem depth_le_length : ∀ item : CborItem, item.depth ≤ item.encode.length
  | .unsigned n | .negative n => head_length_pos _ n
  | .bytes b => by
      have hpos := head_length_pos 2 b.length
      simp only [depth, encode, length_append]
      omega
  | .text s => by
      have hpos := head_length_pos 3 (utf8 s).length
      simp only [depth, encode, length_append]
      omega
  | .array items => by
      have hpos := head_length_pos 4 items.length
      have hitems := depthItems_le_length items
      simp only [depth, encode, length_append]
      omega
  | .map entries => by
      have hpos := head_length_pos 5 entries.length
      have hentries := depthEntries_le_length entries
      simp only [depth, encode, length_append]
      omega
  | .tag number content => by
      have hpos := head_length_pos 6 number
      have hcontent := depth_le_length content
      simp only [depth, encode, length_append]
      omega

theorem depthItems_le_length : ∀ items : List CborItem, depthItems items ≤ (encodeItems items).length
  | [] => Nat.le_refl 0
  | item :: rest => by
      have hitem := depth_le_length item
      have hrest := depthItems_le_length rest
      simp only [depthItems, encodeItems, length_append]
      omega

theorem depthEntries_le_length : ∀ entries : List (CborItem × CborItem), depthEntries entries ≤ (encodeEntries entries).length
  | [] => Nat.le_refl 0
  | (key, value) :: rest => by
      have hkey := depth_le_length key
      have hvalue := depth_le_length value
      have hrest := depthEntries_le_length rest
      simp only [depthEntries, encodeEntries, length_append]
      omega
end

mutual
/-- With enough fuel an encoded item is read back, whatever follows it. -/
theorem readItem_encode : ∀ (item : CborItem) {fuel : Nat}, item.Valid → item.depth ≤ fuel → ∀ rest : Bytes,
    readItem fuel (item.encode ++ rest) = some (item, rest)
  | item, 0, _, hdepth, _ => by cases item <;> simp [depth] at hdepth
  | .unsigned n, fuel + 1, hvalid, _, rest => by
      simp [readItem, encode, readHead_head (show 0 < 8 by omega) hvalid rest]
  | .negative n, fuel + 1, hvalid, _, rest => by
      simp [readItem, encode, readHead_head (show 1 < 8 by omega) hvalid rest]
  | .bytes b, fuel + 1, hvalid, _, rest => by
      simp [readItem, encode, readHead_head (show 2 < 8 by omega) hvalid, splitBytes_append]
  | .text s, fuel + 1, hvalid, _, rest => by
      simp [readItem, encode, readHead_head (show 3 < 8 by omega) hvalid, splitBytes_append, ofUtf8?_utf8]
  | .array items, fuel + 1, hvalid, hdepth, rest => by
      have hitems := readItems_encode items hvalid.2 (Nat.le_of_succ_le_succ hdepth) rest
      simp [readItem, encode, readHead_head (show 4 < 8 by omega) hvalid.1, hitems]
  | .map entries, fuel + 1, hvalid, hdepth, rest => by
      have hentries := readEntries_encode entries hvalid.2.2 (Nat.le_of_succ_le_succ hdepth) rest
      simp [readItem, encode, readHead_head (show 5 < 8 by omega) hvalid.1, hentries]
  | .tag number content, fuel + 1, hvalid, hdepth, rest => by
      have hcontent := readItem_encode content hvalid.2 (Nat.le_of_succ_le_succ hdepth) rest
      simp [readItem, encode, readHead_head (show 6 < 8 by omega) hvalid.1, hcontent]

theorem readItems_encode : ∀ (items : List CborItem) {fuel : Nat}, ValidItems items → depthItems items ≤ fuel →
    ∀ rest : Bytes, readMany (readItem fuel) items.length (encodeItems items ++ rest) = some (items, rest)
  | [], _, _, _, _ => rfl
  | item :: items, fuel, hvalid, hdepth, rest => by
      have hitem := readItem_encode item hvalid.1 (Nat.le_trans (Nat.le_max_left _ _) hdepth) (encodeItems items ++ rest)
      have hitems := readItems_encode items hvalid.2 (Nat.le_trans (Nat.le_max_right _ _) hdepth) rest
      simp [readMany, encodeItems, hitem, hitems]

theorem readEntries_encode : ∀ (entries : List (CborItem × CborItem)) {fuel : Nat}, ValidEntries entries →
    depthEntries entries ≤ fuel → ∀ rest : Bytes,
    readMany (readPair (readItem fuel)) entries.length (encodeEntries entries ++ rest) = some (entries, rest)
  | [], _, _, _, _ => rfl
  | (key, value) :: entries, fuel, hvalid, hdepth, rest => by
      simp only [depthEntries, Nat.max_le] at hdepth
      have hkey := readItem_encode key hvalid.1 hdepth.1.1 (value.encode ++ (encodeEntries entries ++ rest))
      have hvalue := readItem_encode value hvalid.2.1 hdepth.1.2 (encodeEntries entries ++ rest)
      have hentries := readEntries_encode entries hvalid.2.2 hdepth.2 rest
      simp [readMany, readPair, encodeEntries, hkey, hvalue, hentries]
end

/-- Decoding inverts encoding. -/
theorem decode_encode {item : CborItem} (h : item.Valid) : decode item.encode = some item := by
  have hread := readItem_encode item h (depth_le_length item) []
  rw [append_nil] at hread
  rw [decode, hread]

end CborItem
