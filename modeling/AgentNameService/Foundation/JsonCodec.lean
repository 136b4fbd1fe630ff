/-
Purpose: How Go's encoding/json writes typed values and reads them back.  A codec carries the law that every
  document with the canonical form of a written value is read back as that value, up to the normal form of the
  parts that are quoted verbatim; records are put together field by field and inherit the law.
Trusted boundary: documented behaviour of encoding/json (struct tags, omitempty, null, case folding of keys);
  the text of a type error does not name the field.
-/
import AgentNameService.Foundation.Json
import AgentNameService.Foundation.Outcome
import Mathlib.Data.List.Perm.Basic
import Mathlib.Data.Set.List

namespace Json

open List Json

/-! ### Names of members -/

/-- The smallest character that a character folds to, for characters that fold to an ASCII letter. -/
def foldChar (c : Char) : Char :=
  if c = '\u212A' then 'k' else if c = '\u017F' then 's' else c.toLower

/-- The name under which a key is looked up among the fields of a record. -/
def foldName (key : String) : List Char := key.toList.map foldChar

/-- The members of an object with a name, in the order of the document. -/
def select (name : List Char) (members : List (String × Json)) : List (String × Json) :=
  members.filter fun m => foldName m.1 = name

variable {N : NumberFormat} {α β : Type} {members : List (String × Json)} {name : List Char} {b : β} {text : String}

theorem select_eq_nil (h : ∀ m ∈ members, foldName m.1 ≠ name) : select name members = [] := by
  simpa [select, filter_eq_nil_iff] using h

theorem select_append (name : List Char) (as bs : List (String × Json)) :
    select name (as ++ bs) = select name as ++ select name bs := by simp [select]

/-- Where a name occurs at most once, sorting does not change what is selected. -/
theorem select_sortMembers (h : (members.map (foldName ·.1)).Nodup)
    (name : List Char) : select name (sortMembers members) = select name members := by
  have hperm := (sortMembers_perm members).filter fun m => foldName m.1 = name
  have hshort : (select name members).length ≤ 1 := by
    by_contra hlong
    obtain ⟨a, b, rest, heq⟩ : ∃ a b rest, select name members = a :: b :: rest := by
      match hsel : select name members with
      | [] => simp [hsel] at hlong
      | [_] => simp [hsel] at hlong
      | a :: b :: rest => exact ⟨a, b, rest, rfl⟩
    have hsub : (select name members).Sublist members := filter_sublist
    have hnodup := h.sublist (hsub.map (foldName ·.1))
    have hname : ∀ m ∈ select name members, foldName m.1 = name := by simp [select]
    rw [heq] at hnodup hname
    have hab : foldName a.1 = foldName b.1 := (hname a (by simp)).trans (hname b (by simp)).symm
    simp [hab] at hnodup
  match hsel : select name members, hshort with
  | [], _ =>
    rw [select] at hsel
    rw [hsel] at hperm
    exact hperm.eq_nil
  | [a], _ =>
    rw [select] at hsel
    rw [hsel] at hperm
    exact hperm.eq_singleton

/-! ### Codecs -/

/-- What Go calls the kind of a document in a type error. -/
def kind : Json → String
  | .null => "null"
  | .bool _ => "bool"
  | .number _ => "number"
  | .string _ => "string"
  | .array _ => "array"
  | .object _ => "object"

def mismatch (j : Json) (typeName : String) : String :=
  "json: cannot unmarshal " ++ j.kind ++ " into Go value of type " ++ typeName

/-- How a type is written, and read into a value that is there already.  Values with one normal form have one
canonical text; that text is read as the normal form, and any document with that canonical text is read as a value
with that normal form. -/
structure Codec (N : NumberFormat) (α : Type) where
  zero : α
  isEmpty : α → Bool
  encode : α → Json
  decode : Json → α → Except String α
  norm : α → α
  norm_of_isEmpty : ∀ a, isEmpty a = true → norm a = zero
  isEmpty_norm : ∀ a, isEmpty (norm a) = isEmpty a
  canonical_norm : ∀ a, canonical N (encode (norm a)) = canonical N (encode a)
  decode_encode : ∀ a j, defect N (encode a) = none → canonical N j = canonical N (encode a) →
    ∃ b, decode j zero = .ok b ∧ norm b = norm a
  decode_canonical : ∀ a, defect N (encode a) = none → decode (canonical N (encode a)) zero = .ok (norm a)

theorem Codec.canonical_congr (C : Codec N α) {a b : α} (h : C.norm b = C.norm a) :
    canonical N (C.encode b) = canonical N (C.encode a) := by
  rw [← C.canonical_norm b, h, C.canonical_norm]

theorem Codec.defect_norm (C : Codec N α) {a : α} : defect N (C.encode (C.norm a)) = none ↔ defect N (C.encode a) = none := by
  rw [← defect_canonical, C.canonical_norm, defect_canonical]

/-- What is omitted when empty has the normal form of the zero value. -/
theorem Codec.norm_zero (C : Codec N α) {a : α} (h : C.isEmpty a = true) : C.norm C.zero = C.norm a := by
  have hzero := C.norm_of_isEmpty a h
  have hempty : C.isEmpty C.zero = true := by rw [← hzero, C.isEmpty_norm, h]
  rw [C.norm_of_isEmpty _ hempty, hzero]

/-- `json.Unmarshal` into a fresh value. -/
def unmarshal (C : Codec N α) (j : Json) : Except String α :=
  if 10000 < j.depth then .error "exceeded max depth" else C.decode j C.zero

theorem unmarshal_eq_ok_iff {C : Codec N α} {j : Json} {a : α} :
    unmarshal C j = .ok a ↔ j.depth ≤ 10000 ∧ C.decode j C.zero = .ok a := by
  unfold unmarshal
  split
  · simp [Nat.not_le.mpr ‹_›]
  · simp [Nat.not_lt.mp ‹_›]

/-- The canonical text of a value is read as its normal form. -/
theorem unmarshal_canonical (C : Codec N α) {a : α} (hdefect : defect N (C.encode a) = none)
    (hdepth : (C.encode a).depth ≤ 10000) : unmarshal C (canonical N (C.encode a)) = .ok (C.norm a) := by
  rw [unmarshal_eq_ok_iff, depth_canonical]
  exact ⟨hdepth, C.decode_canonical a hdefect⟩

namespace Codec

variable {entries : List (String × String)} {C : Codec N α}

/-- A Go string. -/
def string : Codec N String where
  zero := ""
  isEmpty := fun s => s = ""
  encode := .string
  decode
    | .string s, _ => .ok s
    | .null, s => .ok s
    | j, _ => .error (mismatch j "string")
  norm := id
  norm_of_isEmpty := by simp
  isEmpty_norm := by simp
  canonical_norm := by simp
  decode_encode := by
    intro a j _ h
    rw [canonical_string] at h
    rw [eq_string_of_canonical h]
    exact ⟨a, rfl, rfl⟩
  decode_canonical := by simp

/-- A Go bool. -/
def bool : Codec N Bool where
  zero := false
  isEmpty := fun b => !b
  encode := .bool
  decode
    | .bool b, _ => .ok b
    | .null, b => .ok b
    | j, _ => .error (mismatch j "bool")
  norm := id
  norm_of_isEmpty := by simp
  isEmpty_norm := by simp
  canonical_norm := by simp
  decode_encode := by
    intro a j _ h
    rw [canonical_bool] at h
    rw [eq_bool_of_canonical h]
    exact ⟨a, rfl, rfl⟩
  decode_canonical := by simp

/-- A `json.RawMessage` without omitempty: any document, quoted.  An unset message is written as null. -/
def raw : Codec N (Option Json) where
  zero := none
  isEmpty := fun _ => false
  encode := fun j => j.getD .null
  decode := fun j _ => .ok (some j)
  norm := fun j => some (canonical N (j.getD .null))
  norm_of_isEmpty := by simp
  isEmpty_norm := by simp
  canonical_norm := fun _ => canonical_canonical _
  decode_encode := fun _ j _ h => ⟨some j, rfl, congrArg some h⟩
  decode_canonical := fun _ _ => rfl

/-- A pointer to a value that is never written as null; a nil pointer is. -/
def pointer (C : Codec N α) (notNull : ∀ a, C.encode a ≠ .null) : Codec N (Option α) where
  zero := none
  isEmpty := Option.isNone
  encode := fun a => (a.map C.encode).getD .null
  decode
    | .null, _ => .ok none
    | j, old => some <$> C.decode j (old.getD C.zero)
  norm := Option.map C.norm
  norm_of_isEmpty := by simp
  isEmpty_norm := by simp
  canonical_norm := by
    intro a
    cases a with
    | none => rfl
    | some a => exact C.canonical_norm a
  decode_encode := by
    intro a j hdefect h
    cases a with
    | none =>
      rw [eq_null_of_canonical (h.trans canonical_null)]
      exact ⟨none, rfl, rfl⟩
    | some a =>
      obtain ⟨b, hdecode, hnorm⟩ := C.decode_encode a j hdefect h
      refine ⟨some b, ?_, congrArg some hnorm⟩
      have hj : j ≠ .null := by
        rintro rfl
        rw [canonical_null] at h
        exact notNull a (eq_null_of_canonical h.symm)
      cases j with
      | null => exact absurd rfl hj
      | _ => exact congrArg (some <$> ·) hdecode
  decode_canonical := by
    intro a hdefect
    cases a with
    | none => rfl
    | some a =>
      have hdecode := C.decode_canonical a hdefect
      have hne : canonical N (C.encode a) ≠ .null := fun h => notNull a (eq_null_of_canonical h)
      simp only [Option.map_some, Option.getD_some]
      cases hj : canonical N (C.encode a) with
      | null => exact absurd hj hne
      | _ =>
        rw [hj] at hdecode
        exact congrArg (some <$> ·) hdecode

/-- A type that is written as another. -/
def iso (C : Codec N α) (make : α → β) (view : β → α) (view_make : ∀ a, view (make a) = a) : Codec N β where
  zero := make C.zero
  isEmpty := fun b => C.isEmpty (view b)
  encode := fun b => C.encode (view b)
  decode := fun j b => make <$> C.decode j (view b)
  norm := fun b => make (C.norm (view b))
  norm_of_isEmpty := by
    intro b h
    rw [C.norm_of_isEmpty _ h]
  isEmpty_norm := by
    intro b
    rw [view_make, C.isEmpty_norm]
  canonical_norm := by
    intro b
    rw [view_make, C.canonical_norm]
  decode_encode := by
    intro b j hdefect h
    obtain ⟨a, hdecode, hnorm⟩ := C.decode_encode (view b) j hdefect h
    refine ⟨make a, ?_, ?_⟩
    · rw [view_make, hdecode]
      rfl
    · rw [view_make, hnorm]
  decode_canonical := by
    intro b hdefect
    rw [view_make, C.decode_canonical _ hdefect]
    rfl

@[simp] theorem encode_iso {make : α → β} {view : β → α} {view_make : ∀ a, view (make a) = a} :
    (iso C make view view_make).encode b = C.encode (view b) := rfl

/-! ### Slices and maps -/

/-- Read items one by one, each into the element that is there already. -/
def decodeItems (C : Codec N α) : List Json → List α → Except String (List α)
  | [], _ => .ok []
  | j :: js, olds => do
      let a ← C.decode j (olds.head?.getD C.zero)
      let as ← decodeItems C js olds.tail
      return a :: as

theorem decodeItems_encode (C : Codec N α) {as : List α} {js : List Json}
    (hdefect : ∀ a ∈ as, defect N (C.encode a) = none)
    (h : js.map (canonical N) = as.map fun a => canonical N (C.encode a)) :
    ∃ bs, C.decodeItems js [] = .ok bs ∧ bs.map C.norm = as.map C.norm := by
  induction as generalizing js with
  | nil =>
    rw [map_eq_nil_iff.mp h]
    exact ⟨[], rfl, rfl⟩
  | cons a as ih =>
    obtain ⟨j, js', rfl, hhead, htail⟩ := map_eq_cons_iff.mp h
    obtain ⟨b, hb, hnorm⟩ := C.decode_encode a j (hdefect a mem_cons_self) hhead
    obtain ⟨bs, hbs, hnorms⟩ := ih (fun x hx => hdefect x (mem_cons_of_mem a hx)) htail
    refine ⟨b :: bs, ?_, ?_⟩
    · simp [decodeItems, hb, hbs]
    · rw [map_cons, map_cons, hnorm, hnorms]

theorem decodeItems_canonical (C : Codec N α) {as : List α} (hdefect : ∀ a ∈ as, defect N (C.encode a) = none) :
    C.decodeItems (as.map fun a => canonical N (C.encode a)) [] = .ok (as.map C.norm) := by
  induction as with
  | nil => rfl
  | cons a as ih =>
    have hhead := C.decode_canonical a (hdefect a mem_cons_self)
    have htail := ih fun x hx => hdefect x (mem_cons_of_mem a hx)
    simp [decodeItems, hhead, htail]

/-- A slice with omitempty. -/
def list (typeName : String) (C : Codec N α) : Codec N (List α) where
  zero := []
  isEmpty := List.isEmpty
  encode := fun as => .array (as.map C.encode)
  decode
    | .array items, olds => C.decodeItems items olds
    | .null, _ => .ok []
    | j, _ => .error (mismatch j ("[]" ++ typeName))
  norm := List.map C.norm
  norm_of_isEmpty := by simp
  isEmpty_norm := by simp
  canonical_norm := by
    intro as
    simp only [canonical_array, map_map, array.injEq]
    exact map_congr_left fun a _ => C.canonical_norm a
  decode_encode := by
    intro as j hdefect h
    rw [canonical_array, map_map] at h
    obtain ⟨js, rfl, hjs⟩ := array_of_canonical h
    rw [defect_array_eq_none, forall_mem_map] at hdefect
    exact C.decodeItems_encode hdefect hjs
  decode_canonical := by
    intro as hdefect
    rw [defect_array_eq_none, forall_mem_map] at hdefect
    rw [canonical_array, map_map]
    exact C.decodeItems_canonical hdefect

/-- Set a key of a map. -/
def put (entries : List (String × String)) (key value : String) : List (String × String) :=
  if entries.any (·.1 = key) then entries.map fun e => if e.1 = key then (key, value) else e
  else entries ++ [(key, value)]

/-- Read the members of an object into a map. -/
def decodeEntries : List (String × Json) → List (String × String) → Except String (List (String × String))
  | [], entries => .ok entries
  | (key, j) :: rest, entries => do
      let value ← (string : Codec N String).decode j ""
      decodeEntries rest (put entries key value)

/-- A map without its order: the entries sorted by key. -/
def sortEntries (entries : List (String × String)) : List (String × String) :=
  entries.insertionSort fun a b => sortKey a.1 ≤ sortKey b.1

def encodeEntry (e : String × String) : String × Json := (e.1, .string e.2)

theorem encodeEntry_injective : Function.Injective encodeEntry := by
  rintro ⟨key, value⟩ ⟨key', value'⟩ h
  simp only [encodeEntry, Prod.mk.injEq, string.injEq] at h
  exact Prod.ext h.1 h.2

theorem decodeEntries_encode {acc : List (String × String)} (h : ((acc ++ entries).map Prod.fst).Nodup) :
    decodeEntries (N := N) (entries.map encodeEntry) acc = .ok (acc ++ entries) := by
  induction entries generalizing acc with
  | nil => simp [decodeEntries]
  | cons e rest ih =>
    have hfresh : acc.any (·.1 = e.1) = false := by
      simp only [any_eq_false, decide_eq_true_eq]
      intro old hold heq
      rw [map_append, nodup_append] at h
      exact h.2.2 _ (mem_map_of_mem hold) _ (by simp) heq
    have hput : put acc e.1 e.2 = acc ++ [e] := by simp [put, hfresh]
    have hrest : decodeEntries (rest.map encodeEntry) (acc ++ [e]) = .ok (acc ++ [e] ++ rest) :=
      ih (by simpa using h)
    simpa [decodeEntries, encodeEntry, string, hput] using hrest

theorem sortMembers_encodeEntry (entries : List (String × String)) :
    sortMembers (entries.map encodeEntry) = (sortEntries entries).map encodeEntry := by
  unfold sortMembers sortEntries
  exact (map_insertionSort _ _ encodeEntry entries fun _ _ _ _ => Iff.rfl).symm

theorem canonicalMembers_encodeEntry (entries : List (String × String)) :
    canonicalMembers N (entries.map encodeEntry) = entries.map encodeEntry := by
  simp [canonicalMembers_eq, encodeEntry, Function.comp_def]

theorem sortEntries_sorted (entries : List (String × String)) :
    (sortEntries entries).Pairwise fun a b => sortKey a.1 ≤ sortKey b.1 := by
  have hsorted := sortMembers_sorted (entries.map encodeEntry)
  rw [sortMembers_encodeEntry, pairwise_map] at hsorted
  exact hsorted

/-- Where no key occurs twice, the order of the entries does not matter. -/
theorem sortEntries_congr {as bs : List (String × String)} (h : as.Perm bs) (hnodup : (bs.map (sortKey ·.1)).Nodup) :
    sortEntries as = sortEntries bs := by
  have hperm (entries : List (String × String)) : (sortEntries entries).Perm entries := perm_insertionSort _ _
  apply List.Perm.eq_of_pairwise _ (sortEntries_sorted as) (sortEntries_sorted bs)
    ((hperm as).trans (h.trans (hperm bs).symm))
  intro a b ha hb hle hge
  have ha' : a ∈ bs := h.mem_iff.mp ((hperm as).mem_iff.mp ha)
  have hb' : b ∈ bs := (hperm bs).mem_iff.mp hb
  exact inj_on_of_nodup_map hnodup ha' hb' (le_antisymm hle hge)

/-- Members that are those of a map, up to their order, are written by a map. -/
theorem entries_of_perm (h : (canonicalMembers N members).Perm (entries.map encodeEntry)) :
    ∃ es : List (String × String), members = es.map encodeEntry ∧ es.Perm entries := by
  have hrange : members ∈ Set.range (List.map encodeEntry) := by
    rw [Set.range_list_map]
    intro m hm
    have hmem : (m.1, canonical N m.2) ∈ entries.map encodeEntry := by
      rw [← h.mem_iff, canonicalMembers_eq]
      exact mem_map_of_mem hm
    obtain ⟨e, _, heq⟩ := mem_map.mp hmem
    obtain ⟨hkey, hvalue⟩ := Prod.mk.inj heq
    exact ⟨e, Prod.ext hkey (eq_string_of_canonical hvalue.symm).symm⟩
  obtain ⟨es, rfl⟩ := hrange
  rw [canonicalMembers_encodeEntry] at h
  exact ⟨es, rfl, (map_perm_map_iff encodeEntry_injective).mp h⟩

theorem nodup_sortKeys (h : defect N (.object (entries.map encodeEntry)) = none) :
    (entries.map (sortKey ·.1)).Nodup := by
  have hkeys := (defect_object_eq_none.mp h).2
  rwa [map_map] at hkeys

/-- The keys of a map differ, in whatever order its entries stand. -/
theorem nodup_keys {es : List (String × String)} (hperm : es.Perm entries)
    (h : defect N (.object (entries.map encodeEntry)) = none) : (es.map Prod.fst).Nodup := by
  have hnodup := nodup_sortKeys h
  rw [(hperm.map Prod.fst).nodup_iff]
  rw [← Function.comp_def sortKey Prod.fst, ← map_map] at hnodup
  exact hnodup.of_map

/-- A map from strings to strings, with omitempty. -/
def stringMap : Codec N (List (String × String)) where
  zero := []
  isEmpty := List.isEmpty
  encode := fun entries => .object (entries.map encodeEntry)
  decode
    | .object members, entries => decodeEntries members entries
    | .null, _ => .ok []
    | j, _ => .error (mismatch j "map[string]string")
  norm := sortEntries
  norm_of_isEmpty := by simp [sortEntries]
  isEmpty_norm := by
    intro entries
    have hperm : (sortEntries entries).Perm entries := perm_insertionSort _ _
    rw [Bool.eq_iff_iff, List.isEmpty_iff, List.isEmpty_iff]
    rw [← length_eq_zero_iff, ← length_eq_zero_iff, hperm.length_eq]
  canonical_norm := by
    intro entries
    rw [canonical_object, canonical_object, canonicalMembers_encodeEntry, canonicalMembers_encodeEntry,
      ← sortMembers_encodeEntry, sortMembers_eq_self (sortMembers_sorted _)]
  decode_encode := by
    intro entries j hdefect h
    rw [canonical_object, canonicalMembers_encodeEntry] at h
    obtain ⟨members, rfl, hmembers⟩ := object_of_canonical h
    have hperm : (canonicalMembers N members).Perm (entries.map encodeEntry) := by
      apply (sortMembers_perm _).symm.trans
      rw [hmembers]
      exact sortMembers_perm _
    obtain ⟨es, rfl, hes⟩ := entries_of_perm hperm
    have hnodup := nodup_sortKeys hdefect
    have hkeys : (es.map Prod.fst).Nodup := nodup_keys hes hdefect
    refine ⟨es, ?_, sortEntries_congr hes hnodup⟩
    have hread : decodeEntries (N := N) (es.map encodeEntry) [] = .ok ([] ++ es) :=
      decodeEntries_encode (by rwa [nil_append])
    rwa [nil_append] at hread
  decode_canonical := by
    intro entries hdefect
    have hkeys : ((sortEntries entries).map Prod.fst).Nodup := nodup_keys (perm_insertionSort _ _) hdefect
    rw [canonical_object, canonicalMembers_encodeEntry, sortMembers_encodeEntry]
    have hread : decodeEntries (N := N) ((sortEntries entries).map encodeEntry) [] = .ok ([] ++ sortEntries entries) :=
      decodeEntries_encode (by rwa [nil_append])
    rwa [nil_append] at hread

end Codec

/-! ### Records -/

/-- The fields of a struct: what is written for a value, in the order of declaration, and how each field picks
its members out of an object.  Folded names differ, so that one member belongs to one field. -/
structure Record (N : NumberFormat) (α : Type) where
  names : List (List Char)
  zero : α
  write : α → List (String × Json)
  read : List (String × Json) → α → Except String α
  norm : α → α
  nodup : ∀ a, ((write a).map (foldName ·.1)).Nodup
  named : ∀ a, ∀ m ∈ write a, foldName m.1 ∈ names
  write_norm : ∀ a, canonicalMembers N (write (norm a)) = canonicalMembers N (write a)
  read_write : ∀ a members, (∀ m ∈ write a, defect N m.2 = none) →
    (∀ name ∈ names, canonicalMembers N (select name members) = select name (canonicalMembers N (write a))) →
    ∃ b, read members zero = .ok b ∧ norm b = norm a
  read_canonical : ∀ a members, (∀ m ∈ write a, defect N m.2 = none) →
    (∀ name ∈ names, select name members = select name (canonicalMembers N (write a))) →
    read members zero = .ok (norm a)

namespace Record

variable {typeName : String}

/-- No fields. -/
def nil : Record N Unit where
  names := []
  zero := ()
  write := fun _ => []
  read := fun _ _ => .ok ()
  norm := id
  nodup := by simp
  named := by simp
  write_norm := by simp
  read_write := by simp
  read_canonical := by simp

/-- Read every member with a name into one value, in the order of the document. -/
def readField (C : Codec N α) : List (String × Json) → α → Except String α
  | [], a => .ok a
  | m :: rest, a => do
      let a' ← C.decode m.2 a
      readField C rest a'

/-- The member that is written for a field. -/
def writeField (key : String) (omitEmpty : Bool) (C : Codec N α) (a : α) : List (String × Json) :=
  if omitEmpty && C.isEmpty a then [] else [(key, C.encode a)]

section Field

variable {key : String} {omitEmpty : Bool} {C : Codec N α} {a : α}

theorem name_writeField (h : name ∈ (writeField key omitEmpty C a).map (foldName ·.1)) : name = foldName key := by
  unfold writeField at h
  split at h
  · cases h
  · simpa using h

theorem nodup_writeField : ((writeField key omitEmpty C a).map (foldName ·.1)).Nodup := by
  unfold writeField
  split <;> simp

theorem writeField_norm : canonicalMembers N (writeField key omitEmpty C (C.norm a)) =
    canonicalMembers N (writeField key omitEmpty C a) := by
  unfold writeField
  rw [C.isEmpty_norm]
  by_cases homitted : (omitEmpty && C.isEmpty a) = true
  · rw [if_pos homitted, if_pos homitted]
  · rw [if_neg homitted, if_neg homitted]
    simp [canonicalMembers, C.canonical_norm a]

theorem select_writeField : select (foldName key) (canonicalMembers N (writeField key omitEmpty C a)) =
    canonicalMembers N (writeField key omitEmpty C a) := by
  unfold writeField
  split <;> simp [canonicalMembers, select]

theorem select_writeField_of_ne (h : foldName key ≠ name) :
    select name (canonicalMembers N (writeField key omitEmpty C a)) = [] := by
  unfold writeField
  split <;> simp [canonicalMembers, select, h]

/-- What was omitted is read as the zero value, and what was written as it was. -/
theorem readField_writeField (hdefect : ∀ m ∈ writeField key omitEmpty C a, defect N m.2 = none)
    (h : canonicalMembers N members = canonicalMembers N (writeField key omitEmpty C a)) :
    ∃ b, readField C members C.zero = .ok b ∧ C.norm b = C.norm a := by
  unfold writeField at hdefect h
  by_cases homitted : (omitEmpty && C.isEmpty a) = true
  · rw [if_pos homitted, canonicalMembers_eq] at h
    rw [map_eq_nil_iff.mp h]
    exact ⟨C.zero, rfl, C.norm_zero (Bool.and_eq_true_iff.mp homitted).2⟩
  · rw [if_neg homitted] at hdefect h
    rw [canonicalMembers_eq, canonicalMembers_eq, map_singleton] at h
    obtain ⟨m, rfl, hm⟩ := map_eq_singleton_iff.mp h
    have hvalue : canonical N m.2 = canonical N (C.encode a) := (Prod.mk.inj hm).2
    obtain ⟨b, hdecode, hnorm⟩ := C.decode_encode a m.2 (hdefect _ mem_cons_self) hvalue
    refine ⟨b, ?_, hnorm⟩
    simp [readField, hdecode]

theorem readField_canonical (hdefect : ∀ m ∈ writeField key omitEmpty C a, defect N m.2 = none) :
    readField C (canonicalMembers N (writeField key omitEmpty C a)) C.zero = .ok (C.norm a) := by
  unfold writeField at hdefect ⊢
  by_cases homitted : (omitEmpty && C.isEmpty a) = true
  · rw [if_pos homitted, C.norm_of_isEmpty a (Bool.and_eq_true_iff.mp homitted).2]
    rfl
  · rw [if_neg homitted] at hdefect ⊢
    have hdecode := C.decode_canonical a (hdefect _ mem_cons_self)
    simp [canonicalMembers, readField, hdecode]

end Field

theorem select_canonicalMembers_rest (rest : Record N β) (fresh : name ∉ rest.names) :
    select name (canonicalMembers N (rest.write b)) = [] := by
  apply select_eq_nil
  intro m hm heq
  rw [canonicalMembers_eq] at hm
  obtain ⟨old, hold, rfl⟩ := mem_map.mp hm
  exact fresh (heq ▸ rest.named b old hold)

section Cons

variable {key : String} {omitEmpty : Bool} {C : Codec N α} {rest : Record N β}

theorem nodup_cons (fresh : foldName key ∉ rest.names) (x : α × β) :
    ((writeField key omitEmpty C x.1 ++ rest.write x.2).map (foldName ·.1)).Nodup := by
  rw [map_append, nodup_append]
  refine ⟨nodup_writeField, rest.nodup x.2, ?_⟩
  intro name hname other hother
  obtain ⟨m, hm, rfl⟩ := mem_map.mp hother
  rw [name_writeField hname]
  exact fun heq => fresh (heq ▸ rest.named x.2 m hm)

theorem named_cons (x : α × β) : ∀ m ∈ writeField key omitEmpty C x.1 ++ rest.write x.2,
    foldName m.1 ∈ foldName key :: rest.names := by
  intro m hm
  rcases mem_append.mp hm with hown | hrest
  · rw [name_writeField (mem_map_of_mem hown)]
    exact mem_cons_self
  · exact mem_cons_of_mem _ (rest.named x.2 m hrest)

/-- What the names of a record select, for its first field and for the others.  The members are compared through
a function on them, so that both laws of a record use this. -/
theorem select_cons (fresh : foldName key ∉ rest.names) {f : List (String × Json) → List (String × Json)} {x : α × β}
    (h : ∀ name ∈ foldName key :: rest.names, f (select name members) =
      select name (canonicalMembers N (writeField key omitEmpty C x.1 ++ rest.write x.2))) :
    f (select (foldName key) members) = canonicalMembers N (writeField key omitEmpty C x.1) ∧
      ∀ name ∈ rest.names, f (select name members) = select name (canonicalMembers N (rest.write x.2)) := by
  simp only [canonicalMembers_append, select_append, forall_mem_cons] at h
  obtain ⟨hkey, hnames⟩ := h
  rw [select_canonicalMembers_rest rest fresh, append_nil, select_writeField] at hkey
  refine ⟨hkey, ?_⟩
  intro name hname
  rw [hnames name hname, select_writeField_of_ne, nil_append]
  exact fun heq => fresh (heq ▸ hname)

end Cons

/-- A field in front of the others. -/
def cons (key : String) (omitEmpty : Bool) (C : Codec N α) (rest : Record N β)
    (fresh : foldName key ∉ rest.names) : Record N (α × β) where
  names := foldName key :: rest.names
  zero := (C.zero, rest.zero)
  write := fun x => writeField key omitEmpty C x.1 ++ rest.write x.2
  read := fun members x => do
    let a ← readField C (select (foldName key) members) x.1
    let b ← rest.read members x.2
    return (a, b)
  norm := fun x => (C.norm x.1, rest.norm x.2)
  nodup := nodup_cons fresh
  named := named_cons
  write_norm := by
    intro x
    rw [canonicalMembers_append, canonicalMembers_append, writeField_norm, rest.write_norm]
  read_write := by
    intro x members hdefect h
    rw [forall_mem_append] at hdefect
    obtain ⟨hkey, hnames⟩ := select_cons fresh h
    obtain ⟨a, ha, hnorm⟩ := readField_writeField hdefect.1 hkey
    obtain ⟨b, hb, hnormRest⟩ := rest.read_write x.2 members hdefect.2 hnames
    refine ⟨(a, b), ?_, Prod.ext hnorm hnormRest⟩
    simp [ha, hb]
  read_canonical := by
    intro x members hdefect h
    rw [forall_mem_append] at hdefect
    have hparts := select_cons (f := id) fresh h
    obtain ⟨hkey, hnames⟩ := hparts
    have hfield := readField_canonical hdefect.1
    have hrest := rest.read_canonical x.2 members hdefect.2 hnames
    rw [← hkey] at hfield
    simp only [id_eq] at hfield
    simp [hfield, hrest]

@[simp] theorem names_nil : (nil : Record N Unit).names = [] := rfl

@[simp] theorem names_cons {key : String} {omitEmpty : Bool} {C : Codec N α} {rest : Record N β}
    {fresh : foldName key ∉ rest.names} : (cons key omitEmpty C rest fresh).names = foldName key :: rest.names := rfl

/-- A field that is always written. -/
abbrev required (key : String) (C : Codec N α) (rest : Record N β)
    (fresh : foldName key ∉ rest.names := by
      simp only [Record.names_cons, Record.names_nil]; decide +kernel) : Record N (α × β) :=
  cons key false C rest fresh

/-- A field with omitempty. -/
abbrev optional (key : String) (C : Codec N α) (rest : Record N β)
    (fresh : foldName key ∉ rest.names := by
      simp only [Record.names_cons, Record.names_nil]; decide +kernel) : Record N (α × β) :=
  cons key true C rest fresh

theorem nodup_canonicalMembers (R : Record N α) (a : α) :
    ((canonicalMembers N (R.write a)).map (foldName ·.1)).Nodup := by
  rw [canonicalMembers_eq, map_map]
  exact R.nodup a

/-- What a name selects in the canonical text of a record. -/
theorem select_canonical (R : Record N α) (a : α) (name : List Char) :
    select name (sortMembers (canonicalMembers N (R.write a))) = select name (canonicalMembers N (R.write a)) :=
  select_sortMembers (R.nodup_canonicalMembers a) name

/-- The members of a document that is, up to their order and their values' canonical forms, what a record writes. -/
theorem select_of_canonical (R : Record N α) {a : α}
    (h : canonical N (.object members) = canonical N (.object (R.write a))) (name : List Char) :
    canonicalMembers N (select name members) = select name (canonicalMembers N (R.write a)) := by
  rw [canonical_object, canonical_object, object.injEq] at h
  have hperm : (canonicalMembers N members).Perm (canonicalMembers N (R.write a)) := by
    apply (sortMembers_perm _).symm.trans
    rw [h]
    exact sortMembers_perm _
  have hnodup : ((canonicalMembers N members).map (foldName ·.1)).Nodup := by
    rw [(hperm.map (foldName ·.1)).nodup_iff]
    exact R.nodup_canonicalMembers a
  have hcommute : canonicalMembers N (select name members) = select name (canonicalMembers N members) := by
    rw [canonicalMembers_eq, canonicalMembers_eq, select, select, filter_map]
    rfl
  rw [hcommute, ← select_sortMembers hnodup, h]
  exact R.select_canonical a name

/-- A struct. -/
def codec (typeName : String) (R : Record N α) : Codec N α where
  zero := R.zero
  isEmpty := fun _ => false
  encode := fun a => .object (R.write a)
  decode
    | .object members, a => R.read members a
    | .null, a => .ok a
    | j, _ => .error (mismatch j typeName)
  norm := R.norm
  norm_of_isEmpty := by simp
  isEmpty_norm := by simp
  canonical_norm := by
    intro a
    rw [canonical_object, canonical_object, R.write_norm]
  decode_encode := by
    intro a j hdefect h
    obtain ⟨members, rfl, _⟩ := object_of_canonical (h.trans (canonical_object _))
    exact R.read_write a members (defect_object_eq_none.mp hdefect).1 fun name _ => R.select_of_canonical h name
  decode_canonical := by
    intro a hdefect
    rw [canonical_object]
    exact R.read_canonical a _ (defect_object_eq_none.mp hdefect).1 fun name _ => R.select_canonical a name

/-! ### What is written -/

section Write

variable {key : String} {C : Codec N α} {rest : Record N β} {fresh : foldName key ∉ rest.names} {x : α × β}

@[simp] theorem encode_codec {R : Record N α} {a : α} : (codec typeName R).encode a = .object (R.write a) := rfl

theorem write_optional (h : C.isEmpty x.1 = false) :
    (optional key C rest fresh).write x = (key, C.encode x.1) :: rest.write x.2 := by
  simp [optional, cons, writeField, h]

theorem write_optional_of_isEmpty (h : C.isEmpty x.1 = true) : (optional key C rest fresh).write x = rest.write x.2 := by
  simp [optional, cons, writeField, h]

end Write

/-! ### Reading a few fields of a record that has more -/

section Narrow

variable {key : String} {omitEmpty : Bool} {C : Codec N α} {rest : Record N β} {fresh : foldName key ∉ rest.names}
variable {x : α × β} {a : α}

theorem select_write_self : select (foldName key) (canonicalMembers N ((cons key omitEmpty C rest fresh).write x)) =
    canonicalMembers N (writeField key omitEmpty C x.1) := by
  change select (foldName key) (canonicalMembers N (writeField key omitEmpty C x.1 ++ rest.write x.2)) = _
  rw [canonicalMembers_append, select_append, select_writeField, select_canonicalMembers_rest rest fresh,
    append_nil]

theorem select_write_of_ne (h : foldName key ≠ name) :
    select name (canonicalMembers N ((cons key omitEmpty C rest fresh).write x)) =
      select name (canonicalMembers N (rest.write x.2)) := by
  change select name (canonicalMembers N (writeField key omitEmpty C x.1 ++ rest.write x.2)) = _
  rw [canonicalMembers_append, select_append, select_writeField_of_ne h, nil_append]

/-- Reading one field of an object, and then others. -/
theorem decode_object (hfield : readField C (select (foldName key) members) x.1 = .ok a)
    (hrest : (codec typeName rest).decode (.object members) x.2 = .ok b) :
    (codec typeName (cons key omitEmpty C rest fresh)).decode (.object members) x = .ok (a, b) := by
  change (cons key omitEmpty C rest fresh).read members x = .ok (a, b)
  change rest.read members x.2 = .ok b at hrest
  simp [cons, hfield, hrest]

/-- A field whose name one member has. -/
theorem decode_of_select {name : String} {j : Json}
    (hselect : select (foldName key) members = [(name, j)]) (hdecode : C.decode j x.1 = .ok a)
    (hrest : (codec typeName rest).decode (.object members) x.2 = .ok b) :
    (codec typeName (cons key omitEmpty C rest fresh)).decode (.object members) x = .ok (a, b) := by
  refine decode_object ?_ hrest
  simp [hselect, readField, hdecode]

/-- Reading one field of the canonical text of a record, and then others. -/
theorem decode_field {γ : Type} {R : Record N γ} {c : γ}
    (hfield : readField C (select (foldName key) (canonicalMembers N (R.write c))) x.1 = .ok a)
    (hrest : (codec typeName rest).decode (canonical N (.object (R.write c))) x.2 = .ok b) :
    (codec typeName (cons key omitEmpty C rest fresh)).decode (canonical N (.object (R.write c))) x = .ok (a, b) := by
  rw [canonical_object] at hrest ⊢
  refine decode_object ?_ hrest
  rw [R.select_canonical, hfield]

theorem decode_nil {u : Unit} :
    (codec typeName (nil : Record N Unit)).decode (canonical N (.object members)) u = .ok () := by
  simp only [codec, nil, canonical_object]

/-- The text of a field that is written as a string. -/
theorem readField_string {old : String} (hencode : C.encode a = .string text)
    (hempty : C.isEmpty a = true → text = old) :
    readField (Codec.string : Codec N String) (canonicalMembers N (writeField key omitEmpty C a)) old = .ok text := by
  unfold writeField
  split
  · rename_i homitted
    rw [hempty (Bool.and_eq_true_iff.mp homitted).2]
    rfl
  · simp [canonicalMembers, hencode, readField, Codec.string]

end Narrow

end Record

end Json
