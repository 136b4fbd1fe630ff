/-
Purpose: JSON documents and their canonical form (RFC 8785): members sorted by the UTF-16 units of their
  keys, numbers in one format, no key twice.  A canonical document stands for its own text, so equality of
  canonical texts is equality of documents.
Trusted boundary: how a number literal is formatted is a parameter with one law.
-/
import Mathlib.Data.List.Sort
import Mathlib.Data.List.Lex

/-- A JSON document.  Members keep their order, and a key may occur more than once. -/
inductive Json where
  | null
  | bool (value : Bool)
  | number (literal : String)
  | string (text : String)
  | array (items : List Json)
  | object (members : List (String × Json))
deriving Repr

namespace Json

open List Json

/-- Induction over the items and the members of a document. -/
@[elab_as_elim, induction_eliminator]
theorem induct {P : Json → Prop} (null : P .null) (bool : ∀ value, P (.bool value))
    (number : ∀ literal, P (.number literal)) (string : ∀ text, P (.string text))
    (array : ∀ items, (∀ item ∈ items, P item) → P (.array items))
    (object : ∀ members, (∀ m ∈ members, P m.2) → P (.object members)) (j : Json) : P j := by
  refine @rec P (fun items => ∀ item ∈ items, P item) (fun members => ∀ m ∈ members, P m.2) (fun m => P m.2)
    null bool number string array object ?_ ?_ ?_ ?_ ?_ j
  · simp
  · intro head tail hhead htail item hitem
    rcases mem_cons.mp hitem with rfl | hmem
    · exact hhead
    · exact htail item hmem
  · simp
  · intro head tail hhead htail m hm
    rcases mem_cons.mp hm with rfl | hmem
    · exact hhead
    · exact htail m hmem
  · exact fun _ _ h => h

/-! ### Equality -/

mutual
def beq : Json → Json → Bool
  | .null, .null => true
  | .bool a, .bool b => a == b
  | .number a, .number b => a == b
  | .string a, .string b => a == b
  | .array as, .array bs => beqItems as bs
  | .object as, .object bs => beqMembers as bs
  | _, _ => false

def beqItems : List Json → List Json → Bool
  | [], [] => true
  | a :: as, b :: bs => beq a b && beqItems as bs
  | _, _ => false

def beqMembers : List (String × Json) → List (String × Json) → Bool
  | [], [] => true
  | (k, a) :: as, (l, b) :: bs => k == l && beq a b && beqMembers as bs
  | _, _ => false
end

mutual
theorem beq_iff : ∀ a b : Json, beq a b = true ↔ a = b
  | .null, b | .bool _, b | .number _, b | .string _, b => by cases b <;> simp [beq]
  | .array as, b => by
      cases b with
      | array bs => simp [beq, beqItems_iff as bs]
      | _ => simp [beq]
  | .object as, b => by
      cases b with
      | object bs => simp [beq, beqMembers_iff as bs]
      | _ => simp [beq]

theorem beqItems_iff : ∀ as bs : List Json, beqItems as bs = true ↔ as = bs
  | [], bs => by cases bs <;> simp [beqItems]
  | a :: as, bs => by
      cases bs with
      | nil => simp [beqItems]
      | cons b bs => simp [beqItems, beq_iff a b, beqItems_iff as bs]

theorem beqMembers_iff : ∀ as bs : List (String × Json), beqMembers as bs = true ↔ as = bs
  | [], bs => by cases bs <;> simp [beqMembers]
  | (k, a) :: as, bs => by
      cases bs with
      | nil => simp [beqMembers]
      | cons m bs =>
        obtain ⟨l, b⟩ := m
        simp [beqMembers, beq_iff a b, beqMembers_iff as bs, and_assoc]
end

instance : DecidableEq Json := fun a b => decidable_of_iff (beq a b = true) (beq_iff a b)

/-! ### Nesting -/

mutual
/-- How deep arrays and objects are nested. -/
def depth : Json → Nat
  | .array items => depthItems items + 1
  | .object members => depthMembers members + 1
  | .null | .bool _ | .number _ | .string _ => 0

def depthItems : List Json → Nat
  | [] => 0
  | item :: rest => max item.depth (depthItems rest)

def depthMembers : List (String × Json) → Nat
  | [] => 0
  | (_, value) :: rest => max value.depth (depthMembers rest)
end

theorem depthItems_eq (items : List Json) : depthItems items = (items.map depth).foldr max 0 := by
  induction items with
  | nil => rfl
  | cons item rest ih => simp [depthItems, ih]

theorem depthMembers_eq (members : List (String × Json)) :
    depthMembers members = (members.map (·.2.depth)).foldr max 0 := by
  induction members with
  | nil => rfl
  | cons m rest ih => simp [depthMembers, ih]

/-- The order of the members does not matter for the depth. -/
theorem depthMembers_perm {as bs : List (String × Json)} (h : as.Perm bs) : depthMembers as = depthMembers bs := by
  induction h with
  | nil => rfl
  | cons m _ ih => simp [depthMembers, ih]
  | swap m m' rest => simp [depthMembers, max_left_comm]
  | trans _ _ ih ih' => exact ih.trans ih'

/-! ### Canonical form -/

/-- The UTF-16 code units of a character. -/
def utf16Units (c : Char) : List Nat :=
  if c.toNat < 0x10000 then [c.toNat]
  else [0xD800 + (c.toNat - 0x10000) / 0x400, 0xDC00 + (c.toNat - 0x10000) % 0x400]

/-- What members are sorted by. -/
def sortKey (key : String) : List Nat := key.toList.flatMap utf16Units

/-- Sort members by their keys. -/
def sortMembers (members : List (String × Json)) : List (String × Json) :=
  members.insertionSort fun a b => sortKey a.1 ≤ sortKey b.1

/-- How a number literal is written in canonical form, or why it has none.  A literal in that form stays. -/
structure NumberFormat where
  format : String → Except String String
  format_format : ∀ literal text, format literal = .ok text → format text = .ok text

/-- Every literal is kept as it is. -/
def NumberFormat.verbatim : NumberFormat := ⟨.ok, fun _ _ h => by cases h; rfl⟩

variable (N : NumberFormat)

/-- The canonical form of a literal; a literal without one is left as it is. -/
def NumberFormat.canonical (literal : String) : String :=
  match N.format literal with
  | .ok text => text
  | .error _ => literal

mutual
/-- Sort the members of every object and format every number. -/
def canonical : Json → Json
  | .null => .null
  | .bool value => .bool value
  | .number literal => .number (N.canonical literal)
  | .string text => .string text
  | .array items => .array (canonicalItems items)
  | .object members => .object (sortMembers (canonicalMembers members))

def canonicalItems : List Json → List Json
  | [] => []
  | item :: rest => canonical item :: canonicalItems rest

def canonicalMembers : List (String × Json) → List (String × Json)
  | [] => []
  | (key, value) :: rest => (key, canonical value) :: canonicalMembers rest
end

mutual
/-- Why a document has no canonical form: a number out of range, or a key that occurs twice in one object. -/
def defect : Json → Option String
  | .number literal =>
    match N.format literal with
    | .ok _ => none
    | .error text => some text
  | .array items => defectItems items
  | .object members => defectMembers [] members
  | .null | .bool _ | .string _ => none

def defectItems : List Json → Option String
  | [] => none
  | item :: rest => (defect item).or (defectItems rest)

def defectMembers (seen : List (List Nat)) : List (String × Json) → Option String
  | [] => none
  | (key, value) :: rest =>
    (defect value).or
      (if sortKey key ∈ seen then some ("Duplicate key: " ++ key)
      else defectMembers (sortKey key :: seen) rest)
end

/-- The first character of a document's text. -/
def leading : Json → String
  | .null => "n"
  | .bool true => "t"
  | .bool false => "f"
  | .number literal => (literal.take 1).toString
  | .string _ => "\""
  | .array _ => "["
  | .object _ => "\x7b"

/-- Canonicalize a document; at the top only an array or an object is accepted. -/
def canonicalize : Json → Except String Json
  | .array items =>
    match defect N (.array items) with
    | some text => .error text
    | none => .ok (canonical N (.array items))
  | .object members =>
    match defect N (.object members) with
    | some text => .error text
    | none => .ok (canonical N (.object members))
  | scalar => .error ("Expected '\x7b' but got '" ++ scalar.leading ++ "'")

/-! ### Laws of the canonical form -/

variable {N} {members : List (String × Json)} {j : Json} {k : Json}

theorem canonicalItems_eq (items : List Json) : canonicalItems N items = items.map (canonical N) := by
  induction items with
  | nil => rfl
  | cons item rest ih => simp [canonicalItems, ih]

theorem canonicalMembers_eq (members : List (String × Json)) :
    canonicalMembers N members = members.map fun m => (m.1, canonical N m.2) := by
  induction members with
  | nil => rfl
  | cons m rest ih => simp [canonicalMembers, ih]

theorem canonicalMembers_append (as bs : List (String × Json)) :
    canonicalMembers N (as ++ bs) = canonicalMembers N as ++ canonicalMembers N bs := by
  simp [canonicalMembers_eq]

@[simp] theorem canonical_array (items : List Json) :
    canonical N (.array items) = .array (items.map (canonical N)) := by
  simp [canonical, canonicalItems_eq]

@[simp] theorem canonical_object (members : List (String × Json)) :
    canonical N (.object members) = .object (sortMembers (canonicalMembers N members)) := by
  simp [canonical]

@[simp] theorem canonical_string (text : String) : canonical N (.string text) = .string text := by simp [canonical]

@[simp] theorem canonical_bool (value : Bool) : canonical N (.bool value) = .bool value := by simp [canonical]

@[simp] theorem canonical_null : canonical N .null = .null := by simp [canonical]

theorem sortMembers_perm (members : List (String × Json)) : (sortMembers members).Perm members :=
  perm_insertionSort _ _

theorem sortMembers_sorted (members : List (String × Json)) :
    (sortMembers members).Pairwise fun a b => sortKey a.1 ≤ sortKey b.1 := by
  have : Std.Total fun a b : String × Json => sortKey a.1 ≤ sortKey b.1 := ⟨fun a b => le_total _ _⟩
  have : IsTrans (String × Json) fun a b => sortKey a.1 ≤ sortKey b.1 := ⟨fun _ _ _ => le_trans⟩
  exact pairwise_insertionSort _ members

theorem sortMembers_eq_self
    (h : members.Pairwise fun a b => sortKey a.1 ≤ sortKey b.1) : sortMembers members = members :=
  h.insertionSort_eq

@[simp] theorem defect_array_eq_none {items : List Json} :
    defect N (.array items) = none ↔ ∀ item ∈ items, defect N item = none := by
  have h : defectItems N items = none ↔ ∀ item ∈ items, defect N item = none := by
    induction items with
    | nil => simp [defectItems]
    | cons item rest ih => simp [defectItems, Option.or_eq_none_iff, ih]
  simpa [defect] using h

theorem defectMembers_eq_none {seen : List (List Nat)} :
    defectMembers N seen members = none ↔ (∀ m ∈ members, defect N m.2 = none) ∧
      (members.map (sortKey ·.1)).Nodup ∧ ∀ m ∈ members, sortKey m.1 ∉ seen := by
  induction members generalizing seen with
  | nil => simp [defectMembers]
  | cons m rest ih =>
    obtain ⟨key, value⟩ := m
    simp only [defectMembers, Option.or_eq_none_iff, mem_cons, forall_eq_or_imp, map_cons,
      nodup_cons, mem_map, not_exists, not_and]
    by_cases hseen : sortKey key ∈ seen
    · simp [hseen]
    · simp only [hseen, if_false, ih, mem_cons, not_or, not_false_eq_true, true_and]
      constructor
      · rintro ⟨hvalue, hrest, hnodup, hfresh⟩
        exact ⟨⟨hvalue, hrest⟩, ⟨fun x hx heq => (hfresh x hx).1 heq, hnodup⟩, fun x hx => (hfresh x hx).2⟩
      · rintro ⟨⟨hvalue, hrest⟩, ⟨hfirst, hnodup⟩, hfresh⟩
        exact ⟨hvalue, hrest, hnodup, fun x hx => ⟨fun heq => hfirst x hx heq, hfresh x hx⟩⟩

@[simp] theorem defect_object_eq_none : defect N (.object members) = none ↔
      (∀ m ∈ members, defect N m.2 = none) ∧ (members.map (sortKey ·.1)).Nodup := by
  simp [defect, defectMembers_eq_none]

/-- A literal in canonical form stays. -/
theorem NumberFormat.canonical_canonical (literal : String) :
    N.canonical (N.canonical literal) = N.canonical literal := by
  unfold NumberFormat.canonical
  cases hformat : N.format literal with
  | error text => simp [hformat]
  | ok text => simp [N.format_format literal text hformat]

/-- A canonical form is canonicalizable if the document was. -/
theorem defect_canonical : defect N (canonical N j) = none ↔ defect N j = none := by
  induction j with
  | null | bool | string => simp [defect, canonical]
  | number literal =>
    cases hformat : N.format literal with
    | error text => simp [canonical, NumberFormat.canonical, hformat, defect]
    | ok text => simp [canonical, NumberFormat.canonical, hformat, defect, N.format_format literal text hformat]
  | array items ih =>
    rw [canonical_array, defect_array_eq_none, defect_array_eq_none, forall_mem_map]
    constructor
    · intro h item hitem
      exact (ih item hitem).mp (h item hitem)
    · intro h item hitem
      exact (ih item hitem).mpr (h item hitem)
  | object members ih =>
    have hperm := sortMembers_perm (canonicalMembers N members)
    have hkeys : (canonicalMembers N members).map (sortKey ·.1) = members.map (sortKey ·.1) := by
      rw [canonicalMembers_eq, map_map]
      rfl
    rw [canonical_object, defect_object_eq_none, defect_object_eq_none, (hperm.map (sortKey ·.1)).nodup_iff, hkeys]
    refine and_congr_left' ?_
    constructor
    · intro h m hm
      have hmem : (m.1, canonical N m.2) ∈ canonicalMembers N members := by
        rw [canonicalMembers_eq]
        exact mem_map_of_mem hm
      exact (ih m hm).mp (h _ (hperm.mem_iff.mpr hmem))
    · intro h m hm
      rw [hperm.mem_iff, canonicalMembers_eq] at hm
      obtain ⟨old, hold, rfl⟩ := mem_map.mp hm
      exact (ih old hold).mpr (h old hold)

/-- Canonicalizing twice is canonicalizing once. -/
theorem canonical_canonical (j : Json) : canonical N (canonical N j) = canonical N j := by
  induction j with
  | null | bool | string => simp
  | number literal => simp [canonical, NumberFormat.canonical_canonical]
  | array items ih =>
    simp only [canonical_array, map_map, array.injEq]
    exact map_congr_left ih
  | object members ih =>
    simp only [canonical_object, canonicalMembers_eq, object.injEq]
    -- the values are canonical already, so the second round only sorts a sorted list
    have hsame : ∀ m ∈ sortMembers (members.map fun m => (m.1, canonical N m.2)),
        (m.1, canonical N m.2) = m := by
      intro m hm
      obtain ⟨old, hold, rfl⟩ := mem_map.mp ((sortMembers_perm _).mem_iff.mp hm)
      simp [ih old hold]
    rw [map_congr_left hsame, map_id']
    exact sortMembers_eq_self (sortMembers_sorted _)

theorem canonicalize_object :
    canonicalize N (.object members) = .ok k ↔ defect N (.object members) = none ∧ canonical N (.object members) = k := by
  unfold canonicalize
  cases hdefect : defect N (.object members) with
  | none => simp only [hdefect, true_and, Except.ok.injEq]
  | some text => simp only [hdefect, reduceCtorEq, false_and]

theorem of_canonicalize (h : canonicalize N j = .ok k) : defect N j = none ∧ canonical N j = k := by
  cases j with
  | array items =>
    simp only [canonicalize] at h
    split at h <;> cases h
    exact ⟨‹_›, rfl⟩
  | object members => exact canonicalize_object.mp h
  | null | bool | number | string => cases h

/-- Canonicalizing a canonical text again gives the same text. -/
theorem canonicalize_of_canonicalize (h : canonicalize N j = .ok k) : canonicalize N k = .ok k := by
  obtain ⟨hdefect, rfl⟩ := of_canonicalize h
  have hagain := defect_canonical.mpr hdefect
  have hsame := canonical_canonical (N := N) j
  cases j with
  | array items =>
    rw [canonical_array] at hagain hsame ⊢
    simp only [canonicalize, hagain, hsame]
  | object members =>
    rw [canonical_object] at hagain hsame ⊢
    exact canonicalize_object.mpr ⟨hagain, hsame⟩
  | null | bool | number | string => cases h

/-! What a canonical form tells of the document. -/

theorem eq_null_of_canonical (h : canonical N j = .null) : j = .null := by
  cases j <;> simp_all [canonical]

theorem eq_bool_of_canonical {value : Bool} (h : canonical N j = .bool value) : j = .bool value := by
  cases j <;> simp_all [canonical]

theorem eq_string_of_canonical {text : String} (h : canonical N j = .string text) : j = .string text := by
  cases j <;> simp_all [canonical]

theorem array_of_canonical {items : List Json} (h : canonical N j = .array items) :
    ∃ old, j = .array old ∧ old.map (canonical N) = items := by
  cases j with
  | array old => exact ⟨old, rfl, by simpa using h⟩
  | _ => simp [canonical] at h

theorem object_of_canonical (h : canonical N j = .object members) :
    ∃ old, j = .object old ∧ sortMembers (canonicalMembers N old) = members := by
  cases j with
  | object old => exact ⟨old, rfl, by simpa using h⟩
  | _ => simp [canonical] at h

/-- Canonicalizing does not change the nesting. -/
theorem depth_canonical (j : Json) : (canonical N j).depth = j.depth := by
  induction j with
  | null | bool | number | string => simp [canonical, depth]
  | array items ih =>
    have hsame : (items.map (canonical N)).map depth = items.map depth := by
      rw [map_map]
      exact map_congr_left ih
    simp [depth, depthItems_eq, hsame]
  | object members ih =>
    have hsame : (members.map fun m => (m.1, canonical N m.2)).map (·.2.depth) = members.map (·.2.depth) := by
      rw [map_map]
      exact map_congr_left ih
    rw [canonical_object, canonicalMembers_eq, depth, depth, depthMembers_perm (sortMembers_perm _),
      depthMembers_eq, hsame, depthMembers_eq]

end Json
