/-
Purpose: How the fields of an inclusion proof are read from the decoded header.  The keys of a decoded map are narrowed to
  machine integers in the order of the map's iteration, and values that are no unsigned integers are narrowed as well.
  The module says exactly which headers are nevertheless read strictly: in every order alike, and with the tree size and
  the leaf index that stand in the header.
Source: internal/tl/receipt/verify.go (normalizeIntMap, toInt, toUint64, extractInclusionProof)
Trusted boundary: none
-/
import AgentNameService.Receipt.Cose
import Mathlib.Data.List.Induction
import Mathlib.Data.List.Nodup
import Mathlib.Data.List.Perm.Basic

namespace AgentNameService.Receipt

open List Except

variable {v : Value} {w : Value}

/-! ### Entries of a decoded map -/

/-- The values whose keys narrow to a label. -/
def entriesAt (label : Int) (entries : List (Value × Value)) : List Value :=
  (entries.filter fun e => toInt e.1 = label).map (·.2)

/-- What `normalizeIntMap` makes of a value. -/
def normalized : Value → Value
  | .map nested => .intMap (normalizeIntMap nested)
  | value => value

theorem normalizeIntMap_eq (entries : List (Value × Value)) :
    normalizeIntMap entries = entries.map fun e => (toInt e.1, normalized e.2) := by
  induction entries with
  | nil => simp [normalizeIntMap]
  | cons e rest ih =>
    obtain ⟨key, value⟩ := e
    cases value <;> simp [normalizeIntMap, normalized, ih]

/-- The entry that is iterated last counts. -/
theorem lookupLabel_map (read : Value → Value) (entries : List (Value × Value)) (label : Int) :
    lookupLabel (entries.map fun e => (toInt e.1, read e.2)) label = ((entriesAt label entries).getLast?).map read := by
  unfold lookupLabel
  induction entries using reverseRecOn with
  | nil => rfl
  | append_singleton entries e ih =>
    rw [map_append, map_singleton, reverse_append, reverse_singleton, singleton_append,
      lookup_cons]
    unfold entriesAt at ih ⊢
    rw [filter_append]
    by_cases hlabel : toInt e.1 = label
    · simp [hlabel]
    · have hne : (label == toInt e.1) = false := beq_eq_false_iff_ne.mpr (Ne.symm hlabel)
      rw [hne]
      simp [hlabel, ih]

theorem lookupLabel_normalizeIntMap (entries : List (Value × Value)) (label : Int) :
    lookupLabel (normalizeIntMap entries) label = ((entriesAt label entries).getLast?).map normalized := by
  rw [normalizeIntMap_eq, lookupLabel_map]

/-- What a map says of its tree: the parts that are read of it. -/
def readProof (treeSize leafIndex path root : Option Value) : Except String ExtractedProof := do
  let treeSize ← treeSize.elim (.error "VDP missing treeSize") .ok
  let leafIndex ← leafIndex.elim (.error "VDP missing leafIndex") .ok
  let pathRaw ← path.elim (.error "VDP missing hashPath") .ok
  let path ← (toByteSlices pathRaw).withContext "VDP hashPath"
  let rootRaw ← root.elim (.error "VDP missing rootHash") .ok
  match rootRaw with
  | .bytes rootHash => pure { treeSize := toUint64 treeSize, leafIndex := toUint64 leafIndex, path, rootHash }
  | _ => .error "VDP rootHash is not bytes"

/-- The value of a label in a map as it is iterated. -/
def fieldOf (label : Int) (entries : List (Value × Value)) : Option Value := ((entriesAt label entries).getLast?).map normalized

/-- The proof that is read of a map. -/
def proofOf (vdp : List (Value × Value)) : Except String ExtractedProof :=
  readProof (fieldOf inclusionProofTreeSize vdp) (fieldOf inclusionProofLeafIndex vdp) (fieldOf inclusionProofHashPath vdp)
    (fieldOf inclusionProofRootHash vdp)

/-! ### What is decoded -/

/-- A map as the library decodes it: the keys are distinct, an integer is unsigned or negative, and no value is the result
of a normalization. -/
structure CanonicalMap (entries : List (Value × Value)) : Prop where
  distinct : (entries.map (·.1)).Nodup
  unsigned : ∀ n value, (.uint64 n, value) ∈ entries → n < 2 ^ 64
  negative : ∀ n value, (.int64 n, value) ∈ entries → n < 0
  decoded : ∀ e ∈ entries, ∀ vdp, e.2 ≠ .intMap vdp

/-- A library that decodes maps so. -/
def Cbor.Canonical (cbor : Cbor) : Prop := ∀ data entries, cbor.unmarshalMap data = .ok entries → CanonicalMap entries

/-- The receipt parses, and its unprotected header is decoded to the map. -/
def HeaderOf (cbor : Cbor) (parsed : CoseSign1Parsed) (raw : List (Value × Value)) : Prop :=
  ∃ header, cbor.unmarshalMap header = .ok raw ∧ parsed.unprotected = normalizeIntMap raw

/-- Every receipt that parses has a header. -/
theorem exists_headerOf {cbor : Cbor} {data : Bytes} {parsed : CoseSign1Parsed} (h : parseCOSESign1 cbor data = .ok parsed) :
    ∃ raw, HeaderOf cbor parsed raw := by
  have hraw : ∃ arr, decodeCOSERaw cbor arr = .ok parsed := by
    unfold parseCOSESign1 at h
    split at h
    · obtain ⟨_, _, hrest⟩ := bind_eq_ok_iff.mp h
      obtain ⟨arr, _, hdecode⟩ := bind_eq_ok_iff.mp hrest
      exact ⟨arr, hdecode⟩
    · obtain ⟨arr, _, hdecode⟩ := bind_eq_ok_iff.mp h
      exact ⟨arr, hdecode⟩
  obtain ⟨arr, hdecode⟩ := hraw
  unfold decodeCOSERaw at hdecode
  split at hdecode
  · simp only [bind_eq_ok_iff, withContext_eq_ok_iff, pure_eq_ok_iff] at hdecode
    obtain ⟨_, _, raw, hraw, _, _, rfl⟩ := hdecode
    exact ⟨raw, _, hraw, rfl⟩
  · cases hdecode

theorem toInt_eq_labelVDP {entries : List (Value × Value)} (h : CanonicalMap entries) {e : Value × Value} (he : e ∈ entries)
    (hlabel : toInt e.1 = labelVDP) : e.1 = .uint64 396 := by
  obtain ⟨key, value⟩ := e
  cases key with
  | uint64 n =>
    have hlt := h.unsigned n value he
    simp only [toInt, labelVDP] at hlabel
    rw [Nat.mod_eq_of_lt hlt] at hlabel
    have hn : n = 396 := by split at hlabel <;> omega
    rw [hn]
  | int64 n =>
    have hneg := h.negative n value he
    simp only [toInt, labelVDP] at hlabel
    omega
  | _ => cases hlabel

/-- At most one entry is under the label of the proof. -/
theorem entriesAt_labelVDP {raw : List (Value × Value)} (h : CanonicalMap raw) {e : Value × Value} (he : e ∈ raw)
    (hlabel : toInt e.1 = labelVDP) : entriesAt labelVDP raw = [e.2] := by
  have hothers : ∀ x ∈ raw, toInt x.1 = labelVDP → x = e := by
    intro x hx hxlabel
    exact inj_on_of_nodup_map h.distinct hx he ((toInt_eq_labelVDP h hx hxlabel).trans (toInt_eq_labelVDP h he hlabel).symm)
  obtain ⟨before, after, rfl⟩ := append_of_mem he
  have hnodup : (before ++ e :: after).Nodup := Nodup.of_map _ h.distinct
  have hnone (part : List (Value × Value)) (hpart : ∀ x ∈ part, x ∈ before ++ e :: after ∧ x ≠ e) :
      part.filter (fun x => toInt x.1 = labelVDP) = [] := by
    rw [filter_eq_nil_iff]
    intro x hx hxlabel
    exact (hpart x hx).2 (hothers x (hpart x hx).1 (of_decide_eq_true hxlabel))
  obtain ⟨_, htail, hapart⟩ := nodup_append.mp hnodup
  unfold entriesAt
  rw [filter_append, hnone before, filter_cons, if_pos (decide_eq_true hlabel), hnone after]
  · rfl
  · intro x hx
    exact ⟨mem_append_right _ (mem_cons_of_mem _ hx), fun heq => (nodup_cons.mp htail).1 (heq ▸ hx)⟩
  · intro x hx
    exact ⟨mem_append_left _ hx, fun heq => hapart x hx e mem_cons_self heq⟩

/-! ### Orders of iteration -/

/-- The same value, with the entries of its maps in another order. -/
inductive Value.Reorders : Value → Value → Prop where
  | refl (v : Value) : Reorders v v
  | trans {u v w} (huv : Reorders u v) (hvw : Reorders v w) : Reorders u w
  | perm {entries entries'} (h : entries.Perm entries') : Reorders (.map entries) (.map entries')
  | inside {before after key v w} (h : Reorders v w) :
      Reorders (.map (before ++ (key, v) :: after)) (.map (before ++ (key, w) :: after))

/-- Values that correspond to each other, in another order. -/
def Alike (values values' : List Value) : Prop := ∃ between, Forall₂ Value.Reorders values between ∧ between.Perm values'

theorem Alike.refl (values : List Value) : Alike values values :=
  ⟨values, forall₂_same.mpr fun v _ => .refl v, .refl values⟩

theorem forall₂_reorders_trans {us vs ws : List Value} (h : Forall₂ Value.Reorders us vs)
    (h' : Forall₂ Value.Reorders vs ws) : Forall₂ Value.Reorders us ws := by
  induction h generalizing ws with
  | nil =>
    cases h'
    exact .nil
  | cons huv _ ih =>
    cases h' with
    | cons hvw hrest => exact .cons (huv.trans hvw) (ih hrest)

theorem Alike.trans {us vs ws : List Value} (h : Alike us vs) (h' : Alike vs ws) : Alike us ws := by
  obtain ⟨between, hforall, hperm⟩ := h
  obtain ⟨between', hforall', hperm'⟩ := h'
  obtain ⟨middle, hmiddle, hperm''⟩ := perm_comp_forall₂ hperm hforall'
  exact ⟨middle, forall₂_reorders_trans hforall hmiddle, hperm''.trans hperm'⟩

theorem entriesAt_append (label : Int) (before after : List (Value × Value)) :
    entriesAt label (before ++ after) = entriesAt label before ++ entriesAt label after := by
  unfold entriesAt
  rw [filter_append, map_append]

theorem entriesAt_cons (label : Int) (key v : Value) (rest : List (Value × Value)) :
    entriesAt label ((key, v) :: rest) = if toInt key = label then v :: entriesAt label rest else entriesAt label rest := by
  unfold entriesAt
  by_cases hlabel : toInt key = label <;> simp [hlabel]

/-- A map stays a map, and under each label it has corresponding values. -/
theorem Value.Reorders.entries (h : v.Reorders w) {entries : List (Value × Value)} (hv : v = .map entries) :
    ∃ entries', w = .map entries' ∧ ∀ label, Alike (entriesAt label entries) (entriesAt label entries') := by
  induction h generalizing entries with
  | refl v => exact ⟨entries, hv, fun label => .refl _⟩
  | trans _ _ ih ih' =>
    obtain ⟨entries', hv', halike⟩ := ih hv
    obtain ⟨entries'', hv'', halike'⟩ := ih' hv'
    exact ⟨entries'', hv'', fun label => (halike label).trans (halike' label)⟩
  | @perm old new hperm =>
    cases hv
    exact ⟨new, rfl, fun label => ⟨_, forall₂_same.mpr fun v _ => .refl v, (hperm.filter _).map _⟩⟩
  | @inside before after key v w hvw _ =>
    cases hv
    refine ⟨_, rfl, fun label => ⟨entriesAt label (before ++ (key, w) :: after), ?_, .refl _⟩⟩
    rw [entriesAt_append, entriesAt_append, entriesAt_cons, entriesAt_cons]
    apply rel_append (forall₂_same.mpr fun v _ => .refl v)
    split
    · exact .cons hvw (forall₂_same.mpr fun v _ => .refl v)
    · exact forall₂_same.mpr fun v _ => .refl v

/-- A value that is no map has no other order. -/
theorem Value.Reorders.eq_or_maps (h : v.Reorders w) :
    v = w ∨ ∃ entries entries', v = .map entries ∧ w = .map entries' := by
  induction h with
  | refl v => exact .inl rfl
  | trans huv hvw ih ih' =>
    rcases ih with rfl | ⟨entries, _, rfl, rfl⟩
    · exact ih'
    · obtain ⟨entries', rfl, _⟩ := (huv.trans hvw).entries rfl
      exact .inr ⟨_, _, rfl, rfl⟩
  | perm | inside => exact .inr ⟨_, _, rfl, rfl⟩

/-! ### Strict reading -/

/-- The tree size and the leaf index are the only entries that are read for them, and they are unsigned. -/
def ReadsExactly (raw : List (Value × Value)) (proof : ExtractedProof) : Prop :=
  ∃ vdp, entriesAt labelVDP raw = [.map vdp] ∧ entriesAt inclusionProofTreeSize vdp = [.uint64 proof.treeSize] ∧
    entriesAt inclusionProofLeafIndex vdp = [.uint64 proof.leafIndex]

/-- The result is the same in every order, and a proof that is extracted is read exactly. -/
structure ReadsStrictly (raw : List (Value × Value)) : Prop where
  ordered : ∀ raw', (Value.map raw).Reorders (.map raw') →
    extractInclusionProof (normalizeIntMap raw') = extractInclusionProof (normalizeIntMap raw)
  exact : ∀ proof, extractInclusionProof (normalizeIntMap raw) = .ok proof → ReadsExactly raw proof

/-- Hash paths that all fail alike. -/
def PathsFail (vdp : List (Value × Value)) : Prop :=
  ∃ text, ∀ v ∈ entriesAt inclusionProofHashPath vdp, toByteSlices (normalized v) = .error text

/-- Hash paths that can be read, and no root hash that can. -/
def RootsFail (vdp : List (Value × Value)) : Prop :=
  (∀ v ∈ entriesAt inclusionProofHashPath vdp, ∃ path, toByteSlices (normalized v) = .ok path) ∧
    ∀ v ∈ entriesAt inclusionProofRootHash vdp, ∀ b, v ≠ .bytes b

/-- One hash path, one root hash, one unsigned tree size and one unsigned leaf index. -/
def Single (vdp : List (Value × Value)) : Prop :=
  ∃ path root treeSize leafIndex,
    (∀ v ∈ entriesAt inclusionProofHashPath vdp, toByteSlices (normalized v) = .ok path) ∧
    entriesAt inclusionProofRootHash vdp ≠ [] ∧ (∀ v ∈ entriesAt inclusionProofRootHash vdp, v = .bytes root) ∧
    entriesAt inclusionProofTreeSize vdp = [.uint64 treeSize] ∧ entriesAt inclusionProofLeafIndex vdp = [.uint64 leafIndex]

/-- A map of a proof that leaves no choice: the tree size, the leaf index or the hash path is missing, or the hash path or the
root hash cannot be read, or there is one value for each. -/
def PlainProof (vdp : List (Value × Value)) : Prop :=
  entriesAt inclusionProofTreeSize vdp ≠ [] → entriesAt inclusionProofLeafIndex vdp ≠ [] →
    entriesAt inclusionProofHashPath vdp ≠ [] → PathsFail vdp ∨ RootsFail vdp ∨ Single vdp

/-- A header whose proof, if it has one, leaves no choice. -/
def Plain (raw : List (Value × Value)) : Prop := ∀ vdp, .map vdp ∈ entriesAt labelVDP raw → PlainProof vdp

section Reading

variable {raw raw' vdp vdp' : List (Value × Value)} {result : Except String ExtractedProof} {label : Int}

/-- What is extracted of a canonical map. -/
theorem extractInclusionProof_eq (hvalues : ∀ v ∈ entriesAt labelVDP raw, ∀ m, v ≠ .intMap m) :
    extractInclusionProof (normalizeIntMap raw) =
      match (entriesAt labelVDP raw).getLast? with
      | none => .error s!"unprotected header missing VDP (label {labelVDP})"
      | some (.map vdp) => proofOf vdp
      | some _ => .error "VDP is not a map" := by
  unfold extractInclusionProof
  rw [lookupLabel_normalizeIntMap]
  cases hlast : (entriesAt labelVDP raw).getLast? with
  | none => rfl
  | some value =>
    cases value with
    | map vdp =>
      simp only [Option.map_some, normalized, lookupLabel_normalizeIntMap]
      rfl
    | intMap m => exact absurd rfl (hvalues _ (mem_of_getLast? hlast) m)
    | _ => rfl

/-- With the sizes and a hash path there, the hash path decides first and the root hash next. -/
theorem readProof_some (treeSize leafIndex path : Value) (root : Option Value) :
    readProof (some treeSize) (some leafIndex) (some path) root =
      match toByteSlices path with
      | .error text => .error ("VDP hashPath: " ++ text)
      | .ok hashes =>
        match root with
        | none => .error "VDP missing rootHash"
        | some (.bytes b) => .ok ⟨toUint64 treeSize, toUint64 leafIndex, hashes, b⟩
        | some _ => .error "VDP rootHash is not bytes" := by
  change ((toByteSlices path).withContext "VDP hashPath" >>= fun hashes =>
    root.elim (.error "VDP missing rootHash") .ok >>= fun rootRaw => match rootRaw with
      | .bytes b => pure (ExtractedProof.mk (toUint64 treeSize) (toUint64 leafIndex) hashes b)
      | _ => .error "VDP rootHash is not bytes") = _
  cases toByteSlices path with
  | error text => rfl
  | ok hashes =>
    cases root with
    | none => rfl
    | some value => cases value <;> rfl

theorem fieldOf_eq_none_iff : fieldOf label vdp = none ↔ entriesAt label vdp = [] := by
  rw [fieldOf, Option.map_eq_none_iff, getLast?_eq_none_iff]

theorem exists_fieldOf (h : entriesAt label vdp ≠ []) :
    ∃ v ∈ entriesAt label vdp, fieldOf label vdp = some (normalized v) := by
  refine ⟨_, getLast_mem h, ?_⟩
  rw [fieldOf, getLast?_eq_some_getLast h]
  rfl

theorem normalized_eq_bytes_iff {b : Bytes} : normalized v = .bytes b ↔ v = .bytes b := by
  cases v <;> simp [normalized]

/-- How the proof can come out, with any of the values under a label. -/
inductive Outcome (vdp : List (Value × Value)) : Except String ExtractedProof → Prop where
  | noTreeSize (h : entriesAt inclusionProofTreeSize vdp = []) : Outcome vdp (.error "VDP missing treeSize")
  | noLeafIndex (h : entriesAt inclusionProofTreeSize vdp ≠ []) (h' : entriesAt inclusionProofLeafIndex vdp = []) :
      Outcome vdp (.error "VDP missing leafIndex")
  | noHashPath (h : entriesAt inclusionProofTreeSize vdp ≠ []) (h' : entriesAt inclusionProofLeafIndex vdp ≠ [])
      (h'' : entriesAt inclusionProofHashPath vdp = []) : Outcome vdp (.error "VDP missing hashPath")
  | badHashPath {path text} (h : entriesAt inclusionProofTreeSize vdp ≠ []) (h' : entriesAt inclusionProofLeafIndex vdp ≠ [])
      (hpath : path ∈ entriesAt inclusionProofHashPath vdp) (hfails : toByteSlices (normalized path) = .error text) :
      Outcome vdp (.error ("VDP hashPath: " ++ text))
  | noRootHash {path hashes} (h : entriesAt inclusionProofTreeSize vdp ≠ [])
      (h' : entriesAt inclusionProofLeafIndex vdp ≠ []) (hpath : path ∈ entriesAt inclusionProofHashPath vdp)
      (hreads : toByteSlices (normalized path) = .ok hashes) (hroot : entriesAt inclusionProofRootHash vdp = []) :
      Outcome vdp (.error "VDP missing rootHash")
  | badRootHash {path root hashes} (h : entriesAt inclusionProofTreeSize vdp ≠ [])
      (h' : entriesAt inclusionProofLeafIndex vdp ≠ []) (hpath : path ∈ entriesAt inclusionProofHashPath vdp)
      (hreads : toByteSlices (normalized path) = .ok hashes) (hroot : root ∈ entriesAt inclusionProofRootHash vdp)
      (hfails : ∀ b, root ≠ .bytes b) : Outcome vdp (.error "VDP rootHash is not bytes")
  | proof {treeSize leafIndex path hashes b} (htreeSize : treeSize ∈ entriesAt inclusionProofTreeSize vdp)
      (hleafIndex : leafIndex ∈ entriesAt inclusionProofLeafIndex vdp) (hpath : path ∈ entriesAt inclusionProofHashPath vdp)
      (hreads : toByteSlices (normalized path) = .ok hashes) (hroot : .bytes b ∈ entriesAt inclusionProofRootHash vdp) :
      Outcome vdp (.ok ⟨toUint64 (normalized treeSize), toUint64 (normalized leafIndex), hashes, b⟩)

theorem proofOf_outcome (vdp : List (Value × Value)) : Outcome vdp (proofOf vdp) := by
  unfold proofOf
  by_cases htreeSize : entriesAt inclusionProofTreeSize vdp = []
  · rw [fieldOf_eq_none_iff.mpr htreeSize]
    exact .noTreeSize htreeSize
  obtain ⟨treeSize, hmemSize, hsize⟩ := exists_fieldOf htreeSize
  rw [hsize]
  by_cases hleafIndex : entriesAt inclusionProofLeafIndex vdp = []
  · rw [fieldOf_eq_none_iff.mpr hleafIndex]
    exact .noLeafIndex htreeSize hleafIndex
  obtain ⟨leafIndex, hmemIndex, hindex⟩ := exists_fieldOf hleafIndex
  rw [hindex]
  by_cases hhashPath : entriesAt inclusionProofHashPath vdp = []
  · rw [fieldOf_eq_none_iff.mpr hhashPath]
    exact .noHashPath htreeSize hleafIndex hhashPath
  obtain ⟨path, hmemPath, hpath⟩ := exists_fieldOf hhashPath
  rw [hpath, readProof_some]
  cases hreads : toByteSlices (normalized path) with
  | error text => exact .badHashPath htreeSize hleafIndex hmemPath hreads
  | ok hashes =>
    by_cases hrootHash : entriesAt inclusionProofRootHash vdp = []
    · rw [fieldOf_eq_none_iff.mpr hrootHash]
      exact .noRootHash htreeSize hleafIndex hmemPath hreads hrootHash
    obtain ⟨root, hmemRoot, hroot⟩ := exists_fieldOf hrootHash
    rw [hroot]
    by_cases hbytes : ∃ b, root = .bytes b
    · obtain ⟨b, rfl⟩ := hbytes
      exact .proof hmemSize hmemIndex hmemPath hreads hmemRoot
    · have hfails : ∀ b, normalized root ≠ .bytes b := fun b h => hbytes ⟨b, normalized_eq_bytes_iff.mp h⟩
      have hresult := Outcome.badRootHash htreeSize hleafIndex hmemPath hreads hmemRoot fun b h => hbytes ⟨b, h⟩
      cases hvalue : normalized root with
      | bytes b => exact absurd hvalue (hfails b)
      | _ => exact hresult

/-! ### Every outcome in some order -/

/-- Any value under a label can be iterated last, with nothing changed under other labels. -/
theorem exists_perm_last (h : v ∈ entriesAt label vdp) :
    ∃ vdp', vdp.Perm vdp' ∧ fieldOf label vdp' = some (normalized v) ∧
      ∀ label', label' ≠ label → entriesAt label' vdp' = entriesAt label' vdp := by
  obtain ⟨⟨key, value⟩, hmem, rfl⟩ := mem_map.mp h
  obtain ⟨hentry, hlabel⟩ := mem_filter.mp hmem
  have hkey : toInt key = label := of_decide_eq_true hlabel
  obtain ⟨before, after, rfl⟩ := append_of_mem hentry
  refine ⟨before ++ after ++ [(key, value)], ?_, ?_, ?_⟩
  · exact perm_middle.trans (perm_append_singleton _ _).symm
  · rw [fieldOf, entriesAt_append, entriesAt_cons, if_pos hkey]
    simp [entriesAt]
  · intro label' hother
    have hne : ¬ toInt key = label' := fun heq => hother (heq.symm.trans hkey)
    rw [entriesAt_append, entriesAt_append, entriesAt_append, entriesAt_cons, entriesAt_cons, if_neg hne, if_neg hne]
    simp [entriesAt]

theorem fieldOf_congr (h : entriesAt label vdp' = entriesAt label vdp) : fieldOf label vdp' = fieldOf label vdp := by
  rw [fieldOf, h, fieldOf]

/-- Values for the four labels can all be iterated last. -/
theorem exists_perm_fields {treeSize leafIndex path : Value} (htreeSize : treeSize ∈ entriesAt inclusionProofTreeSize vdp)
    (hleafIndex : leafIndex ∈ entriesAt inclusionProofLeafIndex vdp) (hpath : path ∈ entriesAt inclusionProofHashPath vdp)
    (root : Value) : ∃ vdp', vdp.Perm vdp' ∧ fieldOf inclusionProofTreeSize vdp' = some (normalized treeSize) ∧
      fieldOf inclusionProofLeafIndex vdp' = some (normalized leafIndex) ∧
      fieldOf inclusionProofHashPath vdp' = some (normalized path) ∧
      (root ∈ entriesAt inclusionProofRootHash vdp → fieldOf inclusionProofRootHash vdp' = some (normalized root)) ∧
      (entriesAt inclusionProofRootHash vdp = [] → fieldOf inclusionProofRootHash vdp' = none) := by
  obtain ⟨a, ha, hasize, haother⟩ := exists_perm_last htreeSize
  rw [← haother inclusionProofLeafIndex (by decide)] at hleafIndex
  obtain ⟨b, hb, hbindex, hbother⟩ := exists_perm_last hleafIndex
  rw [← haother inclusionProofHashPath (by decide), ← hbother inclusionProofHashPath (by decide)] at hpath
  obtain ⟨c, hc, hcpath, hcother⟩ := exists_perm_last hpath
  have hcsize : fieldOf inclusionProofTreeSize c = some (normalized treeSize) := by
    rw [fieldOf_congr (hcother _ (by decide)), fieldOf_congr (hbother _ (by decide)), hasize]
  have hcindex : fieldOf inclusionProofLeafIndex c = some (normalized leafIndex) := by
    rw [fieldOf_congr (hcother _ (by decide)), hbindex]
  have hcroots : entriesAt inclusionProofRootHash c = entriesAt inclusionProofRootHash vdp := by
    rw [hcother _ (by decide), hbother _ (by decide), haother _ (by decide)]
  have hperm := (ha.trans hb).trans hc
  by_cases hroot : root ∈ entriesAt inclusionProofRootHash vdp
  · obtain ⟨d, hd, hdroot, hdother⟩ := exists_perm_last (hcroots ▸ hroot)
    refine ⟨d, hperm.trans hd, ?_, ?_, ?_, fun _ => hdroot, fun hnone => ?_⟩
    · rw [fieldOf_congr (hdother _ (by decide)), hcsize]
    · rw [fieldOf_congr (hdother _ (by decide)), hcindex]
    · rw [fieldOf_congr (hdother _ (by decide)), hcpath]
    · rw [hnone] at hroot
      cases hroot
  · refine ⟨c, hperm, hcsize, hcindex, hcpath, fun h => absurd h hroot, fun hnone => ?_⟩
    rw [fieldOf_eq_none_iff, hcroots, hnone]

/-- Each outcome is what some order gives. -/
theorem Outcome.realized (h : Outcome vdp result) : ∃ vdp', vdp.Perm vdp' ∧ proofOf vdp' = result := by
  cases h with
  | noTreeSize h =>
    refine ⟨vdp, .refl _, ?_⟩
    rw [proofOf, fieldOf_eq_none_iff.mpr h]
    rfl
  | noLeafIndex h h' =>
    obtain ⟨treeSize, _, hsize⟩ := exists_fieldOf h
    refine ⟨vdp, .refl _, ?_⟩
    rw [proofOf, hsize, fieldOf_eq_none_iff.mpr h']
    rfl
  | noHashPath h h' h'' =>
    obtain ⟨treeSize, _, hsize⟩ := exists_fieldOf h
    obtain ⟨leafIndex, _, hindex⟩ := exists_fieldOf h'
    refine ⟨vdp, .refl _, ?_⟩
    rw [proofOf, hsize, hindex, fieldOf_eq_none_iff.mpr h'']
    rfl
  | badHashPath h h' hpath hfails =>
    obtain ⟨treeSize, htreeSize⟩ := exists_mem_of_ne_nil _ h
    obtain ⟨leafIndex, hleafIndex⟩ := exists_mem_of_ne_nil _ h'
    obtain ⟨vdp', hperm, hsize, hindex, hpath', _, _⟩ := exists_perm_fields htreeSize hleafIndex hpath (.text "")
    refine ⟨vdp', hperm, ?_⟩
    rw [proofOf, hsize, hindex, hpath', readProof_some, hfails]
  | noRootHash h h' hpath hreads hroot =>
    obtain ⟨treeSize, htreeSize⟩ := exists_mem_of_ne_nil _ h
    obtain ⟨leafIndex, hleafIndex⟩ := exists_mem_of_ne_nil _ h'
    obtain ⟨vdp', hperm, hsize, hindex, hpath', _, hnone⟩ := exists_perm_fields htreeSize hleafIndex hpath (.text "")
    refine ⟨vdp', hperm, ?_⟩
    rw [proofOf, hsize, hindex, hpath', readProof_some, hreads, hnone hroot]
  | @badRootHash path root hashes h h' hpath hreads hroot hfails =>
    obtain ⟨treeSize, htreeSize⟩ := exists_mem_of_ne_nil _ h
    obtain ⟨leafIndex, hleafIndex⟩ := exists_mem_of_ne_nil _ h'
    obtain ⟨vdp', hperm, hsize, hindex, hpath', hroot', _⟩ := exists_perm_fields htreeSize hleafIndex hpath root
    refine ⟨vdp', hperm, ?_⟩
    rw [proofOf, hsize, hindex, hpath', readProof_some, hreads, hroot' hroot]
    cases hvalue : normalized root with
    | bytes b => exact absurd (normalized_eq_bytes_iff.mp hvalue) (hfails b)
    | _ => rfl
  | proof htreeSize hleafIndex hpath hreads hroot =>
    obtain ⟨vdp', hperm, hsize, hindex, hpath', hroot', _⟩ := exists_perm_fields htreeSize hleafIndex hpath (.bytes _)
    refine ⟨vdp', hperm, ?_⟩
    rw [proofOf, hsize, hindex, hpath', readProof_some, hreads, hroot' hroot]
    rfl

/-! ### One outcome -/

theorem missing_ne_badHashPath (text : String) : "VDP missing rootHash" ≠ "VDP hashPath: " ++ text := by
  intro h
  have hchars := congrArg (fun s : String => s.toList.take 5) h
  simp at hchars

theorem badRootHash_ne_badHashPath (text : String) : "VDP rootHash is not bytes" ≠ "VDP hashPath: " ++ text := by
  intro h
  have hchars := congrArg (fun s : String => s.toList.take 5) h
  simp at hchars

/-- With a hash path that is read, something comes out of the root hashes. -/
theorem exists_outcome_of_reads (h : entriesAt inclusionProofTreeSize vdp ≠ []) (h' : entriesAt inclusionProofLeafIndex vdp ≠ [])
    {path : Value} (hpath : path ∈ entriesAt inclusionProofHashPath vdp) {hashes : List Bytes}
    (hreads : toByteSlices (normalized path) = .ok hashes) :
    ∃ result, Outcome vdp result ∧ ∀ text, result ≠ .error ("VDP hashPath: " ++ text) := by
  by_cases hroot : entriesAt inclusionProofRootHash vdp = []
  · refine ⟨_, .noRootHash h h' hpath hreads hroot, fun text heq => ?_⟩
    exact missing_ne_badHashPath text (error.inj heq)
  obtain ⟨root, hmem⟩ := exists_mem_of_ne_nil _ hroot
  by_cases hbytes : ∃ b, root = .bytes b
  · obtain ⟨b, rfl⟩ := hbytes
    obtain ⟨treeSize, htreeSize⟩ := exists_mem_of_ne_nil _ h
    obtain ⟨leafIndex, hleafIndex⟩ := exists_mem_of_ne_nil _ h'
    exact ⟨_, .proof htreeSize hleafIndex hpath hreads hmem, nofun⟩
  · refine ⟨_, .badRootHash h h' hpath hreads hmem fun b heq => hbytes ⟨b, heq⟩, fun text heq => ?_⟩
    exact badRootHash_ne_badHashPath text (error.inj heq)

/-- A map that has one outcome, read exactly, is plain. -/
theorem plainProof_of_unique (hunique : ∀ other, Outcome vdp other → other = result)
    (hexact : ∀ proof, result = .ok proof → entriesAt inclusionProofTreeSize vdp = [.uint64 proof.treeSize] ∧
      entriesAt inclusionProofLeafIndex vdp = [.uint64 proof.leafIndex]) : PlainProof vdp := by
  intro h h' hhashPath
  by_cases hfail : ∃ path ∈ entriesAt inclusionProofHashPath vdp, ∃ text, toByteSlices (normalized path) = .error text
  · -- one hash path fails, so all do, and with the same text
    obtain ⟨path, hpath, text, hfails⟩ := hfail
    refine .inl ⟨text, fun v hv => ?_⟩
    have hresult := hunique _ (.badHashPath h h' hpath hfails)
    cases hreads : toByteSlices (normalized v) with
    | error other =>
      have hother := (hunique _ (.badHashPath h h' hv hreads)).trans hresult.symm
      have htexts := congrArg String.toList (error.inj hother)
      rw [String.toList_append, String.toList_append, append_cancel_left_eq] at htexts
      rw [String.toList_inj.mp htexts]
    | ok hashes =>
      obtain ⟨other, houtcome, hne⟩ := exists_outcome_of_reads h h' hv hreads
      exact absurd ((hunique other houtcome).trans hresult.symm) (hne text)
  right
  have hreads (v : Value) (hv : v ∈ entriesAt inclusionProofHashPath vdp) : ∃ path, toByteSlices (normalized v) = .ok path := by
    cases hpath : toByteSlices (normalized v) with
    | error text => exact absurd ⟨v, hv, text, hpath⟩ hfail
    | ok path => exact ⟨path, rfl⟩
  by_cases hbytes : ∃ b, .bytes b ∈ entriesAt inclusionProofRootHash vdp
  · obtain ⟨root, hroot⟩ := hbytes
    obtain ⟨treeSize, htreeSize⟩ := exists_mem_of_ne_nil _ h
    obtain ⟨leafIndex, hleafIndex⟩ := exists_mem_of_ne_nil _ h'
    obtain ⟨path, hpath⟩ := exists_mem_of_ne_nil _ hhashPath
    obtain ⟨hashes, hhashes⟩ := hreads path hpath
    have hresult := hunique _ (.proof htreeSize hleafIndex hpath hhashes hroot)
    obtain ⟨hsize, hindex⟩ := hexact _ hresult.symm
    refine .inr ⟨hashes, root, _, _, fun v hv => ?_, ne_nil_of_mem hroot, fun v hv => ?_, hsize, hindex⟩
    · obtain ⟨hashes', hhashes'⟩ := hreads v hv
      have hsame := (hunique _ (.proof htreeSize hleafIndex hv hhashes' hroot)).trans hresult.symm
      exact hhashes'.trans (congrArg ok (congrArg ExtractedProof.path (ok.inj hsame)))
    · by_cases hv_bytes : ∃ b, v = .bytes b
      · obtain ⟨b, rfl⟩ := hv_bytes
        have hsame := (hunique _ (.proof htreeSize hleafIndex hpath hhashes hv)).trans hresult.symm
        exact congrArg Value.bytes (congrArg ExtractedProof.rootHash (ok.inj hsame))
      · have hbad := Outcome.badRootHash h h' hpath hhashes hv fun b heq => hv_bytes ⟨b, heq⟩
        cases (hunique _ hbad).trans hresult.symm
  · exact .inl ⟨hreads, fun v hv b heq => hbytes ⟨b, heq ▸ hv⟩⟩

/-- A plain map has one outcome. -/
theorem PlainProof.unique (hplain : PlainProof vdp) : ∃ result, ∀ other, Outcome vdp other → other = result := by
  by_cases htreeSize : entriesAt inclusionProofTreeSize vdp = []
  · refine ⟨.error "VDP missing treeSize", fun other h => ?_⟩
    cases h <;> simp_all
  by_cases hleafIndex : entriesAt inclusionProofLeafIndex vdp = []
  · refine ⟨.error "VDP missing leafIndex", fun other h => ?_⟩
    cases h <;> simp_all
  by_cases hhashPath : entriesAt inclusionProofHashPath vdp = []
  · refine ⟨.error "VDP missing hashPath", fun other h => ?_⟩
    cases h <;> simp_all
  rcases hplain htreeSize hleafIndex hhashPath with hfail | hfail | hsingle
  · obtain ⟨text, hfail⟩ := hfail
    refine ⟨.error ("VDP hashPath: " ++ text), fun other h => ?_⟩
    cases h <;> simp_all
  · obtain ⟨hread, hroots⟩ := hfail
    refine ⟨.error (if entriesAt inclusionProofRootHash vdp = [] then "VDP missing rootHash" else "VDP rootHash is not bytes"),
      fun other h => ?_⟩
    cases h with
    | noTreeSize h => exact absurd h htreeSize
    | noLeafIndex _ h => exact absurd h hleafIndex
    | noHashPath _ _ h => exact absurd h hhashPath
    | badHashPath _ _ hpath hfails =>
      obtain ⟨path, hreads⟩ := hread _ hpath
      rw [hreads] at hfails
      cases hfails
    | noRootHash _ _ _ _ hroot => rw [if_pos hroot]
    | badRootHash _ _ _ _ hroot _ => rw [if_neg (ne_nil_of_mem hroot)]
    | proof _ _ _ _ hroot => exact absurd rfl (hroots _ hroot _)
  · obtain ⟨path, root, n, k, hpaths, hne, hroots, hn, hk⟩ := hsingle
    refine ⟨.ok ⟨n, k, path, root⟩, fun other h => ?_⟩
    cases h with
    | noTreeSize h => exact absurd h htreeSize
    | noLeafIndex _ h => exact absurd h hleafIndex
    | noHashPath _ _ h => exact absurd h hhashPath
    | badHashPath _ _ hpath hfails =>
      rw [hpaths _ hpath] at hfails
      cases hfails
    | noRootHash _ _ _ _ hroot => exact absurd hroot hne
    | badRootHash _ _ _ _ hroot hfails => exact absurd (hroots _ hroot) (hfails root)
    | proof hsize hindex hpath hreads hroot =>
      rw [hn, mem_singleton] at hsize
      rw [hk, mem_singleton] at hindex
      rw [hpaths _ hpath] at hreads
      cases hreads
      cases hroots _ hroot
      rw [hsize, hindex]
      rfl

/-! ### Another order -/

/-- Corresponding values read alike. -/
theorem reads_eq_of_reorders (h : v.Reorders w) : toByteSlices (normalized v) = toByteSlices (normalized w) ∧
    toUint64 (normalized v) = toUint64 (normalized w) ∧ ∀ b, v = .bytes b ↔ w = .bytes b := by
  rcases h.eq_or_maps with rfl | ⟨entries, entries', rfl, rfl⟩
  · exact ⟨rfl, rfl, fun b => Iff.rfl⟩
  · exact ⟨rfl, rfl, fun b => iff_of_false nofun nofun⟩

theorem Alike.exists_of_mem {values values' : List Value} (h : Alike values values') (hw : w ∈ values') :
    ∃ v ∈ values, v.Reorders w := by
  obtain ⟨between, hforall, hperm⟩ := h
  have hbetween := hperm.mem_iff.mpr hw
  clear hperm hw
  induction hforall with
  | nil => cases hbetween
  | cons hvw _ ih =>
    rcases mem_cons.mp hbetween with rfl | hrest
    · exact ⟨_, mem_cons_self, hvw⟩
    · obtain ⟨v, hv, hreorders⟩ := ih hrest
      exact ⟨v, mem_cons_of_mem _ hv, hreorders⟩

theorem Alike.eq_nil_iff {values values' : List Value} (h : Alike values values') : values' = [] ↔ values = [] := by
  obtain ⟨between, hforall, hperm⟩ := h
  rw [← length_eq_zero_iff, ← length_eq_zero_iff, hforall.length_eq, hperm.length_eq]

/-- What comes out of another order could have come out of this one. -/
theorem Outcome.of_alike
    (halike : ∀ label, Alike (entriesAt label vdp) (entriesAt label vdp')) (h : Outcome vdp' result) : Outcome vdp result := by
  have hnil (label : Int) : entriesAt label vdp' = [] ↔ entriesAt label vdp = [] := (halike label).eq_nil_iff
  cases h with
  | noTreeSize h => exact .noTreeSize ((hnil _).mp h)
  | noLeafIndex h h' => exact .noLeafIndex (mt (hnil _).mpr h) ((hnil _).mp h')
  | noHashPath h h' h'' => exact .noHashPath (mt (hnil _).mpr h) (mt (hnil _).mpr h') ((hnil _).mp h'')
  | badHashPath h h' hpath hfails =>
    obtain ⟨path, hmem, hreorders⟩ := (halike _).exists_of_mem hpath
    exact .badHashPath (mt (hnil _).mpr h) (mt (hnil _).mpr h') hmem ((reads_eq_of_reorders hreorders).1.trans hfails)
  | noRootHash h h' hpath hreads hroot =>
    obtain ⟨path, hmem, hreorders⟩ := (halike _).exists_of_mem hpath
    exact .noRootHash (mt (hnil _).mpr h) (mt (hnil _).mpr h') hmem ((reads_eq_of_reorders hreorders).1.trans hreads)
      ((hnil _).mp hroot)
  | badRootHash h h' hpath hreads hroot hfails =>
    obtain ⟨path, hmem, hreorders⟩ := (halike _).exists_of_mem hpath
    obtain ⟨root, hmemRoot, hrootReorders⟩ := (halike _).exists_of_mem hroot
    exact .badRootHash (mt (hnil _).mpr h) (mt (hnil _).mpr h') hmem ((reads_eq_of_reorders hreorders).1.trans hreads)
      hmemRoot fun b heq => hfails b (((reads_eq_of_reorders hrootReorders).2.2 b).mp heq)
  | @proof _ _ _ hashes b htreeSize hleafIndex hpath hreads hroot =>
    obtain ⟨treeSize, hmemSize, hsizeReorders⟩ := (halike _).exists_of_mem htreeSize
    obtain ⟨leafIndex, hmemIndex, hindexReorders⟩ := (halike _).exists_of_mem hleafIndex
    obtain ⟨path, hmem, hreorders⟩ := (halike _).exists_of_mem hpath
    obtain ⟨root, hmemRoot, hrootReorders⟩ := (halike _).exists_of_mem hroot
    rw [← (reads_eq_of_reorders hsizeReorders).2.1, ← (reads_eq_of_reorders hindexReorders).2.1]
    have hbytes : root = .bytes b := ((reads_eq_of_reorders hrootReorders).2.2 b).mpr rfl
    exact .proof hmemSize hmemIndex hmem ((reads_eq_of_reorders hreorders).1.trans hreads) (hbytes ▸ hmemRoot)

theorem Alike.singleton {values' : List Value} (h : Alike [v] values') : ∃ w, values' = [w] ∧ v.Reorders w := by
  obtain ⟨between, hforall, hperm⟩ := h
  cases hforall with
  | cons hvw hrest =>
    cases hrest
    exact ⟨_, perm_singleton.mp hperm.symm, hvw⟩

/-! ### Headers -/

/-- Where the value under a label is the only one, another value in its place is. -/
theorem entriesAt_replace {before after : List (Value × Value)} {key : Value} (hkey : toInt key = label)
    (h : entriesAt label (before ++ (key, v) :: after) = [v]) (w : Value) :
    entriesAt label (before ++ (key, w) :: after) = [w] := by
  rw [entriesAt_append, entriesAt_cons, if_pos hkey] at h ⊢
  rcases append_eq_singleton_iff.mp h with ⟨hbefore, hrest⟩ | ⟨_, hrest⟩
  · rw [hbefore, (cons.inj hrest).2]
    rfl
  · cases hrest

theorem extractInclusionProof_of_map (h : entriesAt labelVDP raw = [.map vdp]) :
    extractInclusionProof (normalizeIntMap raw) = proofOf vdp := by
  rw [extractInclusionProof_eq, h]
  · rfl
  · rw [h]
    intro v hv m
    rw [mem_singleton.mp hv]
    nofun

theorem ReadsStrictly.plain (h : ReadsStrictly raw) (hcanonical : CanonicalMap raw) : Plain raw := by
  intro vdp hmem
  obtain ⟨⟨key, value⟩, hfilter, hvalue⟩ := mem_map.mp hmem
  obtain rfl : value = .map vdp := hvalue
  obtain ⟨hentry, hlabel⟩ := mem_filter.mp hfilter
  have hkey : toInt key = labelVDP := of_decide_eq_true hlabel
  have honly := entriesAt_labelVDP hcanonical hentry hkey
  have hproof := extractInclusionProof_of_map honly
  obtain ⟨before, after, rfl⟩ := append_of_mem hentry
  have hunique : ∀ other, Outcome vdp other → other = proofOf vdp := by
    intro other houtcome
    obtain ⟨vdp', hperm, hother⟩ := houtcome.realized
    have hordered := h.ordered _ (.inside (.perm hperm))
    rw [extractInclusionProof_of_map (entriesAt_replace hkey honly _), hproof, hother] at hordered
    exact hordered
  apply plainProof_of_unique hunique
  intro proof hok
  obtain ⟨vdp', hvdp', hsize, hindex⟩ := h.exact proof (hproof.trans hok)
  rw [honly] at hvdp'
  cases hvdp'
  exact ⟨hsize, hindex⟩

theorem Plain.readsStrictly (h : Plain raw) (hcanonical : CanonicalMap raw) : ReadsStrictly raw := by
  by_cases hnone : entriesAt labelVDP raw = []
  · -- no proof in any order
    have hmissing {other : List (Value × Value)} (hother : entriesAt labelVDP other = []) :
        extractInclusionProof (normalizeIntMap other) = .error s!"unprotected header missing VDP (label {labelVDP})" := by
      rw [extractInclusionProof_eq, hother]
      · rfl
      · rw [hother]
        exact forall_mem_nil _
    constructor
    · intro raw' hreorders
      obtain ⟨entries', heq, halike⟩ := hreorders.entries rfl
      cases heq
      rw [hmissing hnone, hmissing ((halike _).eq_nil_iff.mpr hnone)]
    · intro proof hok
      rw [hmissing hnone] at hok
      cases hok
  obtain ⟨value, hvalue⟩ := exists_mem_of_ne_nil _ hnone
  obtain ⟨e, hfilter, rfl⟩ := mem_map.mp hvalue
  obtain ⟨hentry, hlabel⟩ := mem_filter.mp hfilter
  have honly := entriesAt_labelVDP hcanonical hentry (of_decide_eq_true hlabel)
  have hsame (raw' : List (Value × Value)) (hreorders : (Value.map raw).Reorders (.map raw')) :
      ∃ w, entriesAt labelVDP raw' = [w] ∧ e.2.Reorders w := by
    obtain ⟨entries', heq, halike⟩ := hreorders.entries rfl
    cases heq
    have hlabelled := halike labelVDP
    rw [honly] at hlabelled
    exact hlabelled.singleton
  by_cases hmap : ∃ vdp, e.2 = .map vdp
  · obtain ⟨vdp, hvdp⟩ := hmap
    rw [hvdp] at honly hsame
    have hplain : PlainProof vdp := h vdp (honly ▸ mem_singleton_self _)
    obtain ⟨result, hunique⟩ := hplain.unique
    constructor
    · intro raw' hreorders
      obtain ⟨w, honly', hvdp'⟩ := hsame raw' hreorders
      obtain ⟨vdp', rfl, halike⟩ := hvdp'.entries rfl
      rw [extractInclusionProof_of_map honly, extractInclusionProof_of_map honly', hunique _ (proofOf_outcome vdp)]
      exact hunique _ ((proofOf_outcome vdp').of_alike halike)
    · intro proof hok
      rw [extractInclusionProof_of_map honly] at hok
      have houtcome := proofOf_outcome vdp
      rw [hok] at houtcome
      cases houtcome with
      | proof htreeSize hleafIndex hpath hreads hroot =>
        rcases hplain (ne_nil_of_mem htreeSize) (ne_nil_of_mem hleafIndex) (ne_nil_of_mem hpath) with
          ⟨text, hfail⟩ | ⟨_, hfail⟩ | ⟨_, _, n, k, _, _, _, hn, hk⟩
        · rw [hfail _ hpath] at hreads
          cases hreads
        · exact absurd rfl (hfail _ hroot _)
        · refine ⟨vdp, honly, ?_, ?_⟩
          · rw [hn] at htreeSize ⊢
            rw [mem_singleton.mp htreeSize]
            rfl
          · rw [hk] at hleafIndex ⊢
            rw [mem_singleton.mp hleafIndex]
            rfl
  · -- the value is no map in any order
    have hother {other : List (Value × Value)} {w : Value} (honly' : entriesAt labelVDP other = [w]) (hw : w = e.2) :
        extractInclusionProof (normalizeIntMap other) = .error "VDP is not a map" := by
      have hdecoded := hcanonical.decoded e hentry
      rw [extractInclusionProof_eq, honly', hw]
      · cases hvalue : e.2 with
        | map vdp => exact absurd ⟨vdp, hvalue⟩ hmap
        | _ => rfl
      · rw [honly']
        intro v hv m
        rw [mem_singleton.mp hv, hw]
        exact hdecoded m
    constructor
    · intro raw' hreorders
      obtain ⟨w, honly', hreorders'⟩ := hsame raw' hreorders
      rcases hreorders'.eq_or_maps with heq | ⟨vdp, _, hvdp, _⟩
      · rw [hother honly rfl, hother honly' heq.symm]
      · exact absurd ⟨vdp, hvdp⟩ hmap
    · intro proof hok
      rw [hother honly rfl] at hok
      cases hok

end Reading

/-- Of every receipt that parses: the proof is read strictly just where its header is plain. -/
theorem reads_strictly_iff {cbor : Cbor} (hcbor : cbor.Canonical) {data : Bytes} {parsed : CoseSign1Parsed}
    (h : parseCOSESign1 cbor data = .ok parsed) :
    ∃ raw, HeaderOf cbor parsed raw ∧ (ReadsStrictly raw ↔ Plain raw) := by
  obtain ⟨raw, hheader⟩ := exists_headerOf h
  refine ⟨raw, hheader, ?_⟩
  obtain ⟨header, hraw, _⟩ := hheader
  have hcanonical := hcbor header raw hraw
  exact ⟨fun hstrict => hstrict.plain hcanonical, fun hplain => hplain.readsStrictly hcanonical⟩

/-! ### Lenient readings -/

namespace Sample

/-- A library that decodes every header to the map. -/
def fixedCbor (raw : List (Value × Value)) : Cbor where
  unmarshalTag _ := .error "not a tag"
  unmarshalRaw _ := .ok [[], [], [], []]
  unmarshalBytes _ := .ok []
  unmarshalBytesPtr _ := .ok none
  unmarshalMap _ := .ok raw
  marshal _ := .ok []
  detMarshal _ := .ok []

def header (vdp : List (Value × Value)) : List (Value × Value) := [(.uint64 396, .map vdp)]

theorem canonical_header (vdp : List (Value × Value)) : (fixedCbor (header vdp)).Canonical := by
  rintro data entries heq
  cases heq
  refine ⟨nodup_singleton _, ?_, ?_, ?_⟩
  · intro n value hmem
    cases mem_singleton.mp hmem
    decide
  · intro n value hmem
    cases mem_singleton.mp hmem
  · intro e hmem m
    rw [mem_singleton.mp hmem]
    nofun

theorem entriesAt_header (vdp : List (Value × Value)) : entriesAt labelVDP (header vdp) = [.map vdp] := rfl

/-- What the receipt parses to. -/
def parsed (vdp : List (Value × Value)) : CoseSign1Parsed where
  protectedBytes := []
  unprotected := normalizeIntMap (header vdp)
  payload := []
  signature := []

theorem parse_header (vdp : List (Value × Value)) : parseCOSESign1 (fixedCbor (header vdp)) [] = .ok (parsed vdp) := rfl

def plain : List (Value × Value) :=
  [(.int64 (-1), .uint64 1), (.int64 (-2), .uint64 0), (.int64 (-3), .array []), (.int64 (-4), .bytes [])]

/-- A text for the tree size, and a negative leaf index. -/
def wrongTypes : List (Value × Value) :=
  [(.int64 (-1), .text "many"), (.int64 (-2), .int64 (-5)), (.int64 (-3), .array []), (.int64 (-4), .bytes [])]

/-- Two keys that narrow to the label of the tree size. -/
def colliding : List (Value × Value) := plain ++ [(.uint64 (2 ^ 64 - 1), .uint64 5)]

end Sample

open Sample

theorem plain_header_is_read_strictly : ReadsStrictly (header plain) := by
  obtain ⟨raw, ⟨_, hraw, _⟩, hiff⟩ := reads_strictly_iff (canonical_header plain) (parse_header plain)
  cases hraw
  apply hiff.mpr
  intro vdp hmem
  rw [entriesAt_header, mem_singleton] at hmem
  cases hmem
  intro _ _ _
  refine .inr (.inr ⟨[], [], 1, 0, ?_, nofun, ?_, rfl, rfl⟩)
  · intro v hv
    cases mem_singleton.mp (show v ∈ [.array []] from hv)
    rfl
  · intro v hv
    exact mem_singleton.mp (show v ∈ [.bytes []] from hv)

/-- A text and a negative number are read as sizes, and of two keys that narrow alike the order of iteration picks one. -/
theorem lenient_headers :
    parseCOSESign1 (fixedCbor (header wrongTypes)) [] = .ok (parsed wrongTypes) ∧
    extractInclusionProof (parsed wrongTypes).unprotected = .ok ⟨0, 18446744073709551611, [], []⟩ ∧
    parseCOSESign1 (fixedCbor (header colliding)) [] = .ok (parsed colliding) ∧
    extractInclusionProof (parsed colliding).unprotected = .ok ⟨5, 0, [], []⟩ ∧
    ∃ raw', (Value.map (header colliding)).Reorders (.map raw') ∧
      extractInclusionProof (normalizeIntMap raw') = .ok ⟨1, 0, [], []⟩ := by
  have hextract (vdp : List (Value × Value)) : extractInclusionProof (normalizeIntMap (header vdp)) = proofOf vdp :=
    extractInclusionProof_of_map (entriesAt_header vdp)
  have hperm : colliding.Perm ((.uint64 (2 ^ 64 - 1), .uint64 5) :: plain) := perm_append_singleton _ _
  have hreorders : (Value.map ([] ++ (.uint64 396, .map colliding) :: [])).Reorders
      (.map ([] ++ (.uint64 396, .map ((.uint64 (2 ^ 64 - 1), .uint64 5) :: plain)) :: [])) :=
    .inside (.perm hperm)
  refine ⟨parse_header _, (hextract _).trans rfl, parse_header _, (hextract _).trans rfl, ?_⟩
  exact ⟨header ((.uint64 (2 ^ 64 - 1), .uint64 5) :: plain), hreorders, (hextract _).trans rfl⟩

end AgentNameService.Receipt
