/-
Purpose: Page tokens: which queries a search accepts, what is hashed of a query, and for which queries the token of a query
  is taken.
Source: internal/finder/handler/{dto,validate}.go
Trusted boundary: human-reviewed model; base64 and the first eight bytes of a SHA-256 are parameters
-/
import AgentNameService.Finder.Catalog
import AgentNameService.Foundation.CborItem
import AgentNameService.Foundation.Sorting

namespace AgentNameService.Finder

open List Except CborItem Registration Sorting

/-! ### Accepted queries -/

/-- The query of a request; a filter is a map, and stands here in the order of its keys. -/
structure QueryDTO where
  text : String
  filter : Filter
  sorted : filter.Pairwise fun a b => a.1 < b.1

structure SearchRequest where
  query : QueryDTO
  federation : String
  pageSize : Option Int

structure HandlerConfig where
  defaultPageSize : Int
  maxPageSize : Int

inductive Federation where
  | auto
  | referrals
  | none

def maxTextBytes : Nat := 4096

def maxTextTokens : Nat := 64

def maxFilterValues : Nat := 100

def totalValues (filter : Filter) : Nat := (filter.map fun entry => entry.2.length).sum

def firstDisallowedRune (s : String) : Option Char := s.toList.find? isDisallowedRune

def validateQueryBounds (q : QueryDTO) : Except String Unit := do
  require (q.text.utf8ByteSize ≤ maxTextBytes) s!"query.text exceeds the {maxTextBytes}-byte limit"
  require (firstDisallowedRune q.text = none)
    ("query.text contains a disallowed control/format character " ++ (firstDisallowedRune q.text).elim "" codePoint)
  let n := (fields q.text).length
  require (n ≤ maxTextTokens) s!"query.text has {n} tokens, exceeding the limit of {maxTextTokens}"
  let total := totalValues q.filter
  require (total ≤ maxFilterValues)
    s!"query.filter has {total} values, exceeding the limit of {maxFilterValues}"

def validateFilter (filter : Filter) : Except String Unit :=
  filter.forM fun (key, values) => do
    require ((fieldOf key).isSome = true) s!"filter field {quoted key} is not a supported field path"
    require (values ≠ []) s!"filter field {quoted key} has no values"
    values.forM fun v => require (v ≠ "") s!"filter field {quoted key} has an empty value"

def resolveFederation (raw : String) : Except String Federation :=
  if raw = "" ∨ raw = "auto" then .ok .auto
  else if raw = "referrals" then .ok .referrals
  else if raw = "none" then .ok .none
  else .error s!"federation {quoted raw} is not one of auto, referrals, none"

def resolvePageSize (cfg : HandlerConfig) : Option Int → Except String Int
  | none => .ok cfg.defaultPageSize
  | some requested => if requested < 1 then .error "pageSize must be >= 1" else .ok (min requested cfg.maxPageSize)

def validateSearch (cfg : HandlerConfig) (req : SearchRequest) : Except String (QueryDTO × Federation × Int) := do
  require (trimSpace req.query.text ≠ "") "query.text is required for search"
  validateQueryBounds req.query
  validateFilter req.query.filter
  let federation ← resolveFederation req.federation
  let pageSize ← resolvePageSize cfg req.pageSize
  return (req.query, federation, pageSize)

/-- A query of some request that passes. -/
def Accepted (cfg : HandlerConfig) (q : QueryDTO) : Prop :=
  ∃ req result, req.query = q ∧ validateSearch cfg req = .ok result

/-- What is asked of the entries of a filter. -/
def FilterValid (filter : Filter) : Prop :=
  totalValues filter ≤ maxFilterValues ∧
    ∀ entry ∈ filter, (fieldOf entry.1).isSome = true ∧ entry.2 ≠ [] ∧ ∀ v ∈ entry.2, v ≠ ""

/-- What is asked of a text. -/
def TextValid (text : String) : Prop :=
  trimSpace text ≠ "" ∧ text.utf8ByteSize ≤ maxTextBytes ∧ firstDisallowedRune text = none ∧
    (fields text).length ≤ maxTextTokens

variable {cfg : HandlerConfig} {q q' : QueryDTO}

theorem accepted_iff : Accepted cfg q ↔ TextValid q.text ∧ FilterValid q.filter := by
  have hchecks (req : SearchRequest) : (trimSpace req.query.text ≠ "" ∧ validateQueryBounds req.query = .ok () ∧
      validateFilter req.query.filter = .ok ()) ↔ TextValid req.query.text ∧ FilterValid req.query.filter := by
    simp only [validateQueryBounds, validateFilter, bind_eq_ok_iff, require_eq_ok_iff, forM_eq_ok_iff,
      TextValid, FilterValid, exists_const, and_assoc]
  constructor
  · rintro ⟨req, result, rfl, h⟩
    simp only [validateSearch, bind_eq_ok_iff, require_eq_ok_iff] at h
    obtain ⟨_, htext, _, hbounds, _, hfilter, _⟩ := h
    exact (hchecks req).mp ⟨htext, hbounds, hfilter⟩
  · intro h
    obtain ⟨htext, hbounds, hfilter⟩ := (hchecks ⟨q, "", none⟩).mpr h
    refine ⟨⟨q, "", none⟩, (q, .auto, cfg.defaultPageSize), rfl, ?_⟩
    simp only [validateSearch, bind_eq_ok_iff, require_eq_ok_iff]
    exact ⟨(), htext, (), hbounds, (), hfilter, .auto, rfl, cfg.defaultPageSize, rfl, rfl⟩

/-! ### Tokens -/

structure PageToken where
  offset : UInt64
  queryHash : UInt64

/-- The bytes 0 and 1, that delimit what is hashed. -/
abbrev nul : Char := '\x00'

abbrev one : Char := '\x01'

/-- What is written of the entries of a filter. -/
def blocks (entries : Filter) : List Char :=
  entries.flatMap fun (k, values) => k.toList ++ nul :: (values.flatMap (fun v => v.toList ++ [nul]) ++ [one])

/-- What is written to the hash. -/
def written (q : QueryDTO) : String :=
  String.ofList (q.text.toList ++ nul :: blocks (sortBy Prod.fst q.filter))

def queryHash (digest : String → UInt64) (q : QueryDTO) : UInt64 := digest (written q)

/-- `base64.RawURLEncoding`. -/
structure Base64 where
  encode : Bytes → String
  decode : String → Option Bytes
  decode_encode : ∀ b, decode (encode b) = some b

def maxInt32 : Nat := 2 ^ 31 - 1

def encodePageToken (base64 : Base64) (t : PageToken) : String :=
  base64.encode (bigEndian 8 t.offset.toNat ++ bigEndian 8 t.queryHash.toNat)

def decodePageToken (base64 : Base64) (s : String) (wantHash : UInt64) : Except String PageToken :=
  match base64.decode s with
  | none => .error "pageToken is not valid base64"
  | some raw => do
    require (raw.length = 16) "pageToken has wrong length"
    let t : PageToken :=
      { offset := .ofNat (ofBigEndian (raw.take 8)), queryHash := .ofNat (ofBigEndian (raw.drop 8)) }
    require (t.offset.toNat ≤ maxInt32) "pageToken offset out of range"
    require (t.queryHash = wantHash) "pageToken does not match this query"
    return t

theorem decodePageToken_encode {base64 : Base64} {t : PageToken} (hoffset : t.offset.toNat ≤ maxInt32)
    {wantHash : UInt64} :
    (∃ t', decodePageToken base64 (encodePageToken base64 t) wantHash = .ok t') ↔ t.queryHash = wantHash := by
  have hread (n : UInt64) : UInt64.ofNat (ofBigEndian (bigEndian 8 n.toNat)) = n := by
    rw [ofBigEndian_bigEndian (by simpa using n.toNat_lt), UInt64.ofNat_toNat]
  simp only [decodePageToken, encodePageToken, base64.decode_encode, bind_eq_ok_iff, require_eq_ok_iff,
    pure_eq_ok_iff]
  simp [take_left', drop_left', hread, hoffset]

/-! ### What is hashed -/

theorem eq_of_append_nul {a b x y : List Char} (ha : nul ∉ a) (hb : nul ∉ b) (h : a ++ nul :: x = b ++ nul :: y) :
    a = b ∧ x = y := by
  induction a generalizing b with
  | nil =>
    cases b with
    | nil => exact ⟨rfl, (cons.inj h).2⟩
    | cons c b => exact absurd (mem_cons.mpr (.inl (cons.inj h).1)) hb
  | cons c a ih =>
    cases b with
    | nil => exact absurd (mem_cons.mpr (.inl (cons.inj h).1.symm)) ha
    | cons d b =>
      obtain ⟨hhead, htail⟩ := cons.inj h
      obtain ⟨hrest, hxy⟩ := ih (fun hmem => ha (.tail _ hmem)) (fun hmem => hb (.tail _ hmem)) htail
      exact ⟨congrArg₂ _ hhead hrest, hxy⟩

theorem nul_notMem_key {key : String} (h : (fieldOf key).isSome = true) : nul ∉ key.toList := by
  unfold fieldOf at h
  split_ifs at h <;> first | (subst key; decide) | cases h

theorem TextValid.nul_notMem {text : String} (h : TextValid text) : nul ∉ text.toList := by
  intro hmem
  exact absurd (find?_eq_none.mp h.2.2.1 nul hmem) (by decide)

theorem written_eq_iff (hq : TextValid q.text) (hq' : TextValid q'.text) :
    written q' = written q ↔ q'.text = q.text ∧ blocks q'.filter = blocks q.filter := by
  have hsorted (q : QueryDTO) : sortBy Prod.fst q.filter = q.filter :=
    Pairwise.insertionSort_eq (q.sorted.imp le_of_lt)
  unfold written
  rw [String.ofList_inj, hsorted, hsorted]
  constructor
  · intro h
    obtain ⟨htext, hblocks⟩ := eq_of_append_nul hq'.nul_notMem hq.nul_notMem h
    exact ⟨String.toList_inj.mp htext, hblocks⟩
  · rintro ⟨htext, hblocks⟩
    rw [htext, hblocks]

/-- The byte 0 stands between two parts of the value. -/
def Splits (v : String) : Prop := ∃ a b, v.toList = a ++ nul :: b ∧ a ≠ [] ∧ b ≠ []

/-- At most one value, and not one that could be read as more. -/
def Unambiguous (filter : Filter) : Prop := filter = [] ∨ ∃ k v, filter = [(k, [v])] ∧ ¬ Splits v

/-- More entries or values than one show in the value they are written like. -/
theorem eq_singleton_of_blocks {k v : String} {entries : Filter} (hvalid : FilterValid entries) (hk : nul ∉ k.toList)
    (hv : ¬ Splits v) (h : blocks entries = blocks [(k, [v])]) : entries = [(k, [v])] := by
  rcases entries with _ | ⟨⟨k', _ | ⟨v', more⟩⟩, rest⟩
  · simp [blocks] at h
  · exact absurd rfl (hvalid.2 _ (.head _)).2.1
  · obtain ⟨hkey, -, hvalues⟩ := hvalid.2 _ (.head _)
    let tail := more.flatMap (fun v => v.toList ++ [nul]) ++ one :: blocks rest
    have hwritten : k'.toList ++ nul :: (v'.toList ++ nul :: tail) = k.toList ++ nul :: (v.toList ++ [nul, one]) := by
      simpa [blocks, tail] using h
    obtain ⟨hk', htail⟩ := eq_of_append_nul (nul_notMem_key hkey) hk hwritten
    by_cases hlong : 3 ≤ tail.length
    · have hsplit : (v'.toList ++ nul :: tail.take (tail.length - 2)) ++ tail.drop (tail.length - 2) =
          v.toList ++ [nul, one] := by
        rw [← htail, append_assoc, cons_append, take_append_drop]
      have hvalue := (append_inj' hsplit (by simp; omega)).1
      refine absurd ⟨v'.toList, _, hvalue.symm, ?_, ?_⟩ hv
      · simpa using hvalues v' (.head _)
      · exact ne_nil_of_length_pos (by simp; omega)
    · have hmore : more = [] := by
        cases more with
        | nil => rfl
        | cons next more =>
          have hnext : 0 < next.toList.length := length_pos_of_ne_nil (by simpa using hvalues next (.tail _ (.head _)))
          exact absurd (by simp [tail]; omega) hlong
      have hrest : rest = [] := by
        cases rest with
        | nil => rfl
        | cons entry rest => exact absurd (by simp [tail, blocks]; omega) hlong
      subst hmore hrest
      have hvalue : v' = v := String.toList_inj.mp (append_inj' htail (by simp [tail, blocks])).1
      have hkeys : k' = k := String.toList_inj.mp hk'
      rw [hkeys, hvalue]

/-- Another first value, with what is written the same, makes another query with the same hash. -/
theorem exists_rival (hq : Accepted cfg q) {k v : String} {vs : List String} {rest : Filter}
    (hfilter : q.filter = (k, v :: vs) :: rest) (v' : String) (vs' : List String) (rest' : Filter)
    (hne : v' ≠ v) (hv' : ∀ x ∈ v' :: vs', x ≠ "") (hrest : rest'.Sublist rest)
    (htotal : totalValues ((k, v' :: vs') :: rest') ≤ maxFilterValues)
    (hblocks : blocks ((k, v' :: vs') :: rest') = blocks ((k, v :: vs) :: rest)) :
    ∃ q', Accepted cfg q' ∧ written q' = written q ∧ q'.filter ≠ q.filter := by
  obtain ⟨htext, hvalid⟩ := accepted_iff.mp hq
  have hsorted := q.sorted
  rw [hfilter] at hvalid hsorted
  obtain ⟨hhead, htail⟩ := pairwise_cons.mp hsorted
  let rival : QueryDTO :=
    { text := q.text, filter := (k, v' :: vs') :: rest'
      sorted := pairwise_cons.mpr ⟨fun entry hentry => hhead entry (hrest.subset hentry), htail.sublist hrest⟩ }
  have hwritten : written rival = written q := (@written_eq_iff q rival htext htext).mpr ⟨rfl, hfilter ▸ hblocks⟩
  refine ⟨rival, accepted_iff.mpr ⟨htext, htotal, ?_⟩, hwritten, ?_⟩
  · intro entry hentry
    rcases mem_cons.mp hentry with rfl | hentry
    · exact ⟨(hvalid.2 _ (.head _)).1, cons_ne_nil _ _, hv'⟩
    · exact hvalid.2 entry (.tail _ (hrest.subset hentry))
  · rw [hfilter]
    intro hsame
    exact hne (by simp_all [rival])

theorem exists_rival_of_ambiguous (hq : Accepted cfg q) (h : ¬ Unambiguous q.filter) :
    ∃ q', Accepted cfg q' ∧ written q' = written q ∧ q'.filter ≠ q.filter := by
  have hvalid := (accepted_iff.mp hq).2
  generalize hfilter : q.filter = entries at hvalid h
  have htotal := hvalid.1
  have hlonger (v : String) (tail : List Char) : String.ofList (v.toList ++ nul :: tail) ≠ v := by
    intro heq
    simpa using congrArg (fun s => s.toList.length) heq
  rw [← hfilter]
  -- the first value takes in what follows it, or falls into two
  rcases entries with _ | ⟨⟨k, _ | ⟨v, _ | ⟨next, more⟩⟩⟩, rest⟩
  · exact absurd (.inl rfl) h
  · exact absurd rfl (hvalid.2 _ (.head _)).2.1
  · rcases rest with _ | ⟨⟨k', _ | ⟨next, more⟩⟩, rest⟩
    · obtain ⟨a, b, hv, ha, hb⟩ : Splits v := by
        by_contra hv
        exact h (.inr ⟨k, v, rfl, hv⟩)
      refine exists_rival hq hfilter (.ofList a) [.ofList b] [] ?_ ?_ (.refl _) (by simp [totalValues, maxFilterValues]) ?_
      · intro heq
        simpa [← heq] using congrArg length hv
      · simpa using ⟨ha, hb⟩
      · simp [blocks, hv]
    · exact absurd rfl (hvalid.2 _ (.tail _ (.head _))).2.1
    · refine exists_rival hq hfilter (.ofList (v.toList ++ nul :: one :: (k'.toList ++ nul :: next.toList))) more rest
        (hlonger v _) ?_ (sublist_cons_self _ _) ?_ ?_
      · refine forall_mem_cons.mpr ⟨by simp, fun x hx => ?_⟩
        exact (hvalid.2 _ (.tail _ (.head _))).2.2 x (.tail _ hx)
      · simp [totalValues] at htotal ⊢
        omega
      · simp [blocks]
  · refine exists_rival hq hfilter (.ofList (v.toList ++ nul :: next.toList)) more rest (hlonger v _) ?_ (.refl _) ?_ ?_
    · refine forall_mem_cons.mpr ⟨by simp, fun x hx => ?_⟩
      exact (hvalid.2 _ (.head _)).2.2 x (.tail _ (.tail _ hx))
    · simp [totalValues] at htotal ⊢
      omega
    · simp [blocks]

/-! ### Tokens and queries -/

/-- The token of a query at an offset is taken for another query. -/
def Taken (base64 : Base64) (digest : String → UInt64) (offset : UInt64) (q q' : QueryDTO) : Prop :=
  ∃ t, decodePageToken base64 (encodePageToken base64 ⟨offset, queryHash digest q⟩) (queryHash digest q') = .ok t

/-- A token is for its query alone just when nothing in the filter can be read in another way: its values are delimited by
a byte that no check refuses in them, so that a list of values is hashed like one longer value. -/
theorem pageToken_bound_iff (base64 : Base64) (digest : String → UInt64) (hq : Accepted cfg q)
    (hdigest : ∀ q', Accepted cfg q' → written q' ≠ written q → queryHash digest q' ≠ queryHash digest q)
    {offset : UInt64} (hoffset : offset.toNat ≤ maxInt32) :
    (∀ q', Accepted cfg q' → Taken base64 digest offset q q' → q'.text = q.text ∧ q'.filter = q.filter) ↔
      Unambiguous q.filter := by
  have htaken (q' : QueryDTO) (hq' : Accepted cfg q') : Taken base64 digest offset q q' ↔ written q' = written q := by
    rw [Taken, decodePageToken_encode hoffset]
    constructor
    · intro hhash
      by_contra hne
      exact hdigest q' hq' hne hhash.symm
    · intro hwritten
      rw [queryHash, queryHash, hwritten]
  constructor
  · intro hbound
    by_contra hambiguous
    obtain ⟨q', hq', hwritten, hdiffer⟩ := exists_rival_of_ambiguous hq hambiguous
    exact hdiffer (hbound q' hq' ((htaken q' hq').mpr hwritten)).2
  · intro hone q' hq' htoken
    obtain ⟨htext, hvalid⟩ := accepted_iff.mp hq
    obtain ⟨htext', hvalid'⟩ := accepted_iff.mp hq'
    obtain ⟨heq, hblocks⟩ := (written_eq_iff htext htext').mp ((htaken q' hq').mp htoken)
    refine ⟨heq, ?_⟩
    rcases hone with hnone | ⟨k, v, hone, hv⟩
    · rw [hnone] at hblocks ⊢
      cases hfilter : q'.filter with
      | nil => rfl
      | cons entry rest => simp [hfilter, blocks] at hblocks
    · rw [hone] at hvalid hblocks ⊢
      exact eq_singleton_of_blocks hvalid' (nul_notMem_key (hvalid.2 _ (.head _)).1) hv hblocks

/-- A byte is the character of its number. -/
def sampleBase64 : Base64 where
  encode b := String.ofList (b.map fun byte => Char.ofNat byte.toNat)
  decode s := some (s.toList.map fun c => UInt8.ofNat c.toNat)
  decode_encode b := by
    have hbyte (byte : UInt8) : UInt8.ofNat (Char.ofNat byte.toNat).toNat = byte := by
      have hvalid : byte.toNat.isValidChar := .inl (by have := byte.toNat_lt; omega)
      rw [Char.ofNat, dif_pos hvalid]
      exact UInt8.ofNat_toNat
    simp [Function.comp_def, hbyte]

def sampleConfig : HandlerConfig := { defaultPageSize := 10, maxPageSize := 100 }

def sampleQuery (tags : List String) : QueryDTO :=
  { text := "a", filter := [("tags", tags)], sorted := pairwise_singleton _ _ }

theorem accepted_sampleQuery {tags : List String} (h : FilterValid [("tags", tags)]) :
    Accepted sampleConfig (sampleQuery tags) := by
  have htext : TextValid "a" := ⟨by decide, by decide, by decide, by decide⟩
  exact accepted_iff.mpr ⟨htext, h⟩

/-- A hash that no other text shares with that of the query. -/
def sampleDigest (q : QueryDTO) (text : String) : UInt64 := if text = written q then 0 else 1

theorem pageToken_bound_iff_plain : Unambiguous (sampleQuery ["x"]).filter ∧ ∀ q', Accepted sampleConfig q' →
    Taken sampleBase64 (sampleDigest (sampleQuery ["x"])) 10 (sampleQuery ["x"]) q' →
      q'.text = "a" ∧ q'.filter = [("tags", ["x"])] := by
  have hone : Unambiguous (sampleQuery ["x"]).filter := by
    refine .inr ⟨"tags", "x", rfl, ?_⟩
    rintro ⟨a, b, hsplit, ha, hb⟩
    have hlength := congrArg length hsplit
    have ha := length_pos_of_ne_nil ha
    simp at hlength
    omega
  refine ⟨hone, (pageToken_bound_iff sampleBase64 _ (accepted_sampleQuery ⟨by decide, by decide⟩) ?_ (by decide)).mpr hone⟩
  intro q' _ hne
  simp [queryHash, sampleDigest, hne]

/-- The token of two values is taken for the one value that they make with the byte between them. -/
theorem pageToken_replayed :
    Accepted sampleConfig (sampleQuery ["x", "y"]) ∧ Accepted sampleConfig (sampleQuery ["x\x00y"]) ∧
      written (sampleQuery ["x\x00y"]) = written (sampleQuery ["x", "y"]) ∧
      Taken sampleBase64 (sampleDigest (sampleQuery ["x", "y"])) 10 (sampleQuery ["x", "y"]) (sampleQuery ["x\x00y"]) ∧
      (sampleQuery ["x\x00y"]).filter ≠ (sampleQuery ["x", "y"]).filter := by
  have hwritten : written (sampleQuery ["x\x00y"]) = written (sampleQuery ["x", "y"]) := by decide
  refine ⟨accepted_sampleQuery ⟨by decide, by decide⟩, accepted_sampleQuery ⟨by decide, by decide⟩, hwritten,
    (decodePageToken_encode (by decide)).mpr ?_, by decide⟩
  rw [queryHash, queryHash, hwritten]

end AgentNameService.Finder
