/-
Purpose: What the answers of the catalog add up to: the count of a facet's remainder against the entries it stands for,
  and the pages of a search against the rows that match.
Source: internal/adapter/store/sqlitefinder/{search,explore}.go
Trusted boundary: none
-/
import AgentNameService.Finder.Revocation
import AgentNameService.Foundation.Sorting

namespace AgentNameService.Finder

open List Except OrderDual Sorting

namespace Store

/-! ### The remainder of a facet -/

section Facets

variable (s : Store) (field : Field) (rows : List Row) (spec : FacetSpec)

/-- How many rows have a value. -/
def tally (value : String) : Nat := rows.countP fun r => value ∈ s.valuesOf r field

/-- More rows have it, or as many and it is the smaller text. -/
def Outranks (value other : String) : Prop :=
  s.tally field rows other < s.tally field rows value ∨
    s.tally field rows value = s.tally field rows other ∧ value < other

instance (value other : String) : Decidable (s.Outranks field rows value other) := inferInstanceAs (Decidable (_ ∨ _))

/-- The value met the minimum count, and as many others that did as the limit allows outrank it. -/
def FallsBeyond (value : String) : Prop :=
  spec.minCount ≤ s.tally field rows value ∧ 0 < spec.limit ∧
    spec.limit ≤ (rows.flatMap fun r => s.valuesOf r field).dedup.countP fun other =>
      spec.minCount ≤ s.tally field rows other ∧ s.Outranks field rows other value

instance (value : String) : Decidable (s.FallsBeyond field rows spec value) := inferInstanceAs (Decidable (_ ∧ _))

def Bucket.key (b : Bucket) : Natᵒᵈ ×ₗ String := toLex (toDual b.count, b.value)

theorem Bucket.key_injective : Function.Injective Bucket.key := by
  rintro ⟨v, n⟩ ⟨w, m⟩ h
  cases h
  rfl

variable {s field rows spec}

theorem mem_bucketsOf {b : Bucket} : b ∈ s.bucketsOf field rows ↔
    b.value ∈ rows.flatMap (fun r => s.valuesOf r field) ∧ b.count = s.tally field rows b.value := by
  unfold bucketsOf
  rw [mem_map]
  constructor
  · rintro ⟨value, hvalue, rfl⟩
    exact ⟨mem_dedup.mp hvalue, rfl⟩
  · obtain ⟨value, count⟩ := b
    rintro ⟨hvalue, hcount⟩
    obtain rfl : count = s.tally field rows value := hcount
    exact ⟨value, mem_dedup.mpr hvalue, rfl⟩

theorem bucketsOf_nodup : (s.bucketsOf field rows).Nodup := by
  refine (nodup_dedup _).map ?_
  intro v w h
  cases h
  rfl

/-- The values that met the minimum count and outrank one, counted among the buckets. -/
theorem countP_buckets (value : String) :
    ((s.bucketsOf field rows).filter fun b => spec.minCount ≤ b.count).countP
        (fun b => b.key < Bucket.key ⟨value, s.tally field rows value⟩) =
      (rows.flatMap fun r => s.valuesOf r field).dedup.countP fun other =>
        spec.minCount ≤ s.tally field rows other ∧ s.Outranks field rows other value := by
  unfold bucketsOf
  rw [countP_filter, countP_map]
  congr 1
  funext other
  simp [Bucket.key, Prod.Lex.toLex_lt_toLex, Outranks, tally, and_comm]

/-- The buckets of the remainder are those of the values that fall beyond the limit. -/
theorem assembleFacet_otherCount : ∃ cut : List Bucket, cut.Nodup ∧
    (assembleFacet (s.bucketsOf field rows) spec).otherCount = (cut.map Bucket.count).sum ∧
    ∀ b, b ∈ cut ↔ b ∈ s.bucketsOf field rows ∧ s.FallsBeyond field rows spec b.value := by
  let kept := (s.bucketsOf field rows).filter fun b => spec.minCount ≤ b.count
  have hkept : kept.Nodup := bucketsOf_nodup.filter _
  have hperm : (sortBy Bucket.key kept).Perm kept := sortBy_perm
  refine ⟨_, (hperm.nodup_iff.mpr hkept).sublist (drop_sublist _ _), rfl, ?_⟩
  intro b
  change b ∈ (sortBy Bucket.key kept).drop (if spec.limit ≤ 0 then (sortBy Bucket.key kept).length else spec.limit.toNat) ↔ _
  split
  · rename_i hlimit
    -- without a limit there is no remainder
    rw [drop_length]
    simp [FallsBeyond, hlimit.not_gt]
  · rename_i hlimit
    rw [mem_drop_iff (sortBy_strict (hkept.map Bucket.key_injective)), hperm.mem_iff, hperm.countP_eq,
      mem_filter, and_assoc]
    refine and_congr_right fun hb => ?_
    -- the bucket of a value is known by the value
    obtain ⟨value, count⟩ := b
    obtain rfl : count = s.tally field rows value := (mem_bucketsOf.mp hb).2
    rw [countP_buckets, decide_eq_true_iff, Int.toNat_le]
    simp only [FallsBeyond, Int.lt_of_not_ge hlimit, true_and]

theorem otherCount_eq_iff : (assembleFacet (s.bucketsOf field rows) spec).otherCount =
        rows.countP (fun r => ∃ v ∈ s.valuesOf r field, s.FallsBeyond field rows spec v) ↔
      ∀ r ∈ rows, ∀ v ∈ s.valuesOf r field, ∀ w ∈ s.valuesOf r field,
        s.FallsBeyond field rows spec v → s.FallsBeyond field rows spec w → v = w := by
  obtain ⟨cut, hnodup, hother, hcut⟩ := @assembleFacet_otherCount s field rows spec
  have hsum : cut.map Bucket.count = cut.map fun b => rows.countP fun r => b.value ∈ s.valuesOf r field := by
    apply map_congr_left
    intro b hb
    exact (mem_bucketsOf.mp ((hcut b).mp hb).1).2
  have hbucket {r : Row} (hr : r ∈ rows) {v : String} (hv : v ∈ s.valuesOf r field)
      (hbeyond : s.FallsBeyond field rows spec v) : ⟨v, s.tally field rows v⟩ ∈ cut :=
    (hcut _).mpr ⟨mem_bucketsOf.mpr ⟨mem_flatMap.mpr ⟨r, hr, hv⟩, rfl⟩, hbeyond⟩
  have hcount : rows.countP (fun r => ∃ v ∈ s.valuesOf r field, s.FallsBeyond field rows spec v) =
      rows.countP fun r => cut.any fun b => b.value ∈ s.valuesOf r field := by
    apply countP_congr
    intro r hr
    simp only [decide_eq_true_iff, any_eq_true]
    constructor
    · rintro ⟨v, hv, hbeyond⟩
      exact ⟨_, hbucket hr hv hbeyond, hv⟩
    · rintro ⟨b, hb, hv⟩
      exact ⟨b.value, hv, ((hcut b).mp hb).2⟩
  rw [hother, hsum, hcount, sum_countP_eq_iff hnodup]
  refine forall₂_congr fun r hr => ?_
  simp only [decide_eq_true_iff]
  constructor
  · intro hone v hv w hw hbv hbw
    exact congrArg Bucket.value (hone _ (hbucket hr hv hbv) _ (hbucket hr hw hbw) hv hw)
  · intro hone b hb c hc hbr hcr
    have hvalue := hone b.value hbr c.value hcr ((hcut b).mp hb).2 ((hcut c).mp hc).2
    have hbcount := (mem_bucketsOf.mp ((hcut b).mp hb).1).2
    have hccount := (mem_bucketsOf.mp ((hcut c).mp hc).1).2
    cases b
    cases c
    simp_all

end Facets

/-! ### The pages of a search -/

section Pages

variable {E : Engine} {s : Store} {q : SearchQuery} {now : Int} {rows others : List MatchedRow} {hasText : Bool}

/-- What rows are ordered by. -/
def ScoredRow.key (r : ScoredRow) : Intᵒᵈ ×ₗ String ×ₗ String ×ₗ String :=
  toLex (toDual r.score, toLex (r.row.listing.identifier, toLex (r.row.listing.type, r.row.listing.url)))

def ScoredRow.shown (r : ScoredRow) : ScoredEntry := ⟨r.row.listing.entry, r.score⟩

/-- A row with its score among the rows that match. -/
def scoreAmong (rows : List MatchedRow) (hasText : Bool) (r : MatchedRow) : ScoredRow :=
  let ranks := rows.map MatchedRow.rank
  let best := ranks.min?.getD 0
  let worst := ranks.max?.getD 0
  ⟨r.row, if hasText ∧ 0 < worst - best then ((worst - r.rank) / (worst - best) * 100).floor else 100⟩

/-- The page of a search, for the rows in the order in which the database returned them. -/
def pageOf (q : SearchQuery) (rows : List MatchedRow) : SearchResults :=
  let scored := scoreAndSort rows (q.text ≠ "")
  let total := scored.length
  let start := min q.offset.toNat total
  let stop := if q.limit ≤ 0 ∨ total < start + q.limit then total else start + q.limit.toNat
  { results := ((scored.take stop).drop start).map ScoredRow.shown
    nextOffset := stop
    hasMore := stop < total }

theorem search_eq : s.search E q now = pageOf q <$> s.matchedRows E q.text q.filter now := by
  unfold search
  cases s.matchedRows E q.text q.filter now <;> rfl

/-- What the database may return for the pages of a search: the rows that match, every time in any order. -/
def Returns (E : Engine) (s : Store) (q : SearchQuery) (now : Int) (orders : Nat → List MatchedRow) : Prop :=
  ∃ rows, s.matchedRows E q.text q.filter now = .ok rows ∧ ∀ k, (orders k).Perm rows

/-- What a client gets that follows the offsets; the database answers the page numbered `k` with `orders k`. -/
inductive Walk (q : SearchQuery) (orders : Nat → List MatchedRow) : Nat → Nat → List ScoredEntry → Prop where
  | last {k offset : Nat} (hlast : (pageOf { q with offset } (orders k)).hasMore = false) :
      Walk q orders k offset (pageOf { q with offset } (orders k)).results
  | next {k offset : Nat} {rest : List ScoredEntry} (hmore : (pageOf { q with offset } (orders k)).hasMore = true)
      (hrest : Walk q orders (k + 1) (pageOf { q with offset } (orders k)).nextOffset rest) :
      Walk q orders k offset ((pageOf { q with offset } (orders k)).results ++ rest)

/-- The scores do not depend on the order, so the rows can be sorted before they are scored. -/
theorem shown_scoreAndSort (hperm : others.Perm rows) : (scoreAndSort others hasText).map ScoredRow.shown =
    (sortBy (fun r => (scoreAmong rows hasText r).key) others).map fun r => (scoreAmong rows hasText r).shown := by
  have hsame : scoreAmong others hasText = scoreAmong rows hasText := by
    have hranks := extrema_eq_of_perm (hperm.map MatchedRow.rank)
    funext r
    simp only [scoreAmong, hranks.1, hranks.2]
  have hsorted : scoreAndSort others hasText = sortBy ScoredRow.key (others.map (scoreAmong others hasText)) := rfl
  rw [hsorted, hsame, sortBy_map, map_map]
  rfl

section Listing

variable {listing : List ScoredEntry} {offset : Nat}

/-- The page at an offset, cut out of what is shown. -/
theorem pageOf_eq (hlimit : 0 < q.limit) (hlisting : (scoreAndSort rows (q.text ≠ "")).map ScoredRow.shown = listing)
    (hoffset : offset ≤ listing.length) :
    pageOf { q with offset } rows = ⟨(listing.take (min listing.length (offset + q.limit.toNat))).drop offset,
      min listing.length (offset + q.limit.toNat), min listing.length (offset + q.limit.toNat) < listing.length⟩ := by
  subst hlisting
  rw [length_map] at hoffset
  have hstart : min (offset : Int).toNat (scoreAndSort rows (q.text ≠ "")).length = offset := by omega
  have hstop : (if q.limit ≤ 0 ∨ ((scoreAndSort rows (q.text ≠ "")).length : Int) < offset + q.limit then
      (scoreAndSort rows (q.text ≠ "")).length else offset + q.limit.toNat) =
      min (scoreAndSort rows (q.text ≠ "")).length (offset + q.limit.toNat) := by
    split <;> omega
  unfold pageOf
  simp only [hstart, hstop, length_map, map_drop, map_take]

/-- A page with what comes behind it. -/
theorem page_append {stop : Nat} (hstop : offset ≤ stop) (hlength : stop ≤ listing.length) :
    (listing.take stop).drop offset ++ listing.drop stop = listing.drop offset := by
  rw [← drop_append_of_le_length, take_append_drop]
  rw [length_take]
  omega

variable {orders : Nat → List MatchedRow} {k : Nat}

theorem Walk.eq_drop {out : List ScoredEntry} (hwalk : Walk q orders k offset out) (hlimit : 0 < q.limit)
    (horders : ∀ k, (scoreAndSort (orders k) (q.text ≠ "")).map ScoredRow.shown = listing)
    (hoffset : offset ≤ listing.length) : out = listing.drop offset := by
  induction hwalk with
  | last hlast =>
    rw [pageOf_eq hlimit (horders _) hoffset] at hlast ⊢
    have hstop := le_of_not_gt (decide_eq_false_iff_not.mp hlast)
    rw [take_of_length_le hstop]
  | next hmore _ ih =>
    rw [pageOf_eq hlimit (horders _) hoffset] at ih ⊢
    rw [ih (Nat.min_le_left _ _), page_append (by omega) (Nat.min_le_left _ _)]

/-- The walk ends: every page but the last brings it closer. -/
theorem walk_listing (hlimit : 0 < q.limit)
    (horders : ∀ k, (scoreAndSort (orders k) (q.text ≠ "")).map ScoredRow.shown = listing) {k offset : Nat}
    (hoffset : offset ≤ listing.length) : Walk q orders k offset (listing.drop offset) := by
  have hpage := pageOf_eq hlimit (horders k) hoffset
  by_cases hmore : min listing.length (offset + q.limit.toNat) < listing.length
  · have hrest : Walk q orders (k + 1) (pageOf { q with offset } (orders k)).nextOffset _ :=
      walk_listing hlimit horders (by rw [hpage]; exact Nat.min_le_left _ _)
    have hwalk := Walk.next (by rw [hpage]; exact decide_eq_true hmore) hrest
    rw [hpage] at hwalk
    rwa [page_append (by omega) (Nat.min_le_left _ _)] at hwalk
  · have hwalk : Walk q orders k offset _ := Walk.last (by rw [hpage]; exact decide_eq_false hmore)
    rw [hpage, take_of_length_le (le_of_not_gt hmore)] at hwalk
    exact hwalk
termination_by listing.length - offset
decreasing_by
  rw [hpage]
  dsimp only
  omega

end Listing

end Pages

end Store

namespace Sample

/-- The catalog after a page. -/
def catalogOf (entries : List ProjectedEntry) : Store :=
  match Store.empty.apply entries with
  | .ok (_, s) => s
  | .error _ => Store.empty

/-- A version of an agent. -/
def listed (version : String) (tags : List String) : ProjectedEntry where
  entry := {
    identifier := "urn:air:a.example:agents:desk"
    displayName := "desk"
    type := "application/json"
    url := "https://a.example/a"
    description := ""
    tags := tags
    capabilities := ["book"]
    version := version
    updatedAt := "2025-01-01T00:00:00Z"
    metadata := none
    trustManifest := none }
  lifecycle := .active
  agentID := version
  ansName := "ans://v" ++ version ++ ".a.example"
  logID := version
  createdAt := "2025-01-01T00:00:00Z"
  expiresAt := ""

def tagged : List ProjectedEntry := [listed "1.0.0" ["air", "rail", "sea"]]

def byTag : Store.FacetSpec := ⟨"tags", 1, 0⟩

def oneByOne : Store.SearchQuery := ⟨"", [], 1, 0⟩

/-- What an empty search of a catalog matches when nothing in it is expired or gone. -/
def rowsOf (entries : List ProjectedEntry) : List Store.MatchedRow := (catalogOf entries).entries.map (⟨·, 0⟩)

/-- Two versions of an agent that are active together. -/
def versions : List ProjectedEntry := [listed "1.0.0" [], listed "1.0.1" []]

/-- The database returns the two rows in another order for the second page. -/
def turned (k : Nat) : List Store.MatchedRow := if k = 0 then rowsOf versions else (rowsOf versions).reverse

theorem turned_perm (k : Nat) : (turned k).Perm (rowsOf versions) := by
  unfold turned
  split
  · exact .refl _
  · exact reverse_perm _

end Sample

end AgentNameService.Finder
