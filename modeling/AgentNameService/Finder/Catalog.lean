/-
Purpose: The tables of the discovery catalog with their constraints, how a page of projected entries is applied to them,
  and what search and explore return of them.
Source: internal/adapter/store/sqlitefinder/{apply,search,explore,filter,ftsquery,cursor}.go and its migrations,
  internal/finder/index/index.go
Trusted boundary: human-reviewed model; what a full-text query matches and how it ranks is a parameter, ranks are exact
  numbers, and the text of an entry is the entry
-/
import AgentNameService.Finder.Project
import Mathlib.Data.Rat.Floor

namespace AgentNameService.Finder

open List OrderDual Registration

/-! ### Tables -/

/-- The columns of `finder_entries` besides the row id; the entry is kept as it goes on the wire. -/
structure Listing where
  ansName : String
  type : String
  url : String
  identifier : String
  publisher : String
  agentID : String
  logID : String
  displayName : String
  description : String
  version : String
  updatedAt : String
  lifecycle : Lifecycle
  createdAt : String
  expiresAt : String
  entry : Entry
deriving DecidableEq, Repr

/-- `UNIQUE (ans_name, type, url)`. -/
def Listing.key (l : Listing) : String × String × String := (l.ansName, l.type, l.url)

structure Row where
  id : Nat
  listing : Listing
deriving DecidableEq, Repr

/-- A row of one of the side tables. -/
structure SideRow where
  entryRowid : Nat
  value : String
deriving DecidableEq, Repr

/-- A row of the full-text table. -/
structure FTSRow where
  rowid : Nat
  displayName : String
  description : String
  capabilitiesText : String
  tagsText : String
  publisher : String
deriving DecidableEq, Repr

structure Cursor where
  lastLogID : String
  lastPollOK : Int
deriving DecidableEq, Repr

structure Store where
  entries : List Row
  tags : List SideRow
  capabilities : List SideRow
  attestationTypes : List SideRow
  fts : List FTSRow
  cursor : Cursor
  id_unique : (entries.map Row.id).Nodup
  key_unique : (entries.map fun r => r.listing.key).Nodup

namespace Store

/-- A new catalog. -/
def empty : Store where
  entries := []
  tags := []
  capabilities := []
  attestationTypes := []
  fts := []
  cursor := ⟨"", 0⟩
  id_unique := nodup_nil
  key_unique := nodup_nil

end Store

/-! ### Groups of entries -/

/-- The entries of one event; what they share is read off the first one. -/
structure EventGroup where
  first : ProjectedEntry
  rest : List ProjectedEntry
deriving DecidableEq, Repr

namespace EventGroup

variable (g : EventGroup)

def ansName : String := g.first.ansName

def lifecycle : Lifecycle := g.first.lifecycle

def createdAt : String := g.first.createdAt

def entries : List ProjectedEntry := g.first :: g.rest

end EventGroup

/-- What entries are grouped by. -/
def groupKey (pe : ProjectedEntry) : String := pe.ansName ++ "\x00" ++ pe.logID ++ "\x00" ++ pe.lifecycle.text

/-- Put an entry to the group of its event. -/
def addToGroups (groups : List EventGroup) (pe : ProjectedEntry) : List EventGroup :=
  if groups.any fun g => groupKey g.first = groupKey pe then
    groups.map fun g => if groupKey g.first = groupKey pe then { g with rest := g.rest ++ [pe] } else g
  else groups ++ [⟨pe, []⟩]

def groupByEvent (entries : List ProjectedEntry) : List EventGroup := entries.foldl addToGroups []

/-- What tells the entries of an event apart. -/
def ProjectedEntry.place (pe : ProjectedEntry) : String × String := (pe.entry.type, pe.entry.url)

/-- The last entry with a type and a URL wins, in the place of the first. -/
def putByTypeURL (out : List ProjectedEntry) (pe : ProjectedEntry) : List ProjectedEntry :=
  if out.any fun old => old.place = pe.place then out.map fun old => if old.place = pe.place then pe else old
  else out ++ [pe]

def dedupByTypeURL (entries : List ProjectedEntry) : List ProjectedEntry := entries.foldl putByTypeURL []

/-! ### Rows -/

/-- The publisher in a URN of the Finder. -/
def publisherFromURN (urn : String) : String :=
  match isPrefixOf? "urn:air:".toList urn.toList with
  | none => ""
  | some rest => if ':' ∈ rest then String.ofList (rest.takeWhile (· ≠ ':')) else ""

def attestationTypesOf (e : Entry) : List String :=
  match e.trustManifest with
  | none => []
  | some manifest => (manifest.attestations.map Attestation.type).filter (· ≠ "")

/-- The row of an active entry. -/
def Listing.ofEntry (pe : ProjectedEntry) : Listing where
  ansName := pe.ansName
  type := pe.entry.type
  url := pe.entry.url
  identifier := pe.entry.identifier
  publisher := publisherFromURN pe.entry.identifier
  agentID := pe.agentID
  logID := pe.logID
  displayName := pe.entry.displayName
  description := pe.entry.description
  version := pe.entry.version
  updatedAt := pe.entry.updatedAt
  lifecycle := .active
  createdAt := pe.createdAt
  expiresAt := pe.expiresAt
  entry := pe.entry

/-- A row that a tombstone suppresses. -/
def Listing.suppress (pe : ProjectedEntry) (l : Listing) : Listing :=
  { l with lifecycle := pe.lifecycle, logID := pe.logID, createdAt := pe.createdAt, displayName := "", description := "" }

/-- The rows a tombstone suppresses: active, and no newer. -/
def Listing.suppressible (pe : ProjectedEntry) (l : Listing) : Bool :=
  l.ansName = pe.ansName ∧ l.lifecycle = .active ∧ l.createdAt ≤ pe.createdAt

/-! ### Applying a page -/

namespace Store

/-- Remove what the side tables and the full-text table have of rows. -/
def clearSideAndFTS (s : Store) (rowids : List Nat) : Store :=
  { s with
    tags := s.tags.filter (·.entryRowid ∉ rowids)
    capabilities := s.capabilities.filter (·.entryRowid ∉ rowids)
    attestationTypes := s.attestationTypes.filter (·.entryRowid ∉ rowids)
    fts := s.fts.filter (·.rowid ∉ rowids) }

def rowidsForAnsName (s : Store) (ansName : String) : List Nat :=
  (s.entries.filter (·.listing.ansName = ansName)).map Row.id

def deleteAllForAnsName (s : Store) (ansName : String) : Store :=
  let cleared := s.clearSideAndFTS (s.rowidsForAnsName ansName)
  { cleared with
    entries := s.entries.filter (·.listing.ansName ≠ ansName)
    id_unique := s.id_unique.sublist (filter_sublist.map _)
    key_unique := s.key_unique.sublist (filter_sublist.map _) }

/-- The row id that is given next. -/
def nextRowid (s : Store) : Nat := ((s.entries.map Row.id).max?).getD 0 + 1

theorem nextRowid_fresh (s : Store) : s.nextRowid ∉ s.entries.map Row.id := by
  intro hmem
  unfold nextRowid at hmem
  cases hmax : (s.entries.map Row.id).max? with
  | none =>
    rw [max?_eq_none_iff] at hmax
    rw [hmax] at hmem
    cases hmem
  | some m =>
    rw [hmax] at hmem
    have hle := (max?_eq_some_iff.mp hmax).2 _ hmem
    exact absurd hle (Nat.not_succ_le_self m)

/-- A column stays free of repetition when a row with a new value comes in. -/
theorem nodup_map_append {β : Type} {column : Row → β} {rows : List Row} {r : Row} (h : (rows.map column).Nodup)
    (hnew : column r ∉ rows.map column) : ((rows ++ [r]).map column).Nodup := by
  rw [map_append, nodup_append]
  refine ⟨h, nodup_singleton _, ?_⟩
  intro a ha b hb heq
  rw [heq, mem_singleton.mp hb] at ha
  exact hnew ha

def insertActiveRow (s : Store) (pe : ProjectedEntry) : Except String Store :=
  let listing := Listing.ofEntry pe
  if hkey : listing.key ∈ s.entries.map fun r => r.listing.key then
    .error ("sqlitefinder: insert entry: constraint failed: UNIQUE constraint failed: finder_entries.ans_name, " ++
      "finder_entries.type, finder_entries.url (2067)")
  else
    let rowid := s.nextRowid
    .ok {
      entries := s.entries ++ [⟨rowid, listing⟩]
      tags := s.tags ++ pe.entry.tags.map (⟨rowid, ·⟩)
      capabilities := s.capabilities ++ pe.entry.capabilities.map (⟨rowid, ·⟩)
      attestationTypes := s.attestationTypes ++ (attestationTypesOf pe.entry).map (⟨rowid, ·⟩)
      fts := s.fts ++ [⟨rowid, pe.entry.displayName, pe.entry.description, String.intercalate " " pe.entry.capabilities,
        String.intercalate " " pe.entry.tags, listing.publisher⟩]
      cursor := s.cursor
      id_unique := nodup_map_append s.id_unique s.nextRowid_fresh
      key_unique := nodup_map_append s.key_unique hkey }

/-- A tombstone that is no older covers the name. -/
def tombstonedAtOrAfter (s : Store) (ansName createdAt : String) : Bool :=
  s.entries.any fun r =>
    r.listing.ansName = ansName ∧ r.listing.lifecycle ≠ .active ∧ createdAt ≤ r.listing.createdAt

def replaceActiveSet (s : Store) (grp : EventGroup) : Except String Store :=
  if s.tombstonedAtOrAfter grp.ansName grp.createdAt then .ok s
  else (dedupByTypeURL grp.entries).foldlM insertActiveRow (s.deleteAllForAnsName grp.ansName)

theorem map_suppress_id (rows : List Row) (pe : ProjectedEntry) :
    (rows.map fun r => if r.listing.suppressible pe then (⟨r.id, r.listing.suppress pe⟩ : Row) else r).map Row.id =
      rows.map Row.id := by
  rw [map_map]
  apply map_congr_left
  intro r _
  simp only [Function.comp_apply]
  split <;> rfl

theorem map_suppress_key (rows : List Row) (pe : ProjectedEntry) :
    (rows.map fun r => if r.listing.suppressible pe then (⟨r.id, r.listing.suppress pe⟩ : Row) else r).map
      (fun r => r.listing.key) = rows.map fun r => r.listing.key := by
  rw [map_map]
  apply map_congr_left
  intro r _
  simp only [Function.comp_apply]
  split <;> rfl

def hasActiveRows (s : Store) (ansName : String) : Bool :=
  s.entries.any fun r => r.listing.ansName = ansName ∧ r.listing.lifecycle = .active

/-- Suppress rows; the flag says that there was none to suppress although the agent is still active. -/
def applyTombstone (s : Store) (pe : ProjectedEntry) : Bool × Store :=
  let rowids := (s.entries.filter (·.listing.suppressible pe)).map Row.id
  let cleared := s.clearSideAndFTS rowids
  let t : Store :=
    { cleared with
      entries := s.entries.map fun r => if r.listing.suppressible pe then ⟨r.id, r.listing.suppress pe⟩ else r
      id_unique := by
        rw [map_suppress_id]
        exact s.id_unique
      key_unique := by
        rw [map_suppress_key]
        exact s.key_unique }
  (rowids = [] ∧ t.hasActiveRows pe.ansName, t)

/-- A revocation that suppressed nothing. -/
structure TombstoneNoOp where
  ansName : String
  logID : String
  createdAt : String
deriving DecidableEq, Repr

/-- What applying a group adds to the report, and the catalog after it. -/
def applyGroup (s : Store) (grp : EventGroup) : Except String (List TombstoneNoOp × Store) :=
  match grp.lifecycle with
  | .active => do
      let t ← s.replaceActiveSet grp
      return ([], t)
  | .revoked | .deprecated =>
    let pe := grp.first
    let (noOp, t) := s.applyTombstone pe
    .ok (if noOp then [⟨pe.ansName, pe.logID, pe.createdAt⟩] else [], t)

/-- The groups of a page, one after the other. -/
def applyGroups (s : Store) : List EventGroup → Except String (List TombstoneNoOp × Store)
  | [] => .ok ([], s)
  | grp :: rest => do
      let (noOps, t) ← s.applyGroup grp
      let (more, u) ← t.applyGroups rest
      return (noOps ++ more, u)

/-- `Apply`: the whole page in one transaction. -/
def apply (s : Store) (entries : List ProjectedEntry) : Except String (List TombstoneNoOp × Store) :=
  s.applyGroups (groupByEvent entries)

def saveCursor (s : Store) (cursor : Cursor) : Store := { s with cursor }

end Store

/-! ### Search -/

/-- What the full-text engine and the clock do. -/
structure Engine where
  isMatch : String → FTSRow → Bool
  rank : String → FTSRow → Rat
  rfc3339 : Int → String

inductive Field where
  | type
  | tags
  | capabilities
  | publisher
  | attestationType
deriving DecidableEq, Repr

/-- The fields that can be filtered by. -/
def fieldOf (path : String) : Option Field :=
  if path = "type" then some .type
  else if path = "tags" then some .tags
  else if path = "capabilities" then some .capabilities
  else if path = "publisher" then some .publisher
  else if path = "trustManifest.attestations.type" then some .attestationType
  else none

abbrev Filter := List (String × List String)

/-- Every word as a quoted string, so that none is read as an operator. -/
def buildMatchQuery (text : String) : String :=
  String.intercalate " " ((fields text).map fun word => "\"" ++ word.replace "\"" "\"\"" ++ "\"")

namespace Store

variable (E : Engine) (s : Store)

/-- The values of a row in a field. -/
def valuesOf (r : Row) : Field → List String
  | .type => [r.listing.type]
  | .publisher => [r.listing.publisher]
  | .tags => (s.tags.filter (·.entryRowid = r.id)).map SideRow.value
  | .capabilities => (s.capabilities.filter (·.entryRowid = r.id)).map SideRow.value
  | .attestationType => (s.attestationTypes.filter (·.entryRowid = r.id)).map SideRow.value

/-- One clause of a filter; no values, no constraint. -/
def passesClause (clause : Field × List String) (r : Row) : Bool :=
  clause.2 = [] ∨ (s.valuesOf r clause.1).any (· ∈ clause.2)

/-- The clauses of a filter, or the first field that there is none for. -/
def buildFilterClauses (filter : Filter) : Except String (List (Field × List String)) :=
  (filter.insertionSort fun a b => a.1 ≤ b.1).mapM fun (path, values) =>
    match fieldOf path with
    | some field => .ok (field, values)
    | none => .error ("sqlitefinder: unsupported filter field " ++ quoted path)

/-- Active and not expired. -/
def isServed (now : Int) (r : Row) : Bool :=
  r.listing.lifecycle = .active ∧ (r.listing.expiresAt = "" ∨ E.rfc3339 now < r.listing.expiresAt)

structure MatchedRow where
  row : Row
  rank : Rat
deriving DecidableEq

/-- The candidates of a search: joined with the full-text table where there is a text. -/
def matchedRows (text : String) (filter : Filter) (now : Int) : Except String (List MatchedRow) := do
  let clauses ← buildFilterClauses filter
  let rows := s.entries.filter fun r => isServed E now r && clauses.all fun clause => s.passesClause clause r
  let query := buildMatchQuery text
  if query = "" then return rows.map (⟨·, 0⟩)
  else return rows.flatMap fun r =>
    (s.fts.filter fun f => f.rowid = r.id && E.isMatch query f).map fun f => ⟨r, E.rank query f⟩

structure ScoredRow where
  row : Row
  score : Int
deriving DecidableEq

/-- By score, then by identifier, type and URL. -/
def sortScored (rows : List ScoredRow) : List ScoredRow :=
  rows.insertionSort fun a b =>
    toLex (toDual a.score, toLex (a.row.listing.identifier, toLex (a.row.listing.type, a.row.listing.url))) ≤
      toLex (toDual b.score, toLex (b.row.listing.identifier, toLex (b.row.listing.type, b.row.listing.url)))

/-- The best rank scores a hundred, the worst nothing; without a text all score a hundred. -/
def scoreAndSort (rows : List MatchedRow) (hasText : Bool) : List ScoredRow :=
  let ranks := rows.map MatchedRow.rank
  let best := ranks.min?.getD 0
  let worst := ranks.max?.getD 0
  sortScored (rows.map fun r =>
    ⟨r.row, if hasText ∧ 0 < worst - best then ((worst - r.rank) / (worst - best) * 100).floor else 100⟩)

structure SearchQuery where
  text : String
  filter : Filter
  limit : Int
  offset : Int

structure ScoredEntry where
  entry : Entry
  score : Int
deriving DecidableEq

structure SearchResults where
  results : List ScoredEntry
  nextOffset : Nat
  hasMore : Bool
deriving DecidableEq

def search (q : SearchQuery) (now : Int) : Except String SearchResults := do
  let rows ← s.matchedRows E q.text q.filter now
  let scored := scoreAndSort rows (q.text ≠ "")
  let total := scored.length
  let start := min q.offset.toNat total
  let stop := if q.limit ≤ 0 ∨ total < start + q.limit then total else start + q.limit.toNat
  return {
    results := ((scored.take stop).drop start).map fun r => ⟨r.row.listing.entry, r.score⟩
    nextOffset := stop
    hasMore := stop < total }

/-! ### Explore -/

/-- The rows that facets are counted over. -/
def matchedSet (text : String) (filter : Filter) (now : Int) : Except String (List Row) := do
  let clauses ← buildFilterClauses filter
  let query := buildMatchQuery text
  return s.entries.filter fun r => isServed E now r &&
    (query = "" || s.fts.any fun f => f.rowid = r.id && E.isMatch query f) &&
    clauses.all fun clause => s.passesClause clause r

structure FacetSpec where
  field : String
  limit : Int
  minCount : Int

structure Bucket where
  value : String
  count : Nat
deriving DecidableEq

structure Facet where
  buckets : List Bucket
  otherCount : Nat
deriving DecidableEq

/-- How many rows have each value. -/
def bucketsOf (field : Field) (rows : List Row) : List Bucket :=
  (rows.flatMap fun r => s.valuesOf r field).dedup.map fun value => ⟨value, rows.countP fun r => value ∈ s.valuesOf r field⟩

def assembleFacet (raw : List Bucket) (spec : FacetSpec) : Facet :=
  let kept := (raw.filter fun b => spec.minCount ≤ b.count).insertionSort fun a b =>
    toLex (toDual a.count, a.value) ≤ toLex (toDual b.count, b.value)
  let limit := if spec.limit ≤ 0 then kept.length else spec.limit.toNat
  ⟨kept.take limit, ((kept.drop limit).map Bucket.count).sum⟩

def facetFor (spec : FacetSpec) (text : String) (filter : Filter) (now : Int) : Except String Facet := do
  let rows ← s.matchedSet E text filter now
  match fieldOf spec.field with
  | none => .error ("sqlitefinder: unsupported facet field " ++ quoted spec.field)
  | some field => return assembleFacet (s.bucketsOf field rows) spec

/-- A facet for each field that is asked for. -/
def explore (text : String) (filter : Filter) (specs : List FacetSpec) (now : Int) :
    Except String (List (String × Facet)) :=
  specs.mapM fun spec => do
    let facet ← s.facetFor E spec text filter now
    return (spec.field, facet)

end Store

end AgentNameService.Finder
