/-
Purpose: The searchable mirror of the log: its two tables with their constraints, the transaction that mirrors a leaf,
  and the queries over the rows.
Source: internal/adapter/store/sqlitetl/{events,sqlite}.go, internal/adapter/store/sqlitetl/migrations
Trusted boundary: human-reviewed model; json_valid accepts a document that is nested at most 1000 deep; creation times and
  surrogate keys are left out
-/
import AgentNameService.TransparencyLog.Envelope
import Mathlib.Data.List.MinMax
import Mathlib.Data.Prod.Lex
import Mathlib.Order.OrderDual

namespace AgentNameService.TransparencyLog

open List OrderDual Registration

/-! ### Rows -/

/-- A row of `tl_events`. -/
structure EventRecord (P : Primitives) where
  leafIndex : Nat
  leafHash : P.Digest
  eventHash : P.Digest
  logID : String
  agentID : String
  ansName : String
  agentFQDN : String
  eventType : EventType
  schemaVersion : String
  rawEvent : Json
  identityID : Option String
deriving DecidableEq

/-- A row of `tl_identity_event_agents`. -/
structure LinkRow where
  leafIndex : Nat
  identityID : String
  ansID : String
  eventType : EventType
deriving DecidableEq

/-- `CHECK (json_valid(raw_event))`. -/
def jsonValid (raw : Json) : Prop := raw.depth ≤ 1000

instance (raw : Json) : Decidable (jsonValid raw) := inferInstanceAs (Decidable (_ ≤ _))

/-- The two tables, with the constraints of their schema. -/
structure EventStore (P : Primitives) where
  events : List (EventRecord P)
  links : List LinkRow
  leafIndex_unique : (events.map EventRecord.leafIndex).Nodup
  raw_valid : ∀ r ∈ events, jsonValid r.rawEvent
  link_unique : (links.map fun l => (l.leafIndex, l.ansID)).Nodup

/-! ### Mirroring a leaf -/

section Rows

variable {P : Primitives}

/-- The row of an envelope; an empty identity id is stored as null. -/
def recordOf (leafIndex : Nat) (leafHash eventHash : P.Digest) (env : Signable) (raw : Json) : EventRecord P where
  leafIndex := leafIndex
  leafHash := leafHash
  eventHash := eventHash
  logID := env.logID
  agentID := env.agentID
  ansName := env.ansName
  agentFQDN := env.agentFQDN
  eventType := env.eventType
  schemaVersion := env.version
  rawEvent := raw
  identityID := (env.identity?.map Prod.fst).filter (· ≠ "")

/-- The rows of the agents an envelope links. -/
def linkRows (leafIndex : Nat) (env : Signable) : List LinkRow :=
  match env.identity? with
  | none => []
  | some (identityID, linkedAgents) =>
    if identityID = "" then [] else linkedAgents.map fun ansID => ⟨leafIndex, identityID, ansID, env.eventType⟩

end Rows

namespace EventStore

variable {P : Primitives}
variable {r : EventRecord P}

def empty : EventStore P where
  events := []
  links := []
  leafIndex_unique := nodup_nil
  raw_valid := by simp
  link_unique := nodup_nil

theorem leafIndex_unique_append (s : EventStore P)
    (h : r.leafIndex ∉ s.events.map EventRecord.leafIndex) : ((s.events ++ [r]).map EventRecord.leafIndex).Nodup := by
  rw [map_append, nodup_append]
  refine ⟨s.leafIndex_unique, nodup_singleton _, ?_⟩
  intro i hi j hj heq
  obtain rfl := mem_singleton.mp hj
  rw [heq] at hi
  exact h hi

theorem raw_valid_append (s : EventStore P) (h : jsonValid r.rawEvent) :
    ∀ x ∈ s.events ++ [r], jsonValid x.rawEvent := by
  intro x hx
  rcases mem_append.mp hx with hold | hnew
  · exact s.raw_valid x hold
  · rw [mem_singleton.mp hnew]
    exact h

/-- The transaction of `StoreEvent`. -/
def storeEvent (s : EventStore P) (leafIndex : Nat) (leafHash eventHash : P.Digest) (env : Signable) (raw : Json) :
    Except Error (EventStore P) :=
  if hraw : jsonValid raw then
    if hindex : leafIndex ∈ s.events.map EventRecord.leafIndex then
      .error (.plain "constraint failed: UNIQUE constraint failed: tl_events.leaf_index (2067)")
    else if hlinks : ((s.links ++ linkRows leafIndex env).map fun l => (l.leafIndex, l.ansID)).Nodup then
      .ok {
        events := s.events ++ [recordOf leafIndex leafHash eventHash env raw]
        links := s.links ++ linkRows leafIndex env
        leafIndex_unique := s.leafIndex_unique_append hindex
        raw_valid := s.raw_valid_append hraw
        link_unique := hlinks }
    else .error (.plain ("constraint failed: UNIQUE constraint failed: tl_identity_event_agents.leaf_index, " ++
      "tl_identity_event_agents.ans_id (2067)"))
  else .error (.plain "constraint failed: CHECK constraint failed: json_valid(raw_event) (275)")

theorem storeEvent_eq_ok_iff {s t : EventStore P} {leafIndex : Nat} {leafHash eventHash : P.Digest} {env : Signable}
    {raw : Json} : s.storeEvent leafIndex leafHash eventHash env raw = .ok t ↔
      jsonValid raw ∧ leafIndex ∉ s.events.map EventRecord.leafIndex ∧
        ((s.links ++ linkRows leafIndex env).map fun l => (l.leafIndex, l.ansID)).Nodup ∧
        t.events = s.events ++ [recordOf leafIndex leafHash eventHash env raw] ∧
        t.links = s.links ++ linkRows leafIndex env := by
  unfold storeEvent
  split
  · split
    · simp_all
    · split
      · constructor
        · intro h
          cases h
          exact ⟨‹_›, ‹_›, ‹_›, rfl, rfl⟩
        · rintro ⟨_, _, _, hevents, hlinks⟩
          cases t
          cases hevents
          cases hlinks
          rfl
      · simp_all
  · simp_all

/-! ### Queries -/

/-- `sql.ErrNoRows`, mapped. -/
def noRows : Error := .notFound "TL_NOT_FOUND" "sql: no rows in result set"

/-- The one row that was asked for. -/
def found (row : Option (EventRecord P)) : Except Error (EventRecord P) :=
  match row with
  | none => .error noRows
  | some r => .ok r

theorem found_eq_ok_iff {row : Option (EventRecord P)} : found row = .ok r ↔ row = some r := by
  cases row <;> simp [found]

variable (s : EventStore P)

def leafIndexes : List Nat := s.events.map EventRecord.leafIndex

/-- The start of the first gap. -/
def firstUnindexedLeaf : Nat :=
  if 0 ∈ s.leafIndexes then (((s.leafIndexes.map (· + 1)).filter (· ∉ s.leafIndexes)).min?).getD 0 else 0

/-- The tree size that covers every row. -/
def indexedSize : Nat := (s.leafIndexes.max?.map (· + 1)).getD 0

def getEventByLeafIndex (index : Nat) : Option (EventRecord P) := s.events.find? (·.leafIndex = index)

/-- The earliest leaf with a content hash. -/
def existsByEventHash (eventHash : P.Digest) : Option Nat :=
  ((s.events.filter (·.eventHash = eventHash)).argmin EventRecord.leafIndex).map EventRecord.leafIndex

/-- An earlier row has the same content and the same agent. -/
def isLaterDuplicate (current : EventRecord P) : Bool :=
  s.events.any fun first =>
    first.eventHash = current.eventHash ∧ first.agentID = current.agentID ∧ first.leafIndex < current.leafIndex

/-- Revocation and deprecation dominate. -/
def eventRank : EventType → Nat
  | .agentRevoked => 0
  | .agentDeprecated => 1
  | _ => 2

/-- The row that the lifecycle of a versioned name or of an agent is judged by: a row where only one of the two
matches comes first. -/
def latestAgentState (ansName agentID : String) : Option (EventRecord P) :=
  (s.events.filter fun current => current.identityID = none ∧
      (current.ansName = ansName ∨ current.agentID = agentID) ∧ s.isLaterDuplicate current = false).argmin
    fun r => toLex (if r.ansName ≠ ansName ∨ r.agentID ≠ agentID then 0 else 1,
      toLex (eventRank r.eventType, toDual r.leafIndex))

/-- The current event of an agent, among the leaves below a bound if there is one. -/
def getLatestByAgentID (agentID : String) (maxLeafIndex : Nat) : Option (EventRecord P) :=
  (s.events.filter fun current => current.identityID = none ∧ current.agentID = agentID ∧
      (0 < maxLeafIndex → current.leafIndex < maxLeafIndex) ∧ s.isLaterDuplicate current = false).argmin
    fun r => toLex (eventRank r.eventType, toDual r.leafIndex)

def getLatestByIdentityID (identityID : String) : Option (EventRecord P) :=
  (s.events.filter (·.identityID = some identityID)).argmax EventRecord.leafIndex

def getLatestProofByIdentityID (identityID : String) : Option (EventRecord P) :=
  (s.events.filter fun r => r.identityID = some identityID ∧ r.eventType.isProof = true).argmax EventRecord.leafIndex

def hasIdentityRevoked (identityID : String) : Bool :=
  s.events.any fun r => r.identityID = some identityID ∧ r.eventType = .identityRevoked

/-- `ORDER BY leaf_index DESC`. -/
def newestFirst (rows : List LinkRow) : List LinkRow := rows.insertionSort fun a b => b.leafIndex ≤ a.leafIndex

/-- The latest link or unlink of each identity that ever named an agent. -/
def linkStatesByAgent (ansID : String) : List LinkRow :=
  newestFirst (s.links.filter fun a => a.ansID = ansID ∧
    s.links.all fun b => b.ansID = ansID ∧ b.identityID = a.identityID → b.leafIndex ≤ a.leafIndex)

/-- The latest link or unlink of each agent an identity ever named. -/
def linkStatesByIdentity (identityID : String) : List LinkRow :=
  newestFirst (s.links.filter fun a => a.identityID = identityID ∧
    s.links.all fun b => b.identityID = identityID ∧ b.ansID = a.ansID → b.leafIndex ≤ a.leafIndex)

end EventStore

end AgentNameService.TransparencyLog
