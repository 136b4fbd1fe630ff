/-
Purpose: The public feed of delivered events: the query over the outbox, with its cursor and its retention
  window, and the page the service builds from the rows.  A page shows the log ids of the rows it was built
  from, in their order, so what a follower of the feed gets is decided by the query alone.
Source: internal/adapter/store/sqlite/feed.go, internal/ra/service/feed.go, internal/port/store.go
Trusted boundary: human-reviewed model; decoding the event inside a payload is a parameter, and endpoints are
  passed on as stored
-/
import AgentNameService.Registration.Naming
import AgentNameService.Registration.Store

namespace AgentNameService.Registration

open Except List

/-! ### The query -/

/-- A delivered row of the outbox, joined with the registration and the endpoints of its agent. -/
structure FeedRow where
  logID : String
  eventType : EventType
  agentID : String
  payload : OutboxPayload
  regAnsName : String
  regAgentHost : String
  regVersion : String
  regDisplayName : String
  regDescription : String
  endpoints : List String
deriving DecidableEq, Repr

structure FeedQuery where
  afterLogID : String
  limit : Int
  providerFilter : String
deriving DecidableEq, Repr

def feedDefaultLimit : Nat := 100

/-- The oldest enqueue time that is still served; without a retention there is none. -/
def retentionFloorMs (retention : Int) (now : Time) : Int := if retention ≤ 0 then 0 else now - retention

/-- Delivered, logged and inside the retention window. -/
def isServed (floor : Int) (_ : Nat) (row : OutboxRow) : Bool :=
  row.sentAt.isSome && row.logID.isSome && decide (floor ≤ row.createdAt)

/-- `resolveCursor`: the lowest retained row under the log id; a cursor without one starts over. -/
def resolveCursor (t : Table OutboxRow) (lastLogID : String) (floor : Int) : Nat :=
  if lastLogID = "" then 0
  else
    match t.first fun _ row =>
        row.logID == some lastLogID && row.sentAt.isSome && decide (floor ≤ row.createdAt) with
    | some row => row.1
    | none => 0

/-- The columns of the query, with the outer joins. -/
def feedRow (s : Store) (row : OutboxRow) : FeedRow :=
  let reg := (s.agents.first fun _ reg => reg.agentID == row.agentID).map (·.2)
  let endpoints := (s.endpoints.first fun _ e => e.agentID == row.agentID).map (·.2.endpoints)
  { logID := row.logID.getD "", eventType := row.eventType, agentID := row.agentID, payload := row.payload
    regAnsName := (reg.map (·.ansName.text)).getD ""
    regAgentHost := (reg.map (·.ansName.agentHost)).getD ""
    regVersion := (reg.map (·.ansName.version.text)).getD ""
    regDisplayName := (reg.map (·.displayName)).getD ""
    regDescription := (reg.map (·.description)).getD ""
    endpoints := endpoints.getD [] }

/-- `ReadFeed`. -/
def readFeed (retention : Int) (now : Time) (s : Store) (q : FeedQuery) : List FeedRow :=
  if q.providerFilter ≠ "" then []
  else
    let limit := if q.limit ≤ 0 then feedDefaultLimit else q.limit.toNat
    let floor := retentionFloorMs retention now
    let afterID := resolveCursor s.outbox q.afterLogID floor
    (s.outbox.page (isServed floor) afterID limit).map fun row => feedRow s row.2

/-! ### The page -/

structure InnerAgent where
  host : String
  version : String
deriving DecidableEq, Repr

/-- What the feed reads of the event inside a payload. -/
structure InnerEvent where
  ansName : String
  expiresAt : String
  timestamp : String
  agent : Option InnerAgent
deriving DecidableEq, Repr

/-- An event on the wire; the provider is never filled in. -/
structure FeedEventItem where
  logID : String
  eventType : EventType
  createdAt : String
  expiresAt : String
  agentID : String
  ansName : String
  agentHost : String
  agentDisplayName : String
  agentDescription : String
  version : String
  providerID : String := ""
  endpoints : List String
deriving DecidableEq, Repr

structure EventPage where
  items : List FeedEventItem
  lastLogID : String
deriving DecidableEq, Repr

structure EventsInput where
  lastLogID : String
  limit : Int
  providerID : String
deriving DecidableEq, Repr

/-- The feed as configured: its retention in milliseconds, and the decoder of payloads. -/
structure Feed where
  retention : Int
  decode : OutboxPayload → Except String InnerEvent

/-- `firstNonEmpty` of two texts. -/
def firstNonEmpty (first second : String) : String :=
  if first.toList.all isSpace then (if second.toList.all isSpace then "" else second) else first

/-- `buildFeedItem`. -/
def buildFeedItem (feed : Feed) (row : FeedRow) : Except String FeedEventItem := do
  let inner ← (feed.decode row.payload).withContext "unmarshal outbox payload"
  return {
    logID := row.logID
    eventType := row.eventType
    createdAt := inner.timestamp
    expiresAt := inner.expiresAt
    agentID := row.agentID
    ansName := firstNonEmpty inner.ansName row.regAnsName
    agentHost := (inner.agent.map fun agent => firstNonEmpty agent.host row.regAgentHost).getD row.regAgentHost
    agentDisplayName := row.regDisplayName
    agentDescription := row.regDescription
    version := (inner.agent.map fun agent => firstNonEmpty agent.version row.regVersion).getD row.regVersion
    endpoints := row.endpoints }

/-- The loop of `ListEvents` over the rows; the first one that cannot be projected fails the page. -/
def buildFeedItems (feed : Feed) : List FeedRow → Except String (List FeedEventItem)
  | [] => .ok []
  | row :: rest => do
      let item ← (buildFeedItem feed row).withContext ("feed: project row logId=" ++ quoted row.logID)
      let items ← buildFeedItems feed rest
      return item :: items

def eventsFeedDefaultLimit : Int := 100

def eventsFeedMaxLimit : Int := 200

/-- The page size `ListEvents` asks the store for. -/
def eventsFeedLimit (requested : Int) : Int :=
  let limit := if requested ≤ 0 then eventsFeedDefaultLimit else requested
  if limit > eventsFeedMaxLimit then eventsFeedMaxLimit else limit

/-- `ListEvents`. -/
def listEvents (feed : Feed) (now : Time) (s : Store) (input : EventsInput) : Except String EventPage := do
  let rows := readFeed feed.retention now s
    { afterLogID := input.lastLogID, limit := eventsFeedLimit input.limit, providerFilter := input.providerID }
  let items ← buildFeedItems feed rows
  return { items, lastLogID := (items.getLast?.map (·.logID)).getD "" }

/-! ### What a page shows -/

variable {feed : Feed} {t : Table OutboxRow} {s : Store} {floor : Int} {now : Time}

theorem buildFeedItem_logID {row : FeedRow} {item : FeedEventItem} (h : buildFeedItem feed row = .ok item) :
    item.logID = row.logID := by
  obtain ⟨inner, _, hitem⟩ := bind_eq_ok_iff.mp h
  rw [← pure_eq_ok_iff.mp hitem]

theorem buildFeedItems_logIDs {rows : List FeedRow} {items : List FeedEventItem}
    (h : buildFeedItems feed rows = .ok items) : items.map (·.logID) = rows.map (·.logID) := by
  induction rows generalizing items with
  | nil =>
    cases h
    rfl
  | cons row rest ih =>
    simp only [buildFeedItems, bind_eq_ok_iff, withContext_eq_ok_iff, pure_eq_ok_iff] at h
    obtain ⟨item, hitem, others, hothers, rfl⟩ := h
    rw [map_cons, map_cons, buildFeedItem_logID hitem, ih hothers]

theorem buildFeedItem_succeeds_iff {row : FeedRow} :
    (∃ item, buildFeedItem feed row = .ok item) ↔ ∃ inner, feed.decode row.payload = .ok inner := by
  simp only [buildFeedItem, bind_eq_ok_iff, withContext_eq_ok_iff, pure_eq_ok_iff]
  constructor
  · rintro ⟨_, inner, hinner, _⟩
    exact ⟨inner, hinner⟩
  · rintro ⟨inner, hinner⟩
    exact ⟨_, inner, hinner, rfl⟩

/-- Where the payloads of the rows decode, the page can be built. -/
theorem buildFeedItems_succeeds {rows : List FeedRow}
    (hdecode : ∀ row ∈ rows, ∃ inner, feed.decode row.payload = .ok inner) : ∃ items, buildFeedItems feed rows = .ok items := by
  induction rows with
  | nil => exact ⟨[], rfl⟩
  | cons row rest ih =>
    obtain ⟨items, hitems⟩ := ih fun other hother => hdecode other (mem_cons_of_mem _ hother)
    obtain ⟨item, hitem⟩ := buildFeedItem_succeeds_iff.mpr (hdecode row mem_cons_self)
    simp only [buildFeedItems, bind_eq_ok_iff, withContext_eq_ok_iff, pure_eq_ok_iff]
    exact ⟨_, item, hitem, items, hitems, rfl⟩

/-- Where every payload decodes, every call gets a page. -/
theorem listEvents_succeeds (hdecode : ∀ payload, ∃ inner, feed.decode payload = .ok inner)
    (input : EventsInput) : ∃ page, listEvents feed now s input = .ok page := by
  obtain ⟨items, hitems⟩ : ∃ items, buildFeedItems feed (readFeed feed.retention now s
      { afterLogID := input.lastLogID, limit := eventsFeedLimit input.limit, providerFilter := input.providerID }) = .ok items :=
    buildFeedItems_succeeds fun row _ => hdecode row.payload
  exact ⟨_, bind_eq_ok_iff.mpr ⟨items, hitems, rfl⟩⟩

theorem eventsFeedLimit_pos (requested : Int) : 0 < eventsFeedLimit requested := by
  simp only [eventsFeedLimit, eventsFeedDefaultLimit, eventsFeedMaxLimit]
  split <;> split <;> omega

/-- The rows of the outbox that a page without a provider is built from. -/
def servedRows (feed : Feed) (now : Time) (t : Table OutboxRow) (cursor : String) (limit : Int) :
    List (Nat × OutboxRow) :=
  let floor := retentionFloorMs feed.retention now
  t.page (isServed floor) (resolveCursor t cursor floor) (eventsFeedLimit limit).toNat

/-- A page shows the log ids of those rows, and the last of them is the next cursor. -/
theorem listEvents_logIDs {cursor : String} {limit : Int} {page : EventPage}
    (h : listEvents feed now s ⟨cursor, limit, ""⟩ = .ok page) :
    page.items.map (·.logID) = (servedRows feed now s.outbox cursor limit).map (fun row => row.2.logID.getD "") ∧
      page.lastLogID = (((servedRows feed now s.outbox cursor limit).getLast?).map
        fun row => row.2.logID.getD "").getD "" := by
  obtain ⟨items, hitems, hpage⟩ := bind_eq_ok_iff.mp h
  obtain rfl := pure_eq_ok_iff.mp hpage
  have hlimit : ¬ eventsFeedLimit limit ≤ 0 := Int.not_le.mpr (eventsFeedLimit_pos limit)
  have hlogIDs := buildFeedItems_logIDs hitems
  simp only [readFeed, ne_eq, not_true_eq_false, if_false, hlimit, map_map] at hlogIDs
  refine ⟨hlogIDs, ?_⟩
  rw [← getLast?_map, hlogIDs, getLast?_map]
  rfl

/-- A cursor whose rows are all retained resolves to any row under it, if there is only one. -/
theorem resolveCursor_eq {cursor : String} {c : Nat} {row : OutboxRow} (hcursor : cursor ≠ "")
    (hrow : (c, row) ∈ t.rows) (hlogID : row.logID = some cursor) (hsent : row.sentAt.isSome = true)
    (hfloor : floor ≤ row.createdAt)
    (honly : ∀ j other, (j, other) ∈ t.rows → other.sentAt.isSome = true → other.logID = some cursor → j = c) :
    resolveCursor t cursor floor = c := by
  have hselect : (row.logID == some cursor && row.sentAt.isSome && decide (floor ≤ (row.createdAt : Int))) = true := by
    simp [hlogID, hsent, hfloor]
  unfold resolveCursor
  rw [if_neg hcursor]
  split
  · rename_i found hfound
    obtain ⟨hmem, hfits⟩ := Table.mem_of_first hfound
    simp only [Bool.and_eq_true, beq_iff_eq] at hfits
    exact honly _ _ hmem hfits.1.2 hfits.1.1
  · rename_i hnone
    exact absurd hselect (find?_eq_none.mp hnone (c, row) hrow)

end AgentNameService.Registration
