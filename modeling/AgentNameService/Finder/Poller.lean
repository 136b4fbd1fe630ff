/-
Purpose: One page of a poll round (project, apply, advance the cursor), and the runs of a Finder that reads a feed: in pages
  of any size, with crashes before the cursor is saved, and from earlier positions again.
Source: internal/finder/poller/poller.go, internal/finder/index/index.go
Trusted boundary: human-reviewed model; what is logged and the counters of failed rounds are left out
-/
import AgentNameService.Finder.Catalog

namespace AgentNameService.Finder

open Registration

/-! ### A page -/

section Page

variable (P : Primitives) (opts : Options)

/-- The projections of a page; an item that does not project ends the page. -/
def projectItems : List EventItem → Except String (List Projection)
  | [] => .ok []
  | item :: rest => do
      let projection ← (fromEvent P item opts).withContext s!"project event logId={quoted item.logID}"
      let projections ← projectItems rest
      return projection :: projections

/-- `applyPage`: how many entries were applied, what is to be reported, and the catalog. -/
def applyPage (s : Store) (page : EventPageResponse) : Except String (Nat × List Store.TombstoneNoOp × Store) := do
  let projections ← projectItems P opts page.items
  let entries := projections.flatMap Projection.entries
  let (report, t) ← (s.apply entries).withContext s!"apply {entries.length} entries"
  return (entries.length, report, t)

def nextCursorLogID (prior : String) (page : EventPageResponse) : String :=
  if page.lastLogID ≠ "" then page.lastLogID
  else match page.items.getLast? with
    | some item => item.logID
    | none => prior

/-- What a page did to a round. -/
inductive Round where
  | failed (text : String)
  /-- The page was applied, but the feed claims more without a new cursor. -/
  | stalled (store : Store)
  | advanced (store : Store) (more : Bool)

/-- The loop body of `RunOnce`, for the page that was fetched. -/
def pollPage (s : Store) (page : EventPageResponse) (now : Int) : Round :=
  match applyPage P opts s page with
  | .error text => .failed text
  | .ok (_, _, t) =>
    let lastLogID := nextCursorLogID s.cursor.lastLogID page
    if page.lastLogID ≠ "" ∧ lastLogID = s.cursor.lastLogID then .stalled t
    else .advanced (t.saveCursor ⟨lastLogID, now⟩) (page.lastLogID ≠ "")

end Page

/-! ### Reading a feed -/

/-- How many items of a feed a cursor has behind it. -/
def position (feed : List EventItem) (cursor : String) : Nat :=
  if cursor = "" then 0 else feed.findIdx (·.logID = cursor) + 1

/-- A page of the feed behind a cursor: a stretch of it, with the cursor of its last item or none. -/
structure Serves (feed : List EventItem) (cursor : String) (page : EventPageResponse) : Prop where
  items : page.items <+: feed.drop (position feed cursor)
  lastLogID : page.lastLogID = "" ∨ ∃ item, page.items.getLast? = some item ∧ page.lastLogID = item.logID

/-- What a Finder does to its catalog. -/
inductive Move (P : Primitives) (opts : Options) (feed : List EventItem) (s : Store) : Store → Prop where
  | page {page now t more} (hserves : Serves feed s.cursor.lastLogID page)
      (hround : pollPage P opts s page now = .advanced t more) : Move P opts feed s t
  /-- The page is applied and the cursor is not saved. -/
  | crash {page applied report t} (hserves : Serves feed s.cursor.lastLogID page)
      (hpage : applyPage P opts s page = .ok (applied, report, t)) : Move P opts feed s t
  /-- The Finder goes on from an earlier position. -/
  | restart {cursor} (hearlier : cursor.lastLogID = "" ∨ (∃ item ∈ feed, item.logID = cursor.lastLogID) ∧
      position feed cursor.lastLogID ≤ position feed s.cursor.lastLogID) : Move P opts feed s (s.saveCursor cursor)

/-- The catalogs of a Finder that starts empty. -/
abbrev Reached (P : Primitives) (opts : Options) (feed : List EventItem) (s : Store) : Prop :=
  Relation.ReflTransGen (Move P opts feed) Store.empty s

end AgentNameService.Finder
