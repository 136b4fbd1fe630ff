/-
Purpose: Replay convergence of the Finder.  However a feed is split into pages, wherever the Finder crashes before the cursor
  is saved and to whatever earlier position it goes back, at the end of the feed the discoverable rows are those of one
  uninterrupted application.
Source: internal/finder/poller/poller.go, internal/adapter/store/sqlitefinder/apply.go, internal/finder/project/project.go
Trusted boundary: none
-/
import AgentNameService.Finder.Listings

namespace AgentNameService.Finder

open List Replay

variable {cursor : String}

/-! ### Discoverable rows -/

/-- The rows that search and explore draw from, without their ids. -/
def Store.discoverable (E : Engine) (now : Int) (s : Store) : Set Listing :=
  {l | ∃ r ∈ s.entries, isServed E now r = true ∧ r.listing = l}

/-- What a standing shows is what is active. -/
theorem Shows.mem_visible {σ : Standing String (List Listing)} {ls : List Listing} (h : Shows σ ls) (l : Listing) :
    (l ∈ ls ∧ l.lifecycle = .active) ↔ ∃ content, σ.visible = some content ∧ l ∈ content := by
  cases σ with
  | absent =>
    rw [h]
    simp [Standing.visible]
  | listed createdAt content =>
    obtain ⟨rfl, _, hactive⟩ := h
    constructor
    · rintro ⟨hl, _⟩
      exact ⟨ls, rfl, hl⟩
    · rintro ⟨_, hcontent, hl⟩
      cases hcontent
      exact ⟨hl, (hactive l hl).1⟩
  | buried createdAt =>
    constructor
    · rintro ⟨hl, hactive⟩
      exact absurd hactive (h.2 l hl).1
    · rintro ⟨_, hcontent, _⟩
      cases hcontent

/-- A time of expiry that has not come, or none. -/
def Unexpired (E : Engine) (now : Int) (expiresAt : String) : Prop := expiresAt = "" ∨ E.rfc3339 now < expiresAt

theorem Store.isServed_iff {E : Engine} {now : Int} {r : Row} :
    Store.isServed E now r = true ↔ r.listing.lifecycle = .active ∧ Unexpired E now r.listing.expiresAt := decide_eq_true_iff

theorem Store.mem_discoverable {E : Engine} {now : Int} {s : Store} {l : Listing} :
    l ∈ s.discoverable E now ↔ (l ∈ s.listings l.ansName ∧ l.lifecycle = .active) ∧ Unexpired E now l.expiresAt := by
  rw [Store.mem_listings]
  constructor
  · rintro ⟨r, hr, hserved, rfl⟩
    obtain ⟨hactive, hunexpired⟩ := isServed_iff.mp hserved
    exact ⟨⟨⟨⟨r, hr, rfl⟩, rfl⟩, hactive⟩, hunexpired⟩
  · rintro ⟨⟨⟨⟨r, hr, rfl⟩, _⟩, hactive⟩, hunexpired⟩
    exact ⟨r, hr, isServed_iff.mpr ⟨hactive, hunexpired⟩, rfl⟩

/-- Catalogs that show the same of every name have the same discoverable rows. -/
theorem discoverable_eq {s t : Store} (h : ∀ name, ∃ σ τ, Shows σ (s.listings name) ∧ Shows τ (t.listings name) ∧
    σ.visible = τ.visible) (E : Engine) (now : Int) : s.discoverable E now = t.discoverable E now := by
  ext l
  rw [Store.mem_discoverable, Store.mem_discoverable]
  obtain ⟨σ, τ, hσ, hτ, hsame⟩ := h l.ansName
  rw [hσ.mem_visible, hτ.mem_visible, hsame]

/-! ### Feeds -/

def EventItem.isActive (item : EventItem) : Bool := lifecycleOf item.eventType = some .active

def EventItem.isTombstone (item : EventItem) : Bool :=
  lifecycleOf item.eventType = some .deprecated ∨ lifecycleOf item.eventType = some .revoked

/-- A feed with distinct log ids in which the active events of a name get no older and come before its deprecation and
revocation.  Texts are compared, which for canonical timestamps is to compare times. -/
structure Chronological (feed : List EventItem) : Prop where
  distinct : (feed.map EventItem.logID).Nodup
  ends : feed.Pairwise fun a b => a.ansName = b.ansName → a.isTombstone = true → b.isActive = false
  sorted : feed.Pairwise fun a b => a.ansName = b.ansName → a.isActive = true → b.isActive = true → a.createdAt ≤ b.createdAt

section Events

variable {P : Primitives} {opts : Options} {name : String} {item : EventItem}

theorem eventFor_set {createdAt : String} {content : List Listing} (h : eventFor P opts name item = .set createdAt content) :
    item.ansName = name ∧ item.isActive = true ∧ createdAt = item.createdAt ∧
      ∀ l ∈ content, l.ansName = name ∧ (l.lifecycle = .active ∧ LeadsTo P opts name l.url) ∧ l.expiresAt = item.expiresAt := by
  unfold eventFor at h
  split at h
  · cases h
  · rename_i g hg
    obtain ⟨huniform, _, hname, hcreated, hlifecycle⟩ := groupOf_uniform hg
    unfold EventGroup.eventFor at h
    split at h
    · rename_i hsame
      unfold EventGroup.event at h
      split at h
      · rename_i hactive
        cases h
        refine ⟨hname.symm.trans hsame, ?_, hcreated, ?_⟩
        · rw [hactive] at hlifecycle
          exact decide_eq_true hlifecycle
        · intro l hl
          obtain ⟨pe, hpe, rfl⟩ := mem_map.mp hl
          obtain ⟨projection, hprojection, hentries⟩ := groupOf_entries hg
          have hmem := (dedupByTypeURL_spec g.entries).2.1 pe hpe
          rw [← hentries] at hmem
          rw [hactive] at hlifecycle
          have hleads := fromEvent_leadsTo hprojection hlifecycle hmem
          obtain ⟨_, _, _, rfl⟩ := fromEvent_entries hprojection hmem
          exact ⟨hname.symm.trans hsame, ⟨rfl, (hname.symm.trans hsame) ▸ hleads⟩, rfl⟩
      · cases h
      · cases h
    · cases h

theorem eventFor_bury {createdAt : String} (h : eventFor P opts name item = .bury createdAt) :
    item.ansName = name ∧ item.isTombstone = true ∧ createdAt = item.createdAt := by
  unfold eventFor at h
  split at h
  · cases h
  · rename_i g hg
    obtain ⟨_, _, hname, hcreated, hlifecycle⟩ := groupOf_uniform hg
    unfold EventGroup.eventFor at h
    split at h
    · rename_i hsame
      unfold EventGroup.event at h
      split at h
      · cases h
      · rename_i hrevoked
        cases h
        rw [hrevoked] at hlifecycle
        exact ⟨hname.symm.trans hsame, decide_eq_true (.inr hlifecycle), hcreated⟩
      · rename_i hdeprecated
        cases h
        rw [hdeprecated] at hlifecycle
        exact ⟨hname.symm.trans hsame, decide_eq_true (.inl hlifecycle), hcreated⟩
    · cases h

/-- What a chronological feed says of each name. -/
theorem Chronological.orderly {feed : List EventItem} (h : Chronological feed) (P : Primitives) (opts : Options)
    (name : String) : Orderly (feed.map (eventFor P opts name)) := by
  have hitem {k : Nat} {e : Event String (List Listing)} (he : (feed.map (eventFor P opts name))[k]? = some e) :
      ∃ item, feed[k]? = some item ∧ eventFor P opts name item = e := by
    rw [getElem?_map] at he
    exact Option.map_eq_some_iff.mp he
  constructor
  · intro i j t a x hi hj
    obtain ⟨tomb, htomb, hbury⟩ := hitem hi
    obtain ⟨live, hlive, hset⟩ := hitem hj
    obtain ⟨htombName, htombstone, _⟩ := eventFor_bury hbury
    obtain ⟨hliveName, hactive, _⟩ := eventFor_set hset
    by_contra hnot
    rcases Nat.lt_or_eq_of_le (Nat.le_of_not_lt hnot) with hlt | rfl
    · have hpast := pairwise_iff_getElem.mp h.ends i j (List.getElem?_eq_some_iff.mp htomb).1
        (List.getElem?_eq_some_iff.mp hlive).1 hlt
      rw [(List.getElem?_eq_some_iff.mp htomb).2, (List.getElem?_eq_some_iff.mp hlive).2] at hpast
      rw [hpast (htombName.trans hliveName.symm) htombstone] at hactive
      cases hactive
    · rw [htomb] at hlive
      cases hlive
      rw [hbury] at hset
      cases hset
  · intro i j a x b y hi hj hle
    obtain ⟨first, hfirst, hset⟩ := hitem hi
    obtain ⟨second, hsecond, hset'⟩ := hitem hj
    obtain ⟨hname, hactive, rfl, _⟩ := eventFor_set hset
    obtain ⟨hname', hactive', rfl, _⟩ := eventFor_set hset'
    rcases Nat.lt_or_eq_of_le hle with hlt | rfl
    · have hsorted := pairwise_iff_getElem.mp h.sorted i j (List.getElem?_eq_some_iff.mp hfirst).1
        (List.getElem?_eq_some_iff.mp hsecond).1 hlt
      rw [(List.getElem?_eq_some_iff.mp hfirst).2, (List.getElem?_eq_some_iff.mp hsecond).2] at hsorted
      exact hsorted (hname.trans hname'.symm) hactive hactive'
    · rw [hfirst] at hsecond
      cases hsecond
      exact le_refl _

end Events

/-! ### Positions -/

theorem position_of_getElem? {feed : List EventItem} (hdistinct : (feed.map EventItem.logID).Nodup) {k : Nat}
    {item : EventItem} (hk : feed[k]? = some item) (hlogID : item.logID ≠ "") : position feed item.logID = k + 1 := by
  obtain ⟨hlt, hitem⟩ := List.getElem?_eq_some_iff.mp hk
  have hfind : feed.findIdx (·.logID = item.logID) = k := by
    rw [findIdx_eq hlt]
    refine ⟨decide_eq_true (congrArg EventItem.logID hitem), ?_⟩
    intro j hj
    refine decide_eq_false fun hsame => ?_
    have hlogIDs : (feed.map EventItem.logID)[j]? = (feed.map EventItem.logID)[k]? := by
      rw [getElem?_map, getElem?_map, getElem?_eq_getElem (Nat.lt_trans hj hlt), hk]
      exact congrArg some hsame
    have hjk := (getElem?_inj (by simpa using Nat.lt_trans hj hlt) hdistinct).mp hlogIDs
    exact absurd hjk (Nat.ne_of_lt hj)
  unfold position
  rw [if_neg hlogID, hfind]

/-- A page moves the cursor behind its items. -/
theorem position_nextCursorLogID {feed : List EventItem} (hdistinct : (feed.map EventItem.logID).Nodup)
    {page : EventPageResponse} (hserves : Serves feed cursor page) (hlogIDs : ∀ item ∈ page.items, item.logID ≠ "") :
    position feed (nextCursorLogID cursor page) = position feed cursor + page.items.length := by
  unfold nextCursorLogID
  cases hlast : page.items.getLast? with
  | none =>
    have hnoCursor : page.lastLogID = "" := by
      rcases hserves.lastLogID with hnone | ⟨item, hitem, _⟩
      · exact hnone
      · rw [hlast] at hitem
        cases hitem
    rw [if_neg (not_not_intro hnoCursor), getLast?_eq_none_iff.mp hlast]
    rfl
  | some item =>
    have hcursor : (if page.lastLogID ≠ "" then page.lastLogID else item.logID) = item.logID := by
      rcases hserves.lastLogID with hnone | ⟨item', hitem', hcursor⟩
      · exact if_neg (not_not_intro hnone)
      · rw [hlast] at hitem'
        cases hitem'
        split
        · exact hcursor
        · rfl
    have hmem : item ∈ page.items := mem_of_getLast? hlast
    have hne : 0 < page.items.length := length_pos_of_mem hmem
    have hat : feed[position feed cursor + (page.items.length - 1)]? = some item := by
      rw [← getElem?_drop]
      obtain ⟨rest, hrest⟩ := hserves.items
      rw [← hrest, getElem?_append_left (Nat.sub_one_lt_of_lt hne), ← getLast?_eq_getElem?]
      exact hlast
    simp only
    rw [hcursor, position_of_getElem? hdistinct hat (hlogIDs item hmem), Nat.add_assoc, Nat.sub_add_cancel hne]

/-! ### Reading the feed -/

section Reading

variable {P : Primitives} {opts : Options} {feed : List EventItem} {s t : Store}

/-- What holds of the catalog of a Finder at any time. -/
structure Following (P : Primitives) (opts : Options) (feed : List EventItem) (s : Store) : Prop where
  projects : ∀ item ∈ feed.take (position feed s.cursor.lastLogID), Projects P opts item
  tracks : ∀ name, ∃ σ, Shows σ (s.listings name) ∧
    Tracks (feed.map (eventFor P opts name)) (position feed s.cursor.lastLogID) σ

theorem following_empty (P : Primitives) (opts : Options) (feed : List EventItem) : Following P opts feed Store.empty where
  projects := nofun
  tracks _ := ⟨.absent, rfl, Tracks.start _⟩

/-- A page that is served next is applied to what is there. -/
theorem Following.applyPage (hfeed : Chronological feed) (h : Following P opts feed s) {page : EventPageResponse}
    (hserves : Serves feed s.cursor.lastLogID page) {applied : Nat} {report : List Store.TombstoneNoOp}
    (hpage : applyPage P opts s page = .ok (applied, report, t)) :
    t.cursor = s.cursor ∧ (∀ item ∈ page.items, Projects P opts item) ∧ ∀ name, ∃ σ, Shows σ (t.listings name) ∧
      Tracks (feed.map (eventFor P opts name)) (position feed s.cursor.lastLogID + page.items.length) σ := by
  have hprojects := projects_of_applyPage hpage
  have hdistinct : (page.items.map EventItem.logID).Nodup := by
    have hsublist : page.items.Sublist feed := hserves.items.sublist.trans (drop_sublist _ _)
    exact hfeed.distinct.sublist (hsublist.map _)
  obtain ⟨applied', report', t', ht', hcursor, hshows⟩ := applyPage_shows hprojects hdistinct s
  rw [hpage] at ht'
  cases ht'
  refine ⟨hcursor, hprojects, ?_⟩
  intro name
  obtain ⟨σ, hσ, htracks⟩ := h.tracks name
  refine ⟨_, hshows name σ hσ, ?_⟩
  have hstretch : page.items.map (eventFor P opts name) <+:
      (feed.map (eventFor P opts name)).drop (position feed s.cursor.lastLogID) := by
    rw [← map_drop]
    exact hserves.items.map _
  have hrun := htracks.run (hfeed.orderly P opts name) hstretch
  rw [length_map] at hrun
  exact hrun

theorem Move.following (hfeed : Chronological feed) (hmove : Move P opts feed s t) (h : Following P opts feed s) :
    Following P opts feed t := by
  cases hmove with
  | page hserves hround =>
    rename_i page now more
    unfold pollPage at hround
    split at hround
    · cases hround
    · rename_i applied report u hpage
      simp only at hround
      split at hround
      · cases hround
      · cases hround
        obtain ⟨_, hprojects, htracks⟩ := h.applyPage hfeed hserves hpage
        have hposition := position_nextCursorLogID hfeed.distinct hserves fun item hitem => (hprojects item hitem).keys.1
        constructor
        · change ∀ item ∈ feed.take (position feed (nextCursorLogID s.cursor.lastLogID page)), _
          rw [hposition, take_add]
          intro item hitem
          rcases mem_append.mp hitem with hold | hnew
          · exact h.projects item hold
          · rw [prefix_iff_eq_take.mp hserves.items] at hprojects
            exact hprojects item hnew
        · change ∀ name, ∃ σ, Shows σ (u.listings name) ∧
            Tracks _ (position feed (nextCursorLogID s.cursor.lastLogID page)) σ
          rw [hposition]
          exact htracks
  | crash hserves hpage =>
    obtain ⟨hcursor, _, htracks⟩ := h.applyPage hfeed hserves hpage
    constructor
    · rw [hcursor]
      exact h.projects
    · intro name
      obtain ⟨σ, hσ, htracks⟩ := htracks name
      refine ⟨σ, hσ, ?_⟩
      rw [hcursor]
      exact htracks.rewind (Nat.le_add_right _ _)
  | restart hearlier =>
    rename_i cursor
    have hle : position feed cursor.lastLogID ≤ position feed s.cursor.lastLogID := by
      rcases hearlier with hstart | ⟨_, hle⟩
      · rw [hstart]
        exact Nat.zero_le _
      · exact hle
    constructor
    · intro item hitem
      exact h.projects item (take_subset_take_left _ hle hitem)
    · intro name
      obtain ⟨σ, hσ, htracks⟩ := h.tracks name
      exact ⟨σ, hσ, htracks.rewind hle⟩

theorem Reached.following (hfeed : Chronological feed) (h : Reached P opts feed s) : Following P opts feed s := by
  induction h with
  | refl => exact following_empty P opts feed
  | tail _ hmove ih => exact hmove.following hfeed ih

/-- The last page of a round is applied when it projects, and the cursor moves behind it. -/
theorem exists_move_page (hfeed : Chronological feed) (hcursor : s.cursor.lastLogID = cursor)
    (items : List EventItem) (hitems : items <+: feed.drop (position feed cursor))
    (hprojects : ∀ item ∈ items, Projects P opts item) :
    ∃ t, Move P opts feed s t ∧ t.cursor.lastLogID = nextCursorLogID cursor ⟨items, ""⟩ := by
  subst hcursor
  let page : EventPageResponse := ⟨items, ""⟩
  have hdistinct : (page.items.map EventItem.logID).Nodup :=
    hfeed.distinct.sublist ((hitems.sublist.trans (drop_sublist _ _)).map _)
  have hpage : ∀ item ∈ page.items, Projects P opts item := hprojects
  obtain ⟨applied, report, t, ht, _, _⟩ := applyPage_shows hpage hdistinct s
  have hround : pollPage P opts s page 0 = .advanced (t.saveCursor ⟨nextCursorLogID s.cursor.lastLogID page, 0⟩) false := by
    unfold pollPage
    rw [ht]
    rfl
  exact ⟨_, .page ⟨hitems, .inl rfl⟩ hround, rfl⟩

/-- The cursor may be lost after the page was applied. -/
theorem exists_move_crash (hfeed : Chronological feed) (hcursor : s.cursor.lastLogID = cursor)
    (items : List EventItem) (hitems : items <+: feed.drop (position feed cursor))
    (hprojects : ∀ item ∈ items, Projects P opts item) : ∃ t, Move P opts feed s t ∧ t.cursor.lastLogID = cursor := by
  subst hcursor
  let page : EventPageResponse := ⟨items, ""⟩
  have hdistinct : (page.items.map EventItem.logID).Nodup :=
    hfeed.distinct.sublist ((hitems.sublist.trans (drop_sublist _ _)).map _)
  have hpage : ∀ item ∈ page.items, Projects P opts item := hprojects
  obtain ⟨applied, report, t, ht, hcursor, _⟩ := applyPage_shows hpage hdistinct s
  exact ⟨t, .crash ⟨hitems, .inl rfl⟩ ht, congrArg Cursor.lastLogID hcursor⟩

/-- A Finder that got to the end of the feed has the discoverable rows of one application of the whole feed. -/
theorem replay_converges (hfeed : Chronological feed) (h : Reached P opts feed s)
    (hend : position feed s.cursor.lastLogID = feed.length) :
    ∃ applied report once, applyPage P opts Store.empty ⟨feed, ""⟩ = .ok (applied, report, once) ∧
      ∀ E now, s.discoverable E now = once.discoverable E now := by
  obtain ⟨hprojects, htracks⟩ := h.following hfeed
  rw [hend] at hprojects htracks
  rw [take_length] at hprojects
  let whole : EventPageResponse := ⟨feed, ""⟩
  have hwhole : ∀ item ∈ whole.items, Projects P opts item := hprojects
  obtain ⟨applied, report, once, honce, _, hshows⟩ := applyPage_shows hwhole hfeed.distinct Store.empty
  refine ⟨applied, report, once, honce, ?_⟩
  apply discoverable_eq
  intro name
  obtain ⟨σ, hσ, htracks⟩ := htracks name
  have hall : feed.map (eventFor P opts name) <+: (feed.map (eventFor P opts name)).drop 0 := prefix_refl _
  have honceTracks := (Tracks.start (feed.map (eventFor P opts name))).run (hfeed.orderly P opts name) hall
  rw [Nat.zero_add] at honceTracks
  refine ⟨σ, _, hσ, hshows name .absent rfl, ?_⟩
  rw [← length_map (eventFor P opts name)] at htracks
  exact htracks.visible_eq honceTracks

end Reading

namespace Sample

def primitives : Primitives where
  parseTime _ := .ok 0
  parseURL _ := .ok ⟨"https", "agent.example.com", "agent.example.com", false, "", false, ""⟩
  pathEscape text := text

def options : Options := ⟨"https://tl.example.com", false⟩

def name : String := "ans://v1.0.0.agent.example.com"

/-- An event of an agent with one endpoint. -/
def item (logID : String) (eventType : TransparencyLog.EventType) (createdAt : String) : EventItem where
  logID := logID
  eventType := eventType
  createdAt := createdAt
  expiresAt := ""
  agentID := "0191d2c4-7a3e-7c60-8b11-5f0e4a9c2d37"
  ansName := name
  agentHost := "agent.example.com"
  agentDisplayName := "Travel desk"
  agentDescription := "Books trips"
  version := "1.0.0"
  endpoints := [⟨"https://agent.example.com/a2a", "", .a2a, [⟨"book", ["travel"]⟩]⟩]

def feed : List EventItem :=
  [item "log-1" .agentRegistered "2025-01-01T00:00:00Z", item "log-2" .agentRenewed "2025-02-01T00:00:00Z",
    item "log-3" .agentRevoked "2025-03-01T00:00:00Z"]

theorem feed_chronological : Chronological feed := ⟨by decide +kernel, by decide +kernel, by decide +kernel⟩

theorem projects_of_isOk {items : List EventItem} (h : ∀ x ∈ items, (fromEvent primitives x options).isOk = true) :
    ∀ x ∈ items, Projects primitives options x := by
  intro x hx
  have hok := h x hx
  unfold Projects
  cases hprojection : fromEvent primitives x options with
  | error text =>
    rw [hprojection] at hok
    cases hok
  | ok projection => exact ⟨projection, rfl⟩

theorem feed_projects : ∀ x ∈ feed, Projects primitives options x := projects_of_isOk (by decide +kernel)

/-- Two events in a page, a crash at the third, and all again from the beginning. -/
theorem reached_end : ∃ s, Reached primitives options feed s ∧ s.cursor.lastLogID = "log-3" := by
  have hprojects {items : List EventItem} (hitems : ∀ x ∈ items, x ∈ feed) (x : EventItem) (hx : x ∈ items) :
      Projects primitives options x := feed_projects x (hitems x hx)
  have hstart : Store.empty.cursor.lastLogID = "" := rfl
  obtain ⟨a, ha, hacursor⟩ := exists_move_page feed_chronological hstart (feed.take 2) (by decide +kernel)
    (hprojects (by decide +kernel))
  replace hacursor : a.cursor.lastLogID = "log-2" := hacursor.trans (by decide +kernel)
  obtain ⟨b, hb, _⟩ := exists_move_crash feed_chronological hacursor (feed.drop 2) (by decide +kernel)
    (hprojects (by decide +kernel))
  let c := b.saveCursor ⟨"", 0⟩
  have hc : Move primitives options feed b c := .restart (.inl rfl)
  have hccursor : c.cursor.lastLogID = "" := rfl
  obtain ⟨d, hd, hdcursor⟩ := exists_move_page feed_chronological hccursor (feed.take 1) (by decide +kernel)
    (hprojects (by decide +kernel))
  replace hdcursor : d.cursor.lastLogID = "log-1" := hdcursor.trans (by decide +kernel)
  obtain ⟨e, he, hecursor⟩ := exists_move_page feed_chronological hdcursor (feed.drop 1) (by decide +kernel)
    (hprojects (by decide +kernel))
  exact ⟨e, ((((Relation.ReflTransGen.single ha).tail hb).tail hc).tail hd).tail he, hecursor.trans (by decide +kernel)⟩

end Sample

open Sample

theorem replay_converges_after_crash : ∃ s, Reached primitives options feed s ∧
    position feed s.cursor.lastLogID = feed.length ∧ ∃ applied report once,
      applyPage primitives options Store.empty ⟨feed, ""⟩ = .ok (applied, report, once) ∧
        ∀ E now, s.discoverable E now = once.discoverable E now := by
  obtain ⟨s, hs, hcursor⟩ := reached_end
  have hend : position feed s.cursor.lastLogID = feed.length := by
    rw [hcursor]
    decide +kernel
  exact ⟨s, hs, hend, replay_converges feed_chronological hs hend⟩

end AgentNameService.Finder
