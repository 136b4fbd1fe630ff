/-
Purpose: When a revoked agent stays out of the Finder.  A revocation hides the rows that are no newer, by the text of the
  timestamps, so a revocation from a clock that went back hides nothing.
Source: internal/adapter/store/sqlitefinder/{apply,search,explore}.go, internal/finder/project/project.go
Trusted boundary: none
-/
import AgentNameService.Finder.Convergence

namespace AgentNameService.Finder

open List Except Replay

variable {E : Engine} {s : Store} {now : Int}

/-! ### What search and explore return -/

/-- Search or explore return a row of a name. -/
def Store.Surfaces (E : Engine) (s : Store) (name : String) : Prop :=
  ∃ text filter now,
    (∃ rows, s.matchedRows E text filter now = .ok rows ∧ ∃ r ∈ rows, r.row.listing.ansName = name) ∨
    (∃ rows, s.matchedSet E text filter now = .ok rows ∧ ∃ r ∈ rows, r.listing.ansName = name)

theorem isServed_of_mem_matchedRows {text : String} {filter : Filter}
    {rows : List Store.MatchedRow} (h : s.matchedRows E text filter now = .ok rows) {r : Store.MatchedRow} (hr : r ∈ rows) :
    r.row ∈ s.entries ∧ Store.isServed E now r.row = true := by
  unfold Store.matchedRows at h
  obtain ⟨clauses, _, h⟩ := bind_eq_ok_iff.mp h
  have hfiltered {x : Row} (hx : x ∈ s.entries.filter fun r =>
      Store.isServed E now r && clauses.all fun clause => s.passesClause clause r) :
      x ∈ s.entries ∧ Store.isServed E now x = true := by
    obtain ⟨hmem, hserved⟩ := mem_filter.mp hx
    exact ⟨hmem, (Bool.and_eq_true_iff.mp hserved).1⟩
  simp only at h
  split at h
  · rw [← pure_eq_ok_iff.mp h] at hr
    obtain ⟨x, hx, rfl⟩ := mem_map.mp hr
    exact hfiltered hx
  · rw [← pure_eq_ok_iff.mp h] at hr
    obtain ⟨x, hx, hjoined⟩ := mem_flatMap.mp hr
    obtain ⟨f, _, rfl⟩ := mem_map.mp hjoined
    exact hfiltered hx

theorem isServed_of_mem_matchedSet {text : String} {filter : Filter}
    {rows : List Row} (h : s.matchedSet E text filter now = .ok rows) {r : Row} (hr : r ∈ rows) :
    r ∈ s.entries ∧ Store.isServed E now r = true := by
  unfold Store.matchedSet at h
  obtain ⟨clauses, _, h⟩ := bind_eq_ok_iff.mp h
  rw [← pure_eq_ok_iff.mp h] at hr
  obtain ⟨hmem, hserved⟩ := mem_filter.mp hr
  exact ⟨hmem, (Bool.and_eq_true_iff.mp (Bool.and_eq_true_iff.mp hserved).1).1⟩

/-- A name surfaces when it has a row that is active and unexpired at some time: a search for nothing finds it. -/
theorem surfaces_iff {name : String} :
    s.Surfaces E name ↔ ∃ now, ∃ l ∈ s.listings name, l.lifecycle = .active ∧ Unexpired E now l.expiresAt := by
  have hserved {r : Row} {now : Int} (hr : r ∈ s.entries) (hserved : Store.isServed E now r = true)
      (hname : r.listing.ansName = name) : ∃ now, ∃ l ∈ s.listings name, l.lifecycle = .active ∧ Unexpired E now l.expiresAt :=
    ⟨now, r.listing, Store.mem_listings.mpr ⟨⟨r, hr, rfl⟩, hname⟩, Store.isServed_iff.mp hserved⟩
  constructor
  · rintro ⟨text, filter, now, ⟨rows, hrows, r, hr, hname⟩ | ⟨rows, hrows, r, hr, hname⟩⟩
    · obtain ⟨hmem, hs⟩ := isServed_of_mem_matchedRows hrows hr
      exact hserved hmem hs hname
    · obtain ⟨hmem, hs⟩ := isServed_of_mem_matchedSet hrows hr
      exact hserved hmem hs hname
  · rintro ⟨now, l, hl, hactive, hunexpired⟩
    obtain ⟨⟨r, hr, rfl⟩, hname⟩ := Store.mem_listings.mp hl
    refine ⟨"", [], now, .inr ⟨_, rfl, r, ?_, hname⟩⟩
    have hquery : buildMatchQuery "" = "" := by decide +kernel
    rw [hquery]
    exact mem_filter.mpr ⟨hr, by simpa using Store.isServed_iff.mpr ⟨hactive, hunexpired⟩⟩

/-! ### Applying pages -/

section Pages

variable {P : Primitives} {opts : Options} {name : String}

/-- Apply pages one after the other. -/
def applyPages (P : Primitives) (opts : Options) (s : Store) : List (List EventItem) → Except String Store
  | [] => .ok s
  | page :: rest => do
      let (_, _, t) ← applyPage P opts s ⟨page, ""⟩
      applyPages P opts t rest

theorem applyPages_shows {pages : List (List EventItem)} (hprojects : ∀ page ∈ pages, ∀ item ∈ page, Projects P opts item)
    (hdistinct : ∀ page ∈ pages, (page.map EventItem.logID).Nodup) (s : Store) :
    ∃ t, applyPages P opts s pages = .ok t ∧ ∀ name σ, Shows σ (s.listings name) →
      Shows (run σ (pages.flatten.map (eventFor P opts name))) (t.listings name) := by
  induction pages generalizing s with
  | nil => exact ⟨s, rfl, fun _ _ hσ => hσ⟩
  | cons page rest ih =>
    let response : EventPageResponse := ⟨page, ""⟩
    have hpage : ∀ item ∈ response.items, Projects P opts item := hprojects page mem_cons_self
    obtain ⟨applied, report, t, ht, _, hstep⟩ := applyPage_shows hpage (hdistinct page mem_cons_self) s
    obtain ⟨u, hu, hrest⟩ := ih (fun x hx => hprojects x (mem_cons_of_mem _ hx))
      (fun x hx => hdistinct x (mem_cons_of_mem _ hx)) t
    refine ⟨u, ?_, ?_⟩
    · rw [applyPages, ht]
      exact hu
    · intro name σ hσ
      rw [flatten_cons, map_append, run_append]
      exact hrest name _ (hstep name σ hσ)

/-- Items of other names do nothing to a name. -/
theorem run_eventFor_filter (name : String) (σ : Standing String (List Listing)) (items : List EventItem) :
    run σ (items.map (eventFor P opts name)) =
      run σ ((items.filter (·.ansName = name)).map (eventFor P opts name)) := by
  induction items generalizing σ with
  | nil => rfl
  | cons item rest ih =>
    rw [map_cons, run_cons, ih, filter_cons]
    split
    · rfl
    · rename_i hother
      have hskip : eventFor P opts name item = .skip := by
        cases hevent : eventFor P opts name item with
        | set createdAt content => exact absurd (decide_eq_true (eventFor_set hevent).1) hother
        | bury createdAt => exact absurd (decide_eq_true (eventFor_bury hevent).1) hother
        | skip => rfl
      rw [hskip, step_skip]

end Pages

/-! ### The history of a revoked agent -/

/-- What the log admits of an agent that ends revoked: active events, a deprecation or none, the revocation.  Timestamps are
free. -/
structure History (actives deprecations : List EventItem) (revocation : EventItem) : Prop where
  active : ∀ item ∈ actives, item.isActive = true
  deprecated : deprecations.length ≤ 1 ∧ ∀ item ∈ deprecations, item.eventType = .agentDeprecated
  revoked : revocation.eventType = .agentRevoked

/-- An active event that has something to list. -/
def EventItem.lists (P : Primitives) (opts : Options) (item : EventItem) : Bool := (groupOf P opts item).isSome

/-- The rows that an active event lists. -/
def contentOf (P : Primitives) (opts : Options) (item : EventItem) : List Listing :=
  match groupOf P opts item with
  | none => []
  | some g => (dedupByTypeURL g.entries).map Listing.ofEntry

/-- The first tombstone that is no older than the last listing is no older than any of them. -/
def Covered (listing tombstones : List EventItem) : Prop :=
  ∀ last, listing.getLast? = some last →
    ∃ t, tombstones.find? (last.createdAt ≤ ·.createdAt) = some t ∧ ∀ item ∈ listing, item.createdAt ≤ t.createdAt

section Events

variable {P : Primitives} {opts : Options} {name : String} {item : EventItem}

theorem eventFor_of_active (hname : item.ansName = name) (hactive : item.isActive = true) (hlists : item.lists P opts = true) :
    eventFor P opts name item = .set item.createdAt (contentOf P opts item) ∧ contentOf P opts item ≠ [] := by
  obtain ⟨g, hg⟩ := Option.isSome_iff_exists.mp hlists
  obtain ⟨huniform, _, hgname, hcreated, hlifecycle⟩ := groupOf_uniform hg
  have hglifecycle : g.lifecycle = .active := by
    rw [of_decide_eq_true hactive] at hlifecycle
    exact (Option.some.inj hlifecycle).symm
  unfold eventFor contentOf
  rw [hg]
  simp only [EventGroup.eventFor, if_pos (hgname.trans hname), EventGroup.event, hglifecycle, hcreated, true_and]
  exact (shows_set huniform).2.1

theorem not_isTombstone_of_isActive (hactive : item.isActive = true) : ¬item.isTombstone = true := by
  unfold EventItem.isActive at hactive
  unfold EventItem.isTombstone
  rw [of_decide_eq_true hactive]
  decide

theorem eventFor_of_not_lists (hlists : item.lists P opts = false) : eventFor P opts name item = .skip := by
  unfold EventItem.lists at hlists
  unfold eventFor
  rw [Option.isSome_eq_false_iff, Option.isNone_iff_eq_none] at hlists
  rw [hlists]

theorem eventFor_of_tombstone (hprojects : Projects P opts item) (hname : item.ansName = name) {lifecycle : Lifecycle}
    (hlifecycle : lifecycleOf item.eventType = some lifecycle) (hne : lifecycle ≠ .active) :
    eventFor P opts name item = .bury item.createdAt := by
  obtain ⟨projection, hprojection⟩ := hprojects
  have hentries := fromEvent_tombstone hprojection hlifecycle hne
  have hgroup : groupOf P opts item = EventGroup.ofEntries (tombstone item lifecycle).entries := by
    unfold groupOf
    rw [hprojection, ← hentries]
    rfl
  unfold eventFor
  rw [hgroup]
  cases lifecycle with
  | active => exact absurd rfl hne
  | revoked | deprecated => exact if_pos hname

/-- The snapshots of active events. -/
theorem snapshots_eventFor {actives : List EventItem} (hname : ∀ item ∈ actives, item.ansName = name)
    (hactive : ∀ item ∈ actives, item.isActive = true) : snapshots (actives.map (eventFor P opts name)) =
      (actives.filter (·.lists P opts)).map fun item => (item.createdAt, contentOf P opts item) := by
  induction actives with
  | nil => rfl
  | cons item rest ih =>
    have hrest := ih (fun x hx => hname x (mem_cons_of_mem _ hx)) (fun x hx => hactive x (mem_cons_of_mem _ hx))
    have hitem (hlists : item.lists P opts = true) :=
      eventFor_of_active (hname item mem_cons_self) (hactive item mem_cons_self) hlists
    rw [map_cons, filter_cons]
    cases hlists : item.lists P opts with
    | true =>
      rw [(hitem hlists).1]
      exact congrArg (_ :: ·) hrest
    | false =>
      rw [eventFor_of_not_lists hlists]
      exact hrest

/-- The burials of tombstones. -/
theorem burials_eventFor {tombstones : List EventItem}
    (hbury : ∀ item ∈ tombstones, eventFor P opts name item = .bury item.createdAt) :
    burials (tombstones.map (eventFor P opts name)) = tombstones.map EventItem.createdAt := by
  induction tombstones with
  | nil => rfl
  | cons item rest ih =>
    rw [map_cons, hbury item mem_cons_self]
    exact congrArg (_ :: ·) (ih fun x hx => hbury x (mem_cons_of_mem _ hx))

theorem covered_iff {listing tombstones : List EventItem} : Covered listing tombstones ↔
    Retires (listing.map fun item => (item.createdAt, contentOf P opts item)) (tombstones.map EventItem.createdAt) := by
  have hfind (a : String) : (tombstones.map EventItem.createdAt).find? (a ≤ ·) =
      (tombstones.find? (a ≤ ·.createdAt)).map EventItem.createdAt := by
    rw [find?_map]
    rfl
  constructor
  · intro h a x hlast
    rw [getLast?_map] at hlast
    obtain ⟨last, hfound, heq⟩ := Option.map_eq_some_iff.mp hlast
    cases heq
    obtain ⟨t, ht, hall⟩ := h last hfound
    refine ⟨t.createdAt, by rw [hfind, ht]; rfl, ?_⟩
    intro b y hmem
    obtain ⟨item, hitem, heq⟩ := mem_map.mp hmem
    cases heq
    exact hall item hitem
  · intro h last hlast
    obtain ⟨t, ht, hall⟩ := h last.createdAt (contentOf P opts last) (by rw [getLast?_map, hlast]; rfl)
    rw [hfind] at ht
    obtain ⟨tombstone, htombstone, rfl⟩ := Option.map_eq_some_iff.mp ht
    refine ⟨tombstone, htombstone, ?_⟩
    intro item hitem
    exact hall _ _ (mem_map.mpr ⟨item, hitem, rfl⟩)

end Events

/-! ### Retirement -/

section Retirement

variable {P : Primitives} {opts : Options} {name : String} {feed actives deprecations : List EventItem}
  {revocation : EventItem}

/-- A list of images is the image of a list. -/
theorem exists_map_eq {α β : Type} {f : α → β} {as : List α} {bs : List β} (h : ∀ b ∈ bs, b ∈ as.map f) :
    ∃ xs : List α, (∀ x ∈ xs, x ∈ as) ∧ xs.map f = bs := by
  induction bs with
  | nil => exact ⟨[], nofun, rfl⟩
  | cons b rest ih =>
    obtain ⟨x, hx, rfl⟩ := mem_map.mp (h b mem_cons_self)
    obtain ⟨xs, hxs, rfl⟩ := ih fun y hy => h y (mem_cons_of_mem _ hy)
    exact ⟨x :: xs, forall_mem_cons.mpr ⟨hx, hxs⟩, rfl⟩

/-- A feed of items that project, whose events of a name are a history. -/
structure Tells (P : Primitives) (opts : Options) (feed : List EventItem) (name : String)
    (actives deprecations : List EventItem) (revocation : EventItem) : Prop extends
    History actives deprecations revocation where
  distinct : (feed.map EventItem.logID).Nodup
  projects : ∀ item ∈ feed, Projects P opts item
  events : feed.filter (·.ansName = name) = actives ++ (deprecations ++ [revocation])

namespace Tells

variable (h : Tells P opts feed name actives deprecations revocation)

include h

theorem mem_feed (item : EventItem) (hitem : item ∈ actives ++ (deprecations ++ [revocation])) :
    item ∈ feed ∧ item.ansName = name := by
  rw [← h.events] at hitem
  obtain ⟨hmem, hname⟩ := mem_filter.mp hitem
  exact ⟨hmem, of_decide_eq_true hname⟩

theorem buries (item : EventItem) (hitem : item ∈ deprecations ++ [revocation]) :
    eventFor P opts name item = .bury item.createdAt := by
  obtain ⟨hfeed, hname⟩ := h.mem_feed item (mem_append_right _ hitem)
  rcases mem_append.mp hitem with hdeprecation | hrevocation
  · have hlifecycle : lifecycleOf item.eventType = some .deprecated := by
      rw [h.deprecated.2 item hdeprecation]
      rfl
    exact eventFor_of_tombstone (h.projects item hfeed) hname hlifecycle nofun
  · have hlifecycle : lifecycleOf item.eventType = some .revoked := by
      rw [mem_singleton.mp hrevocation, h.revoked]
      rfl
    exact eventFor_of_tombstone (h.projects item hfeed) hname hlifecycle nofun

theorem no_burial (t : String) : .bury t ∉ actives.map (eventFor P opts name) := by
  intro hmem
  obtain ⟨item, hitem, hevent⟩ := mem_map.mp hmem
  exact not_isTombstone_of_isActive (h.active item hitem) (eventFor_bury hevent).2.1

theorem no_set (a : String) (x : List Listing) : .set a x ∉ (deprecations ++ [revocation]).map (eventFor P opts name) := by
  intro hmem
  obtain ⟨item, hitem, hevent⟩ := mem_map.mp hmem
  rw [h.buries item hitem] at hevent
  cases hevent

/-- Every listing of the name in the feed is one of the history. -/
theorem exists_of_set {a : String} {x : List Listing} (hmem : .set a x ∈ feed.map (eventFor P opts name)) :
    ∃ item ∈ actives.filter (·.lists P opts), eventFor P opts name item = .set a x := by
  obtain ⟨item, hitem, hevent⟩ := mem_map.mp hmem
  have hfiltered : item ∈ feed.filter (·.ansName = name) :=
    mem_filter.mpr ⟨hitem, decide_eq_true (eventFor_set hevent).1⟩
  rw [h.events] at hfiltered
  rcases mem_append.mp hfiltered with hactive | htombstone
  · refine ⟨item, mem_filter.mpr ⟨hactive, ?_⟩, hevent⟩
    by_contra hnot
    rw [eventFor_of_not_lists (Bool.not_eq_true _ ▸ hnot)] at hevent
    cases hevent
  · exact absurd (mem_map.mpr ⟨item, htombstone, hevent⟩) (h.no_set a x)

theorem covered_iff_retires : Covered (actives.filter (·.lists P opts)) (deprecations ++ [revocation]) ↔
    Retires (snapshots (actives.map (eventFor P opts name)))
      (burials ((deprecations ++ [revocation]).map (eventFor P opts name))) := by
  have hname (item : EventItem) (hitem : item ∈ actives) : item.ansName = name :=
    (h.mem_feed item (mem_append_left _ hitem)).2
  rw [snapshots_eventFor hname h.active, burials_eventFor h.buries]
  exact covered_iff

/-- What the name shows once the feed was applied in pages, and pages again. -/
theorem applyPages_shows {pages again : List (List EventItem)} (hpages : pages.flatten = feed)
    (hagain : ∀ page ∈ again, page ∈ pages) (hs : s.listings name = []) :
    ∃ t, applyPages P opts s (pages ++ again) = .ok t ∧ Shows (run .absent (actives.map (eventFor P opts name) ++
        (deprecations ++ [revocation]).map (eventFor P opts name) ++ again.flatten.map (eventFor P opts name)))
        (t.listings name) := by
  have hpage {page : List EventItem} (hmem : page ∈ pages ++ again) : page.Sublist feed := by
    have hmem : page ∈ pages := by
      rcases mem_append.mp hmem with hmem | hmem
      · exact hmem
      · exact hagain page hmem
    rw [← hpages]
    exact sublist_flatten_of_mem hmem
  obtain ⟨t, ht, hshows⟩ := Finder.applyPages_shows
    (fun page hmem item hitem => h.projects item ((hpage hmem).subset hitem))
    (fun page hmem => h.distinct.sublist ((hpage hmem).map _)) s
  refine ⟨t, ht, ?_⟩
  have hrun := hshows name .absent hs
  have hfirst : run .absent (feed.map (eventFor P opts name)) = run .absent
      (actives.map (eventFor P opts name) ++ (deprecations ++ [revocation]).map (eventFor P opts name)) := by
    rw [run_eventFor_filter, h.events, map_append]
  rw [flatten_append, map_append, run_append, hpages, hfirst, ← run_append] at hrun
  exact hrun

/-- Where a listing can be served and is not covered, some pages bring it back. -/
theorem exists_surfaces (E : Engine) {item : EventItem} (hitem : item ∈ actives.filter (·.lists P opts))
    (hunexpired : Unexpired E now item.expiresAt)
    (huncovered : ¬Covered (actives.filter (·.lists P opts)) (deprecations ++ [revocation])) :
    ∃ pages again t, pages.flatten = feed ∧ (∀ page ∈ again, page ∈ pages) ∧
      applyPages P opts Store.empty (pages ++ again) = .ok t ∧ t.Surfaces E name := by
  have hactives (x : EventItem) (hx : x ∈ actives) := h.mem_feed x (mem_append_left _ hx)
  obtain ⟨hactive, hlists⟩ := mem_filter.mp hitem
  obtain ⟨hevent, hne⟩ := eventFor_of_active (hactives item hactive).2 (h.active item hactive) hlists
  rw [h.covered_iff_retires] at huncovered
  obtain ⟨events, hevents, hvisible⟩ := visible_of_not_retires huncovered h.no_burial h.no_set
    (mem_map.mpr ⟨item, hactive, hevent⟩)
  -- every item is a page of its own, so any items of the history can be applied again
  obtain ⟨items, hitems, rfl⟩ := exists_map_eq hevents
  have hsingle (xs : List EventItem) : (xs.map fun x => [x]).flatten = xs := by
    rw [← flatMap_def]
    exact flatMap_singleton' xs
  have hagain : ∀ page ∈ items.map (fun x => [x]), page ∈ feed.map fun x => [x] := by
    intro page hpage
    obtain ⟨x, hx, rfl⟩ := mem_map.mp hpage
    exact mem_map.mpr ⟨x, (hactives x (hitems x hx)).1, rfl⟩
  have hempty : Store.empty.listings name = [] := rfl
  obtain ⟨t, ht, hshows⟩ := h.applyPages_shows (hsingle feed) hagain hempty
  rw [hsingle items] at hshows
  obtain ⟨l, hl⟩ := exists_mem_of_ne_nil _ hne
  obtain ⟨hmem, hlactive⟩ := (hshows.mem_visible l).mpr ⟨_, hvisible, hl⟩
  refine ⟨_, _, t, hsingle feed, hagain, ht, surfaces_iff.mpr ⟨now, l, hmem, hlactive, ?_⟩⟩
  rw [((eventFor_set hevent).2.2.2 l hl).2.2]
  exact hunexpired

/-- What surfaces was listed by the history, can be served and is not covered. -/
theorem exists_of_surfaces {pages again : List (List EventItem)} (hpages : pages.flatten = feed)
    (hagain : ∀ page ∈ again, page ∈ pages) {t : Store} (hs : s.listings name = [])
    (ht : applyPages P opts s (pages ++ again) = .ok t) (hsurfaces : t.Surfaces E name) :
    (∃ item ∈ actives.filter (·.lists P opts), ∃ now, Unexpired E now item.expiresAt) ∧
      ¬Covered (actives.filter (·.lists P opts)) (deprecations ++ [revocation]) := by
  obtain ⟨t', ht', hshows⟩ := h.applyPages_shows hpages hagain hs
  rw [ht] at ht'
  cases ht'
  obtain ⟨now, l, hl, hlactive, hunexpired⟩ := surfaces_iff.mp hsurfaces
  obtain ⟨content, hvisible, hcontent⟩ := (hshows.mem_visible l).mp ⟨hl, hlactive⟩
  have hagainFeed (e : Event String (List Listing)) (he : e ∈ again.flatten.map (eventFor P opts name)) :
      e ∈ feed.map (eventFor P opts name) := by
    obtain ⟨item, hitem, rfl⟩ := mem_map.mp he
    obtain ⟨page, hpage, hitem⟩ := mem_flatten.mp hitem
    refine mem_map_of_mem ?_
    rw [← hpages]
    exact mem_flatten.mpr ⟨page, hagain page hpage, hitem⟩
  constructor
  · rcases run_visible hvisible with hnothing | ⟨a, hmem⟩
    · cases hnothing
    · have hfeedSet : .set a content ∈ feed.map (eventFor P opts name) := by
        rcases mem_append.mp hmem with hfirst | hagain
        · rw [← map_append] at hfirst
          obtain ⟨item, hitem, hevent⟩ := mem_map.mp hfirst
          exact mem_map.mpr ⟨item, (h.mem_feed item hitem).1, hevent⟩
        · exact hagainFeed _ hagain
      obtain ⟨item, hitem, hevent⟩ := h.exists_of_set hfeedSet
      refine ⟨item, hitem, now, ?_⟩
      rw [← ((eventFor_set hevent).2.2.2 l hcontent).2.2]
      exact hunexpired
  · intro hcovered
    have hagainActive (a : String) (x : List Listing) (hmem : .set a x ∈ again.flatten.map (eventFor P opts name)) :
        .set a x ∈ actives.map (eventFor P opts name) := by
      obtain ⟨item, hitem, hevent⟩ := h.exists_of_set (hagainFeed _ hmem)
      exact mem_map.mpr ⟨item, (mem_filter.mp hitem).1, hevent⟩
    have hgone := (h.covered_iff_retires.mp hcovered).visible_eq_none h.no_burial h.no_set hagainActive
    rw [hgone] at hvisible
    cases hvisible

end Tells

end Retirement

/-! ### A clock that goes back -/

namespace Sample

def engine : Engine where
  isMatch _ _ := true
  rank _ _ := 0
  rfc3339 _ := "2025-06-01T00:00:00Z"

theorem feed_tells : Tells primitives options feed name (feed.take 2) []
    (item "log-3" .agentRevoked "2025-03-01T00:00:00Z") where
  active := by decide +kernel
  deprecated := by decide +kernel
  revoked := rfl
  distinct := feed_chronological.distinct
  projects := feed_projects
  events := by decide +kernel

def registered : EventItem := item "log-1" .agentRegistered "2025-01-01T00:05:00Z"

/-- The producer's clock went back by a second. -/
def revokedEarlier : EventItem := item "log-2" .agentRevoked "2025-01-01T00:04:59Z"

theorem stepBack_tells : Tells primitives options [registered, revokedEarlier] name [registered] [] revokedEarlier where
  active := by decide +kernel
  deprecated := by decide +kernel
  revoked := rfl
  distinct := by decide +kernel
  projects := projects_of_isOk (by decide +kernel)
  events := by decide +kernel

end Sample

open Sample

end AgentNameService.Finder
