/-
Purpose: Whether the catalog shows the last event of a name.  An event replaces the rows of its name through the group of its
  entries, so an event without entries replaces nothing, and events of one page that share a log id are replaced together.
  In every other case the rows are those of the last event.
Source: internal/adapter/store/sqlitefinder/apply.go, internal/finder/project/project.go, internal/finder/poller/poller.go
Trusted boundary: none
-/
import AgentNameService.Finder.Revocation

namespace AgentNameService.Finder

open List Except

variable {entries : List ProjectedEntry}

/-! ### The last event of a name -/

/-- The entries an item projects. -/
def entriesOf (P : Primitives) (opts : Options) (item : EventItem) : List ProjectedEntry :=
  match fromEvent P item opts with
  | .ok projection => projection.entries
  | .error _ => []

/-- The discoverable rows of the item's name are the projection of the item: each row is one of its entries, and each type
and URL it projects has one row, unless it has expired. -/
structure Store.Snapshot (P : Primitives) (opts : Options) (E : Engine) (now : Int) (s : Store) (item : EventItem) : Prop where
  projected : ∀ l ∈ s.discoverable E now, l.ansName = item.ansName → ∃ pe ∈ entriesOf P opts item, l = Listing.ofEntry pe
  listed : ∀ pe ∈ entriesOf P opts item, Unexpired E now pe.expiresAt →
    ∃! l, l ∈ s.discoverable E now ∧ l.ansName = item.ansName ∧ (l.type, l.url) = pe.place

/-- Events of one name that register or renew it, in pages. -/
structure Renews (P : Primitives) (opts : Options) (name : String) (pages : List (List EventItem)) : Prop where
  projects : ∀ page ∈ pages, ∀ item ∈ page, Projects P opts item
  active : ∀ page ∈ pages, ∀ item ∈ page, item.isActive = true
  ansName : ∀ page ∈ pages, ∀ item ∈ page, item.ansName = name

/-- The log ids of the items of a page that have entries, in the order in which they first appear. -/
def listedLogIDs (P : Primitives) (opts : Options) (page : List EventItem) : List String :=
  ((page.filter (·.lists P opts)).map EventItem.logID).eraseDups

/-- When the last event takes the place of all earlier ones.  It has entries, or no event has.  If an earlier item of its
page with entries has its log id, then no other log id has first appeared since, and what that item projects is projected by
the last event as well. -/
structure Settles (P : Primitives) (opts : Options) (earlier : List (List EventItem)) (page : List EventItem)
    (last : EventItem) : Prop where
  lists : last.lists P opts = true ∨ ∀ item ∈ earlier.flatten ++ page, item.lists P opts = false
  newest : last.logID ∈ listedLogIDs P opts page → (listedLogIDs P opts page).getLast? = some last.logID
  places : ∀ item ∈ page, item.logID = last.logID → ∀ pe ∈ entriesOf P opts item,
    ∃ pe' ∈ entriesOf P opts last, pe'.place = pe.place

/-! ### Entries without repetition -/

/-- Every entry finds its place taken. -/
theorem exists_place_dedupByTypeURL {pe : ProjectedEntry} (h : pe ∈ entries) :
    ∃ x ∈ dedupByTypeURL entries, x.place = pe.place := by
  induction entries using reverseRecOn with
  | nil => cases h
  | append_singleton entries last ih =>
    rw [dedupByTypeURL_concat]
    simp only [mem_putByTypeURL]
    rcases mem_append.mp h with hold | hnew
    · obtain ⟨x, hx, hplace⟩ := ih hold
      by_cases hsame : x.place = last.place
      · exact ⟨last, .inl rfl, hsame.symm.trans hplace⟩
      · exact ⟨x, .inr ⟨hx, hsame⟩, hplace⟩
    · exact ⟨last, .inl rfl, by rw [mem_singleton.mp hnew]⟩

/-- The last entries win the places they have. -/
theorem mem_of_mem_dedupByTypeURL_append {as bs : List ProjectedEntry} {x : ProjectedEntry}
    (h : x ∈ dedupByTypeURL (as ++ bs)) (hplace : ∃ b ∈ bs, b.place = x.place) : x ∈ bs := by
  induction bs using reverseRecOn with
  | nil =>
    obtain ⟨b, hb, _⟩ := hplace
    cases hb
  | append_singleton bs last ih =>
    rw [← append_assoc, dedupByTypeURL_concat] at h
    rcases mem_putByTypeURL.mp h with rfl | ⟨hold, hother⟩
    · exact mem_append_right _ mem_cons_self
    · obtain ⟨b, hb, hsame⟩ := hplace
      rcases mem_append.mp hb with hb | hb
      · exact mem_append_left _ (ih hold ⟨b, hb, hsame⟩)
      · rw [mem_singleton.mp hb] at hsame
        exact absurd hsame.symm hother

/-! ### Groups of a page of one name -/

section Pages

variable {P : Primitives} {opts : Options} {name : String} {page : List EventItem} {item last : EventItem} {s t : Store}
variable {rows : List Listing} {pages : List (List EventItem)}

theorem lists_iff : item.lists P opts = true ↔ entriesOf P opts item ≠ [] := by
  unfold EventItem.lists groupOf entriesOf
  cases fromEvent P item opts with
  | error text => simp [Except.toOption]
  | ok projection =>
    cases hentries : projection.entries <;> simp [Except.toOption, EventGroup.ofEntries, hentries]

theorem mem_entriesOf {pe : ProjectedEntry} (h : pe ∈ entriesOf P opts item) (hactive : item.isActive = true) :
    ∃ entry, pe = wrap item .active entry := by
  unfold entriesOf at h
  split at h
  · rename_i projection hprojection
    obtain ⟨lifecycle, entry, hlifecycle, rfl⟩ := fromEvent_entries hprojection h
    rw [of_decide_eq_true hactive] at hlifecycle
    cases hlifecycle
    exact ⟨entry, rfl⟩
  · cases h

theorem projectItems_entries {items : List EventItem} {projections : List Projection}
    (h : projectItems P opts items = .ok projections) :
    projections.flatMap Projection.entries = items.flatMap (entriesOf P opts) := by
  induction items generalizing projections with
  | nil =>
    cases h
    rfl
  | cons item rest ih =>
    obtain ⟨projection, more, hprojection, hmore, rfl⟩ := projectItems_cons_ok.mp h
    have hentries : entriesOf P opts item = projection.entries := by
      unfold entriesOf
      rw [hprojection]
    rw [flatMap_cons, flatMap_cons, ih hmore, hentries]

/-- The groups of a page. -/
def groupsOf (P : Primitives) (opts : Options) (page : List EventItem) : List EventGroup :=
  groupByEvent (page.flatMap (entriesOf P opts))

/-- A group of active entries of one name. -/
structure EventGroup.Lists (g : EventGroup) (name : String) : Prop where
  ansName : ∀ pe ∈ g.entries, pe.ansName = name
  active : ∀ pe ∈ g.entries, pe.lifecycle = .active

/-- What is known of the groups of a page of one name: each log id that has entries has one, with just these entries. -/
structure Grouped (P : Primitives) (opts : Options) (name : String) (page : List EventItem) : Prop where
  lists : ∀ g ∈ groupsOf P opts page, g.Lists name
  logIDs : (groupsOf P opts page).map (fun g => g.first.logID) = listedLogIDs P opts page
  entries : ∀ g ∈ groupsOf P opts page, ∀ pe, pe ∈ g.entries ↔
    ∃ item ∈ page, item.logID = g.first.logID ∧ pe ∈ entriesOf P opts item

theorem listedLogIDs_concat (page : List EventItem) (item : EventItem) : listedLogIDs P opts (page ++ [item]) =
    if item.lists P opts = true ∧ item.logID ∉ listedLogIDs P opts page then listedLogIDs P opts page ++ [item.logID]
    else listedLogIDs P opts page := by
  unfold listedLogIDs
  rw [filter_append, map_append, eraseDups_append]
  generalize (page.filter (·.lists P opts)).map EventItem.logID = logIDs
  cases hlists : item.lists P opts with
  | false => simp [hlists, removeAll]
  | true => by_cases hold : item.logID ∈ logIDs <;> simp [hlists, hold, removeAll, eraseDups_cons]

theorem mem_listedLogIDs {logID : String} : logID ∈ listedLogIDs P opts page ↔
    ∃ item ∈ page, item.logID = logID ∧ entriesOf P opts item ≠ [] := by
  unfold listedLogIDs
  simp only [mem_eraseDups, mem_map, mem_filter, lists_iff]
  constructor
  · rintro ⟨item, ⟨hitem, hentries⟩, hlogID⟩
    exact ⟨item, hitem, hlogID, hentries⟩
  · rintro ⟨item, hitem, hlogID, hentries⟩
    exact ⟨item, ⟨hitem, hentries⟩, hlogID⟩

/-- The entries of the items of a page with a log id. -/
def entriesUnder (P : Primitives) (opts : Options) (page : List EventItem) (logID : String) : List ProjectedEntry :=
  (page.filter (·.logID = logID)).flatMap (entriesOf P opts)

theorem entriesUnder_concat {logID : String} : entriesUnder P opts (page ++ [item]) logID =
    entriesUnder P opts page logID ++ if item.logID = logID then entriesOf P opts item else [] := by
  unfold entriesUnder
  rw [filter_append, flatMap_append]
  split <;> simp [*]

theorem mem_entriesUnder {logID : String} {pe : ProjectedEntry} : pe ∈ entriesUnder P opts page logID ↔
    ∃ item ∈ page, item.logID = logID ∧ pe ∈ entriesOf P opts item := by
  simp [entriesUnder, and_assoc]

theorem entriesUnder_eq_nil {logID : String} (h : logID ∉ listedLogIDs P opts page) : entriesUnder P opts page logID = [] := by
  rw [eq_nil_iff_forall_not_mem]
  intro pe hpe
  obtain ⟨item, hitem, hlogID, hentry⟩ := mem_entriesUnder.mp hpe
  exact h (mem_listedLogIDs.mpr ⟨item, hitem, hlogID, ne_nil_of_mem hentry⟩)

/-- Each log id that has entries has one group, with these entries. -/
theorem groupsOf_spec (hactive : ∀ item ∈ page, item.isActive = true) (hname : ∀ item ∈ page, item.ansName = name) :
    (groupsOf P opts page).map (fun g => g.first.logID) = listedLogIDs P opts page ∧
      ∀ g ∈ groupsOf P opts page, g.entries = entriesUnder P opts page g.first.logID := by
  induction page using reverseRecOn with
  | nil => exact ⟨rfl, forall_mem_nil _⟩
  | append_singleton page item ih =>
    obtain ⟨hlogIDs, hentries⟩ := ih (fun x hx => hactive x (mem_append_left _ hx))
      fun x hx => hname x (mem_append_left _ hx)
    have hitem : item ∈ page ++ [item] := mem_append_right _ mem_cons_self
    let key (logID : String) := name ++ "\x00" ++ logID ++ "\x00" ++ Lifecycle.active.text
    have hkeys (x : EventItem) (hx : x ∈ page ++ [item]) (pe : ProjectedEntry) (hpe : pe ∈ entriesOf P opts x) :
        groupKey pe = key x.logID := by
      obtain ⟨entry, rfl⟩ := mem_entriesOf hpe (hactive x hx)
      rw [groupKey, wrap, hname x hx]
    have hgroupKey (g : EventGroup) (hg : g ∈ groupsOf P opts page) :
        groupKey g.first = key item.logID ↔ g.first.logID = item.logID := by
      have hfirst : g.first ∈ g.entries := mem_cons_self
      rw [hentries g hg] at hfirst
      obtain ⟨x, hx, hlogID, hpe⟩ := mem_entriesUnder.mp hfirst
      rw [hkeys x (mem_append_left _ hx) _ hpe, hlogID]
      constructor
      · intro hsame
        have hchars := congrArg String.toList hsame
        simp only [key, String.toList_append, append_assoc, append_cancel_left_eq] at hchars
        exact String.toList_inj.mp (append_cancel_right hchars)
      · exact congrArg key
    have hfold : groupsOf P opts (page ++ [item]) = (entriesOf P opts item).foldl addToGroups (groupsOf P opts page) := by
      simp [groupsOf, groupByEvent, foldl_append]
    rw [hfold, listedLogIDs_concat]
    by_cases hknown : item.logID ∈ listedLogIDs P opts page
    · obtain ⟨g, hg, hsame⟩ := mem_map.mp (hlogIDs ▸ hknown)
      rw [foldl_addToGroups_known ⟨g, hg, (hgroupKey g hg).mpr hsame⟩ (hkeys item hitem), if_neg fun h => h.2 hknown,
        ← hlogIDs, map_map]
      refine ⟨map_congr_left fun g _ => by simp only [Function.comp_apply]; split <;> rfl, ?_⟩
      intro g hg
      obtain ⟨old, hold, rfl⟩ := mem_map.mp hg
      simp only [hgroupKey old hold]
      split
      · rename_i hsame
        rw [entriesUnder_concat, if_pos hsame.symm, ← hentries old hold]
        rfl
      · rename_i hother
        rw [entriesUnder_concat, if_neg (Ne.symm hother), append_nil, hentries old hold]
    · have hother (g : EventGroup) (hg : g ∈ groupsOf P opts page) : item.logID ≠ g.first.logID :=
        fun hsame => hknown (hlogIDs ▸ mem_map.mpr ⟨g, hg, hsame.symm⟩)
      have hold (g : EventGroup) (hg : g ∈ groupsOf P opts page) :
          g.entries = entriesUnder P opts (page ++ [item]) g.first.logID := by
        rw [entriesUnder_concat, if_neg (hother g hg), append_nil, hentries g hg]
      rw [foldl_addToGroups_event _ (fun g hg hsame => hother g hg ((hgroupKey g hg).mp hsame).symm) (hkeys item hitem),
        map_append, hlogIDs]
      cases hes : entriesOf P opts item with
      | nil =>
        rw [if_neg fun h => lists_iff.mp h.1 hes]
        exact ⟨append_nil _, fun g hg => hold g (by simpa [EventGroup.ofEntries] using hg)⟩
      | cons first rest =>
        have hfirst : first.logID = item.logID := by
          obtain ⟨_, rfl⟩ := mem_entriesOf (hes ▸ mem_cons_self) (hactive item hitem)
          rfl
        rw [if_pos ⟨lists_iff.mpr (hes ▸ cons_ne_nil _ _), hknown⟩, ← hfirst]
        refine ⟨rfl, forall_mem_append.mpr ⟨hold, forall_mem_singleton.mpr ?_⟩⟩
        rw [entriesUnder_concat, if_pos hfirst.symm, hes, entriesUnder_eq_nil (hfirst ▸ hknown)]
        rfl

theorem grouped (hactive : ∀ item ∈ page, item.isActive = true) (hname : ∀ item ∈ page, item.ansName = name) :
    Grouped P opts name page := by
  obtain ⟨hlogIDs, hentries⟩ := groupsOf_spec hactive hname
  have hmem (g : EventGroup) (hg : g ∈ groupsOf P opts page) (pe : ProjectedEntry) : pe ∈ g.entries ↔
      ∃ item ∈ page, item.logID = g.first.logID ∧ pe ∈ entriesOf P opts item := by
    rw [hentries g hg, mem_entriesUnder]
  have hwrap (g : EventGroup) (hg : g ∈ groupsOf P opts page) (pe : ProjectedEntry) (hpe : pe ∈ g.entries) :
      pe.ansName = name ∧ pe.lifecycle = .active := by
    obtain ⟨item, hitem, _, hentry⟩ := (hmem g hg pe).mp hpe
    obtain ⟨entry, rfl⟩ := mem_entriesOf hentry (hactive item hitem)
    exact ⟨hname item hitem, rfl⟩
  exact ⟨fun g hg => ⟨fun pe hpe => (hwrap g hg pe hpe).1, fun pe hpe => (hwrap g hg pe hpe).2⟩, hlogIDs, hmem⟩

/-! ### The rows of the name -/

/-- The rows of the name after some groups; the last one replaces what was there. -/
def rowsAfterGroups (groups : List EventGroup) (rows : List Listing) : List Listing :=
  match groups.getLast? with
  | none => rows
  | some g => (dedupByTypeURL g.entries).map Listing.ofEntry

/-- The rows of the name after a page. -/
def rowsAfterPage (P : Primitives) (opts : Options) (page : List EventItem) (rows : List Listing) : List Listing :=
  rowsAfterGroups (groupsOf P opts page) rows

theorem rowsAfterGroups_cons (g : EventGroup) (rest : List EventGroup) (rows : List Listing) :
    rowsAfterGroups (g :: rest) rows = rowsAfterGroups rest ((dedupByTypeURL g.entries).map Listing.ofEntry) := by
  unfold rowsAfterGroups
  cases rest with
  | nil => rfl
  | cons next others =>
    rw [getLast?_cons_cons, getLast?_cons]

/-- The log id that appeared last has the rows. -/
theorem rowsAfterPage_eq (hactive : ∀ item ∈ page, item.isActive = true) (hname : ∀ item ∈ page, item.ansName = name) :
    rowsAfterPage P opts page rows = match (listedLogIDs P opts page).getLast? with
      | none => rows
      | some logID => (dedupByTypeURL (entriesUnder P opts page logID)).map Listing.ofEntry := by
  obtain ⟨hlogIDs, hentries⟩ := groupsOf_spec hactive hname
  unfold rowsAfterPage rowsAfterGroups
  rw [← hlogIDs, getLast?_map]
  cases hlast : (groupsOf P opts page).getLast? with
  | none => rfl
  | some g => simp only [Option.map_some, hentries g (mem_of_getLast? hlast)]

theorem applyGroups_lists {groups : List EventGroup} (hgroups : ∀ g ∈ groups, g.Lists name) (s : Store)
    (hactive : ∀ l ∈ s.listings name, l.lifecycle = .active) :
    ∃ report t, s.applyGroups groups = .ok (report, t) ∧ t.listings name = rowsAfterGroups groups (s.listings name) := by
  induction groups generalizing s with
  | nil => exact ⟨[], s, rfl, rfl⟩
  | cons g rest ih =>
    have hg := hgroups g mem_cons_self
    have hgname : g.ansName = name := hg.ansName g.first mem_cons_self
    have hlifecycle : g.lifecycle = .active := hg.active g.first mem_cons_self
    obtain ⟨t, ht, _, hlistings⟩ := s.replaceActiveSet_ok fun pe hpe => (hg.ansName pe hpe).trans hgname.symm
    have hclear : s.tombstonedAtOrAfter g.ansName g.createdAt = false := by
      rw [← Bool.not_eq_true, Store.tombstonedAtOrAfter_eq, hgname, any_eq_true]
      rintro ⟨l, hl, hburied⟩
      exact (of_decide_eq_true hburied).1 (hactive l hl)
    have hrows : t.listings name = (dedupByTypeURL g.entries).map Listing.ofEntry := by
      rw [hlistings, if_pos ⟨hgname.symm, hclear⟩]
    have htactive : ∀ l ∈ t.listings name, l.lifecycle = .active := by
      rw [hrows]
      intro l hl
      obtain ⟨pe, _, rfl⟩ := mem_map.mp hl
      rfl
    obtain ⟨report, u, hu, hlast⟩ := ih (fun x hx => hgroups x (mem_cons_of_mem _ hx)) t htactive
    refine ⟨report, u, ?_, ?_⟩
    · rw [Store.applyGroups, Store.applyGroup, hlifecycle]
      simp only [ht, bind_eq_ok_iff, pure_eq_ok_iff]
      exact ⟨([], t), ⟨t, rfl, rfl⟩, (report, u), hu, rfl⟩
    · rw [hlast, hrows, rowsAfterGroups_cons]

theorem applyPage_lists (hprojects : ∀ item ∈ page, Projects P opts item) (hpage : Grouped P opts name page)
    (hactive : ∀ l ∈ s.listings name, l.lifecycle = .active) :
    ∃ applied report t, applyPage P opts s ⟨page, ""⟩ = .ok (applied, report, t) ∧
      t.listings name = rowsAfterPage P opts page (s.listings name) := by
  obtain ⟨projections, hprojections⟩ := projectItems_ok_iff.mpr hprojects
  obtain ⟨report, t, ht, hrows⟩ := applyGroups_lists hpage.lists s hactive
  refine ⟨(projections.flatMap Projection.entries).length, report, t, ?_, hrows⟩
  unfold applyPage
  rw [hprojections]
  have happly : s.apply (projections.flatMap Projection.entries) = .ok (report, t) := by
    rw [projectItems_entries hprojections]
    exact ht
  simp only [bind_eq_ok_iff, withContext_eq_ok_iff, pure_eq_ok_iff]
  exact ⟨projections, rfl, (report, t), happly, rfl⟩

theorem rowsAfterPage_active (h : ∀ l ∈ rows, l.lifecycle = .active) :
    ∀ l ∈ rowsAfterPage P opts page rows, l.lifecycle = .active := by
  unfold rowsAfterPage rowsAfterGroups
  split
  · exact h
  · intro l hl
    obtain ⟨pe, _, rfl⟩ := mem_map.mp hl
    rfl

theorem Renews.grouped (h : Renews P opts name pages) (hpage : page ∈ pages) : Grouped P opts name page :=
  Finder.grouped (h.active page hpage) (h.ansName page hpage)

theorem Renews.mono {pages' : List (List EventItem)} (h : Renews P opts name pages)
    (hmem : ∀ page ∈ pages', page ∈ pages) : Renews P opts name pages' where
  projects page hpage := h.projects page (hmem page hpage)
  active page hpage := h.active page (hmem page hpage)
  ansName page hpage := h.ansName page (hmem page hpage)

theorem applyPages_lists (h : Renews P opts name pages) (hactive : ∀ l ∈ s.listings name, l.lifecycle = .active) :
    ∃ t, applyPages P opts s pages = .ok t ∧
      t.listings name = pages.foldl (fun rows page => rowsAfterPage P opts page rows) (s.listings name) ∧
      ∀ l ∈ t.listings name, l.lifecycle = .active := by
  induction pages generalizing s with
  | nil => exact ⟨s, rfl, rfl, hactive⟩
  | cons page rest ih =>
    obtain ⟨applied, report, t, ht, hrows⟩ := applyPage_lists (h.projects page mem_cons_self)
      (h.grouped mem_cons_self) hactive
    obtain ⟨u, hu, hlistings, huactive⟩ := ih (h.mono fun x hx => mem_cons_of_mem _ hx)
      (hrows ▸ rowsAfterPage_active hactive)
    refine ⟨u, ?_, ?_, huactive⟩
    · rw [applyPages, ht]
      exact hu
    · rw [hlistings, hrows, foldl_cons]

theorem groupsOf_eq_nil_iff (hpage : Grouped P opts name page) :
    groupsOf P opts page = [] ↔ ∀ item ∈ page, item.lists P opts = false := by
  rw [← map_eq_nil_iff, hpage.logIDs, eq_nil_iff_forall_not_mem]
  constructor
  · intro h item hitem
    rw [← Bool.not_eq_true, lists_iff]
    exact fun hentries => h item.logID (mem_listedLogIDs.mpr ⟨item, hitem, rfl, hentries⟩)
  · intro h logID hlogID
    obtain ⟨item, hitem, _, hentries⟩ := mem_listedLogIDs.mp hlogID
    rw [← lists_iff, h item hitem] at hentries
    cases hentries

theorem rowsAfterPage_eq_nil_iff (hpage : Grouped P opts name page) :
    rowsAfterPage P opts page rows = [] ↔ rows = [] ∧ ∀ item ∈ page, item.lists P opts = false := by
  rw [← groupsOf_eq_nil_iff hpage]
  unfold rowsAfterPage rowsAfterGroups
  cases hlast : (groupsOf P opts page).getLast? with
  | none => simp [getLast?_eq_none_iff.mp hlast]
  | some g =>
    have hne : groupsOf P opts page ≠ [] := ne_nil_of_mem (mem_of_getLast? hlast)
    have hentries : dedupByTypeURL g.entries ≠ [] :=
      fun hnil => absurd ((dedupByTypeURL_spec g.entries).2.2 hnil) (cons_ne_nil _ _)
    simp [hne, hentries]

theorem foldl_rowsAfterPage_eq_nil_iff (h : Renews P opts name pages) :
    pages.foldl (fun rows page => rowsAfterPage P opts page rows) rows = [] ↔
      rows = [] ∧ ∀ item ∈ pages.flatten, item.lists P opts = false := by
  induction pages generalizing rows with
  | nil => simp
  | cons page rest ih =>
    rw [foldl_cons, ih (h.mono fun x hx => mem_cons_of_mem _ hx),
      rowsAfterPage_eq_nil_iff (h.grouped mem_cons_self), flatten_cons]
    simp only [forall_mem_append, and_assoc]

/-! ### When the rows are those of the last event -/

/-- The rows are the projection of an item. -/
structure Mirrors (P : Primitives) (opts : Options) (item : EventItem) (rows : List Listing) : Prop where
  projected : ∀ l ∈ rows, ∃ pe ∈ entriesOf P opts item, l = Listing.ofEntry pe
  listed : ∀ pe ∈ entriesOf P opts item, ∃ l ∈ rows, (l.type, l.url) = pe.place

theorem mirrors_dedup (hcovered : ∀ pe ∈ entries, ∃ pe' ∈ entriesOf P opts item, pe'.place = pe.place) :
    Mirrors P opts item ((dedupByTypeURL (entries ++ entriesOf P opts item)).map Listing.ofEntry) := by
  constructor
  · intro l hl
    obtain ⟨x, hx, rfl⟩ := mem_map.mp hl
    refine ⟨x, mem_of_mem_dedupByTypeURL_append hx ?_, rfl⟩
    rcases mem_append.mp ((dedupByTypeURL_spec _).2.1 x hx) with hold | hnew
    · exact hcovered x hold
    · exact ⟨x, hnew, rfl⟩
  · intro pe hpe
    obtain ⟨x, hx, hplace⟩ := exists_place_dedupByTypeURL (mem_append_right entries hpe)
    exact ⟨Listing.ofEntry x, mem_map_of_mem hx, hplace⟩

/-- Without entries an item replaces nothing. -/
theorem mirrors_iff_of_silent {earlier : List (List EventItem)}
    (hrows : rows = [] ↔ ∀ item ∈ earlier.flatten, item.lists P opts = false) (hpage : Grouped P opts name page)
    (hall : Grouped P opts name (page ++ [last])) (hempty : entriesOf P opts last = []) :
    Mirrors P opts last (rowsAfterPage P opts (page ++ [last]) rows) ↔ Settles P opts earlier page last := by
  have hnone : last.lists P opts = false := by
    rw [← Bool.not_eq_true, lists_iff]
    exact fun h => h hempty
  have hmirrors : Mirrors P opts last (rowsAfterPage P opts (page ++ [last]) rows) ↔
      rowsAfterPage P opts (page ++ [last]) rows = [] := by
    constructor
    · intro h
      rw [eq_nil_iff_forall_not_mem]
      intro l hl
      obtain ⟨pe, hpe, _⟩ := h.projected l hl
      rw [hempty] at hpe
      cases hpe
    · intro h
      rw [h]
      exact ⟨nofun, fun pe hpe => by rw [hempty] at hpe; cases hpe⟩
  rw [hmirrors, rowsAfterPage_eq_nil_iff hall, hrows, forall_mem_append, forall_mem_singleton]
  constructor
  · rintro ⟨hearlier, hnothing, _⟩
    refine ⟨.inr (forall_mem_append.mpr ⟨hearlier, hnothing⟩), ?_, ?_⟩
    · intro hmem
      rw [← hpage.logIDs, (groupsOf_eq_nil_iff hpage).mpr hnothing] at hmem
      cases hmem
    · intro item hitem _ pe hpe
      have hlists := lists_iff.mpr (ne_nil_of_mem hpe)
      rw [hnothing item hitem] at hlists
      cases hlists
  · rintro ⟨hlists | hnothing, _, _⟩
    · rw [hnone] at hlists
      cases hlists
    · rw [forall_mem_append] at hnothing
      exact ⟨hnothing.1, hnothing.2, hnone⟩

/-- The rows after a page are the projection of its last item just where that item settles the name. -/
theorem mirrors_iff_settles {earlier : List (List EventItem)}
    (hrows : rows = [] ↔ ∀ item ∈ earlier.flatten, item.lists P opts = false)
    (hactive : ∀ item ∈ page ++ [last], item.isActive = true) (hname : ∀ item ∈ page ++ [last], item.ansName = name) :
    Mirrors P opts last (rowsAfterPage P opts (page ++ [last]) rows) ↔ Settles P opts earlier page last := by
  have hlast : last ∈ page ++ [last] := mem_append_right _ mem_cons_self
  have hpage : Grouped P opts name page :=
    grouped (fun x hx => hactive x (mem_append_left _ hx)) fun x hx => hname x (mem_append_left _ hx)
  by_cases hempty : entriesOf P opts last = []
  · exact mirrors_iff_of_silent hrows hpage (grouped hactive hname) hempty
  have hlists : last.lists P opts = true := lists_iff.mpr hempty
  rw [rowsAfterPage_eq hactive hname, listedLogIDs_concat]
  by_cases hknown : last.logID ∈ listedLogIDs P opts page
  · -- the log id that appeared last is still the last one
    obtain ⟨newest, hnewest⟩ := Option.isSome_iff_exists.mp (getLast?_isSome.mpr (ne_nil_of_mem hknown))
    rw [if_neg fun h => h.2 hknown, hnewest]
    simp only [entriesUnder_concat]
    by_cases hsame : last.logID = newest
    · subst hsame
      rw [if_pos rfl]
      constructor
      · intro h
        refine ⟨.inl hlists, fun _ => hnewest, ?_⟩
        intro item hitem hlogID pe hpe
        have hpe' : pe ∈ entriesUnder P opts page last.logID := mem_entriesUnder.mpr ⟨item, hitem, hlogID, hpe⟩
        obtain ⟨x, hx, hplace⟩ := exists_place_dedupByTypeURL (mem_append_left (entriesOf P opts last) hpe')
        obtain ⟨pe', hpe', hrow⟩ := h.projected _ (mem_map_of_mem hx)
        exact ⟨pe', hpe', (congrArg (fun l : Listing => (l.type, l.url)) hrow).symm.trans hplace⟩
      · intro h
        apply mirrors_dedup
        intro pe hpe
        obtain ⟨item, hitem, hlogID, hentry⟩ := mem_entriesUnder.mp hpe
        exact h.places item hitem hlogID pe hentry
    · rw [if_neg hsame, append_nil]
      constructor
      · intro h
        obtain ⟨item, hitem, hlogID, hentries⟩ := mem_listedLogIDs.mp (mem_of_getLast? hnewest)
        obtain ⟨pe, hpe⟩ := exists_mem_of_ne_nil _ hentries
        obtain ⟨x, hx, _⟩ := exists_place_dedupByTypeURL (mem_entriesUnder.mpr ⟨item, hitem, hlogID, hpe⟩)
        obtain ⟨pe', hpe', hrow⟩ := h.projected _ (mem_map_of_mem hx)
        obtain ⟨item', hitem', hlogID', hentry⟩ := mem_entriesUnder.mp ((dedupByTypeURL_spec _).2.1 x hx)
        obtain ⟨_, rfl⟩ := mem_entriesOf hentry (hactive item' (mem_append_left _ hitem'))
        obtain ⟨_, rfl⟩ := mem_entriesOf hpe' (hactive last hlast)
        exact absurd ((congrArg Listing.logID hrow).symm.trans hlogID') hsame
      · intro h
        exact absurd (Option.some.inj ((h.newest hknown).symm.trans hnewest)) hsame
  · rw [if_pos ⟨hlists, hknown⟩, getLast?_concat]
    simp only [entriesUnder_concat, entriesUnder_eq_nil hknown, if_true]
    refine iff_of_true (mirrors_dedup nofun) ⟨.inl hlists, fun h => absurd h hknown, ?_⟩
    intro item hitem hlogID pe hpe
    exact absurd (mem_listedLogIDs.mpr ⟨item, hitem, hlogID, ne_nil_of_mem hpe⟩) hknown

/-! ### What is discoverable -/

/-- A clock at which nothing has expired. -/
def beforeAll : Engine where
  isMatch _ _ := true
  rank _ _ := 0
  rfc3339 _ := ""

theorem unexpired_beforeAll (expiresAt : String) : Unexpired beforeAll 0 expiresAt := by
  by_cases hempty : expiresAt = ""
  · exact .inl hempty
  · right
    change "" < expiresAt
    rw [String.lt_iff_toList_lt]
    cases hchars : expiresAt.toList with
    | nil => exact absurd (String.toList_inj.mp hchars) hempty
    | cons c rest => exact Lex.nil

/-- Rows of a name with one type and URL are one row. -/
theorem eq_of_same_key {l l' : Listing} (hl : l ∈ s.listings name) (hl' : l' ∈ s.listings name)
    (hplace : (l.type, l.url) = (l'.type, l'.url)) : l = l' := by
  obtain ⟨⟨r, hr, rfl⟩, hname⟩ := Store.mem_listings.mp hl
  obtain ⟨⟨r', hr', rfl⟩, hname'⟩ := Store.mem_listings.mp hl'
  have hkey : r.listing.key = r'.listing.key := by
    unfold Listing.key
    rw [hname, hname', hplace]
  rw [inj_on_of_nodup_map s.key_unique hr hr' hkey]

/-- The rows of a name are the projection of an item just where they are so at every time. -/
theorem snapshot_iff_mirrors (hactive : ∀ l ∈ s.listings name, l.lifecycle = .active) (hname : item.ansName = name)
    (hitem : item.isActive = true) :
    (∀ E now, s.Snapshot P opts E now item) ↔ Mirrors P opts item (s.listings name) := by
  have hmem (E : Engine) (now : Int) (l : Listing) : l ∈ s.discoverable E now ∧ l.ansName = name ↔
      l ∈ s.listings name ∧ Unexpired E now l.expiresAt := by
    rw [Store.mem_discoverable]
    constructor
    · rintro ⟨⟨⟨hl, _⟩, hunexpired⟩, rfl⟩
      exact ⟨hl, hunexpired⟩
    · rintro ⟨hl, hunexpired⟩
      have hl_name := (Store.mem_listings.mp hl).2
      exact ⟨⟨⟨hl_name ▸ hl, hactive l hl⟩, hunexpired⟩, hl_name⟩
  constructor
  · intro h
    constructor
    · intro l hl
      obtain ⟨hdiscoverable, hl_name⟩ := (hmem beforeAll 0 l).mpr ⟨hl, unexpired_beforeAll _⟩
      exact (h beforeAll 0).projected l hdiscoverable (hl_name.trans hname.symm)
    · intro pe hpe
      obtain ⟨l, ⟨hdiscoverable, hl_name, hplace⟩, _⟩ := (h beforeAll 0).listed pe hpe (unexpired_beforeAll _)
      exact ⟨l, ((hmem beforeAll 0 l).mp ⟨hdiscoverable, hl_name.trans hname⟩).1, hplace⟩
  · intro h E now
    constructor
    · intro l hl hl_name
      exact h.projected l ((hmem E now l).mp ⟨hl, hl_name.trans hname⟩).1
    · intro pe hpe hunexpired
      obtain ⟨l, hl, hplace⟩ := h.listed pe hpe
      obtain ⟨pe', hpe', rfl⟩ := h.projected l hl
      -- all entries of an item expire together
      have hexpires : (Listing.ofEntry pe').expiresAt = pe.expiresAt := by
        obtain ⟨_, rfl⟩ := mem_entriesOf hpe hitem
        obtain ⟨_, rfl⟩ := mem_entriesOf hpe' hitem
        rfl
      obtain ⟨hdiscoverable, hl_name⟩ := (hmem E now _).mpr ⟨hl, hexpires ▸ hunexpired⟩
      refine ⟨Listing.ofEntry pe', ⟨hdiscoverable, hl_name.trans hname.symm, hplace⟩, ?_⟩
      rintro other ⟨hother, hother_name, hother_place⟩
      exact eq_of_same_key ((hmem E now other).mp ⟨hother, hother_name.trans hname⟩).1 hl (hother_place.trans hplace.symm)

end Pages

/-- Whether an active event is accepted does not depend on its endpoints. -/
theorem Projects.with_endpoints {P : Primitives} {opts : Options} {item : EventItem} (h : Projects P opts item)
    (hactive : item.isActive = true) (endpoints : List AgentEndpoint) : Projects P opts { item with endpoints } := by
  obtain ⟨projection, h⟩ := h
  have hlifecycle : lifecycleOf item.eventType = some .active := of_decide_eq_true hactive
  rw [fromEvent_eq, hlifecycle] at h
  obtain ⟨_, hkeys, hrest⟩ := bind_eq_ok_iff.mp h
  obtain ⟨_, hvalid, _⟩ := bind_eq_ok_iff.mp hrest
  refine ⟨projectActive P { item with endpoints } opts, ?_⟩
  rw [fromEvent_eq]
  simp only [hlifecycle, bind_eq_ok_iff, pure_eq_ok_iff]
  exact ⟨(), hkeys, (), hvalid, trivial⟩

namespace Sample

theorem registered_projects : Projects primitives options (item "log-1" .agentRegistered "2025-01-01T00:00:00Z") :=
  feed_projects _ mem_cons_self

theorem renewed_projects : Projects primitives options (item "log-2" .agentRenewed "2025-02-01T00:00:00Z") :=
  feed_projects _ (mem_cons_of_mem _ mem_cons_self)

/-- The agent is renewed with an endpoint that cannot be discovered. -/
def undiscoverable : EventItem :=
  { item "log-2" .agentRenewed "2025-02-01T00:00:00Z" with endpoints := [⟨"https://agent.example.com/api", "", .httpAPI, []⟩] }

end Sample

section Runs

open Sample

end Runs

end AgentNameService.Finder
