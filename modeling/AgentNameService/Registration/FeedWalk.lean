/-
Purpose: A consumer that reads the whole feed, page by page, while nothing is delivered.  A page is continued after the
  oldest row that has the log id of its last row, so the walk is exact just where no page ends on a repeated log id; where
  one does, the consumer is sent back, and it may never get to the end.
Source: internal/adapter/store/sqlite/feed.go, internal/ra/service/feed.go, internal/finder/poller/poller.go (RunOnce)
Trusted boundary: none
-/
import Mathlib.Data.List.Forall2
import AgentNameService.Registration.Feed

namespace AgentNameService.Registration

open List Except Table

/-! ### The consumer -/

/-- A delivered row under its id, and the item that was shown for it. -/
abbrev Received := (Nat × OutboxRow) × FeedEventItem

/-- Read page after page, one at each reading of the clock, until a page has no `LastLogID`.  There is no result if a call
fails or the readings run out before that. -/
def walk (feed : Feed) (s : Store) (limit : Int) : List Time → String → Option (List Received)
  | [], _ => none
  | now :: later, cursor =>
    match listEvents feed now s ⟨cursor, limit, ""⟩ with
    | .error _ => none
    | .ok page =>
      let received := (servedRows feed now s.outbox cursor limit).zip page.items
      if page.lastLogID = "" then some received
      else (walk feed s limit later page.lastLogID).map (received ++ ·)

/-- The delivered rows inside the retention window, in the order of their ids. -/
def served (feed : Feed) (now : Time) (s : Store) : List (Nat × OutboxRow) :=
  s.outbox.select (isServed (retentionFloorMs feed.retention now))

/-- After finitely many calls the consumer has every row once, in the order of the ids, with the item built from it. -/
def WalkExact (feed : Feed) (s : Store) (limit : Int) (clock : Nat → Time) : Prop :=
  ∃ calls received, walk feed s limit ((range calls).map clock) "" = some received ∧
    received.map (·.1) = served feed (clock 0) s ∧
    ∀ r ∈ received, buildFeedItem feed (feedRow s r.1.2) = .ok r.2

/-- No row leaves the retention window during the walk. -/
def Retained (feed : Feed) (s : Store) (clock : Nat → Time) : Prop :=
  ∀ k, served feed (clock k) s = served feed (clock 0) s

/-- The pages of a full walk end after every `size` rows and after the last row.  No row before such an end has the log id
of the row at the end, and an empty log id is at the end of the last page only. -/
def PagesEndApart (size : Nat) (rows : List (Nat × OutboxRow)) : Prop :=
  ∀ before row after, rows = before ++ row :: after → size ∣ before.length + 1 ∨ after = [] →
    if row.2.logID = some "" then after = [] else ∀ earlier ∈ before, earlier.2.logID ≠ row.2.logID

/-! ### Pages as parts of the served rows -/

/-- The row after which the feed continues. -/
def cursorID (rows : List (Nat × OutboxRow)) (cursor : String) : Nat :=
  if cursor = "" then 0 else ((rows.find? fun row => row.2.logID == some cursor).map (·.1)).getD 0

/-- The rows after the cursor. -/
def rowsAfter (rows : List (Nat × OutboxRow)) (cursor : String) : List (Nat × OutboxRow) :=
  rows.filter fun row => decide (cursorID rows cursor < row.1)

/-- The `LastLogID` of a page that is built from the rows. -/
def lastLogID (rows : List (Nat × OutboxRow)) : String := ((rows.getLast?).map fun row => row.2.logID.getD "").getD ""

section Pages

variable {feed : Feed} {s : Store} {now : Time} {limit : Int} {cursor : String} {rows before after : List (Nat × OutboxRow)}
  {row : Nat × OutboxRow} {logID : String}

theorem resolveCursor_served (t : Table OutboxRow) (cursor : String) (floor : Int) :
    resolveCursor t cursor floor = cursorID (t.select (isServed floor)) cursor := by
  unfold resolveCursor cursorID
  split
  · rfl
  · have hfind : (t.select (isServed floor)).find? (fun row => row.2.logID == some cursor) =
        t.first fun _ row => row.logID == some cursor && row.sentAt.isSome && decide (floor ≤ row.createdAt) := by
      unfold select first
      rw [find?_filter]
      congr 1
      funext row
      rw [Bool.eq_iff_iff]
      simp only [isServed, Bool.and_eq_true, decide_eq_true_eq, beq_iff_eq]
      constructor
      · rintro ⟨⟨⟨hsent, _⟩, hfloor⟩, hlogID⟩
        exact ⟨⟨hlogID, hsent⟩, hfloor⟩
      · rintro ⟨⟨hlogID, hsent⟩, hfloor⟩
        exact ⟨⟨⟨hsent, by rw [hlogID]; rfl⟩, hfloor⟩, hlogID⟩
    rw [hfind]
    split <;> simp_all

theorem servedRows_eq : servedRows feed now s.outbox cursor limit =
    (rowsAfter (served feed now s) cursor).take (eventsFeedLimit limit).toNat := by
  simp only [servedRows, page, rowsAfter, served, resolveCursor_served, select, filter_filter]
  congr 2
  funext row
  exact Bool.and_comm _ _

theorem served_increasing (feed : Feed) (now : Time) (s : Store) : (served feed now s).Pairwise fun x y => x.1 < y.1 :=
  (pairwise_map.mp s.outbox.increasing).filter _

theorem served_pos {row : Nat × OutboxRow} (h : row ∈ served feed now s) : 0 < row.1 :=
  (s.outbox.bounded row (mem_of_mem_filter h)).1

theorem served_logID {row : Nat × OutboxRow} (h : row ∈ served feed now s) : ∃ logID, row.2.logID = some logID := by
  have hserved := (mem_select.mp h).2
  simp only [isServed, Bool.and_eq_true] at hserved
  exact Option.isSome_iff_exists.mp hserved.1.2

/-- From the start, every row is after the cursor. -/
theorem rowsAfter_start (hpos : ∀ row ∈ rows, 0 < row.1) : rowsAfter rows "" = rows :=
  filter_eq_self.mpr fun row hrow => decide_eq_true (hpos row hrow)

/-- A log id continues after the oldest row that has it. -/
theorem cursorID_eq (hlogID : row.2.logID = some logID) (hnamed : logID ≠ "")
    (hapart : ∀ earlier ∈ before, earlier.2.logID ≠ row.2.logID) : cursorID (before ++ row :: after) logID = row.1 := by
  have hbefore : before.find? (fun row => row.2.logID == some logID) = none := by
    rw [find?_eq_none]
    intro earlier hearlier heq
    exact hapart earlier hearlier ((beq_iff_eq.mp heq).trans hlogID.symm)
  simp [cursorID, hnamed, find?_append, hbefore, hlogID]

theorem rowsAfter_eq (hincreasing : (before ++ row :: after).Pairwise fun x y => x.1 < y.1)
    (hcursor : cursorID (before ++ row :: after) logID = row.1) : rowsAfter (before ++ row :: after) logID = after := by
  obtain ⟨_, htail, hbefore⟩ := pairwise_append.mp hincreasing
  unfold rowsAfter
  rw [hcursor, filter_append, filter_eq_nil_iff.mpr, nil_append, filter_cons_of_neg, filter_eq_self]
  · intro later hlater
    exact decide_eq_true (rel_of_pairwise_cons htail hlater)
  · simp
  · intro earlier hearlier
    have hlt := hbefore earlier hearlier row mem_cons_self
    simp only [decide_eq_true_eq]
    omega

/-- A log id that an earlier row has leads back behind that row. -/
theorem mem_rowsAfter_of_repeated (hincreasing : (before ++ row :: after).Pairwise fun x y => x.1 < y.1)
    (hlogID : row.2.logID = some logID) (hnamed : logID ≠ "") {earlier : Nat × OutboxRow} (hearlier : earlier ∈ before)
    (hsame : earlier.2.logID = row.2.logID) : row ∈ rowsAfter (before ++ row :: after) logID := by
  have hfound : (before.find? fun row => row.2.logID == some logID).isSome = true := by
    rw [find?_isSome]
    exact ⟨earlier, hearlier, beq_iff_eq.mpr (hsame.trans hlogID)⟩
  obtain ⟨first, hfirst⟩ := Option.isSome_iff_exists.mp hfound
  have hcursor : cursorID (before ++ row :: after) logID = first.1 := by
    simp [cursorID, hnamed, find?_append, hfirst]
  have hlt : first.1 < row.1 :=
    (pairwise_append.mp hincreasing).2.2 first (mem_of_find?_eq_some hfirst) row mem_cons_self
  apply mem_filter.mpr
  exact ⟨mem_append_right _ mem_cons_self, decide_eq_true (hcursor ▸ hlt)⟩

end Pages

/-! ### One call -/

section Call

variable {feed : Feed} {s : Store} {now : Time} {later : List Time} {limit : Int} {cursor : String} {received : List Received}

/-- A page is built row by row. -/
theorem buildFeedItems_eq_ok_iff {rows : List FeedRow} {items : List FeedEventItem} : buildFeedItems feed rows = .ok items ↔
    Forall₂ (fun row item => buildFeedItem feed row = .ok item) rows items := by
  induction rows generalizing items with
  | nil => simp [buildFeedItems, eq_comm]
  | cons row rest ih =>
    simp only [buildFeedItems, bind_eq_ok_iff, withContext_eq_ok_iff, pure_eq_ok_iff, ih,
      forall₂_cons_left_iff]
    constructor
    · rintro ⟨item, hitem, others, hothers, rfl⟩
      exact ⟨item, others, hitem, hothers, rfl⟩
    · rintro ⟨item, others, hitem, hothers, rfl⟩
      exact ⟨item, hitem, others, hothers, rfl⟩

/-- What a consumer has got: the rows, each with the item built from it. -/
def Shows (feed : Feed) (s : Store) (rows : List (Nat × OutboxRow)) (received : List Received) : Prop :=
  received.map (·.1) = rows ∧ ∀ r ∈ received, buildFeedItem feed (feedRow s r.1.2) = .ok r.2

theorem Shows.append {rows rows' : List (Nat × OutboxRow)} {received' : List Received} (h : Shows feed s rows received)
    (h' : Shows feed s rows' received') : Shows feed s (rows ++ rows') (received ++ received') := by
  constructor
  · rw [map_append, h.1, h'.1]
  · intro r hr
    exact (mem_append.mp hr).elim (h.2 r) (h'.2 r)

theorem shows_zip {rows : List (Nat × OutboxRow)} {items : List FeedEventItem}
    (h : buildFeedItems feed (rows.map fun row => feedRow s row.2) = .ok items) : Shows feed s rows (rows.zip items) := by
  rw [buildFeedItems_eq_ok_iff, forall₂_map_left_iff, forall₂_iff_zip] at h
  constructor
  · exact map_fst_zip (Nat.le_of_eq h.1)
  · rintro ⟨row, item⟩ hmem
    exact h.2 hmem

/-- What one call gets is the next part of the rows after the cursor; the walk ends if its last row has no log id to
continue with, and goes on after that row otherwise. -/
theorem walk_cons_iff : walk feed s limit (now :: later) cursor = some received ↔
    ∃ page, page = (rowsAfter (served feed now s) cursor).take (eventsFeedLimit limit).toNat ∧
      ∃ items, buildFeedItems feed (page.map fun row => feedRow s row.2) = .ok items ∧
        (lastLogID page = "" ∧ received = page.zip items ∨
          lastLogID page ≠ "" ∧ ∃ more, walk feed s limit later (lastLogID page) = some more ∧
            received = page.zip items ++ more) := by
  rw [← servedRows_eq, exists_eq_left]
  have hlimit : ¬ eventsFeedLimit limit ≤ 0 := Int.not_le.mpr (eventsFeedLimit_pos limit)
  have hread : readFeed feed.retention now s ⟨cursor, eventsFeedLimit limit, ""⟩ =
      (servedRows feed now s.outbox cursor limit).map fun row => feedRow s row.2 := by
    simp only [readFeed, ne_eq, not_true_eq_false, if_false, hlimit]
    rfl
  rw [walk]
  cases hpage : listEvents feed now s ⟨cursor, limit, ""⟩ with
  | error e =>
    constructor
    · intro h
      cases h
    · rintro ⟨items, hitems, _⟩
      rw [listEvents, hread, hitems] at hpage
      cases hpage
  | ok page =>
    have hlast : page.lastLogID = lastLogID (servedRows feed now s.outbox cursor limit) := (listEvents_logIDs hpage).2
    have hbuilt : ∀ items, buildFeedItems feed ((servedRows feed now s.outbox cursor limit).map
        fun row => feedRow s row.2) = .ok items ↔ page.items = items := by
      intro items
      obtain ⟨built, hok, hpure⟩ := bind_eq_ok_iff.mp hpage
      obtain rfl := pure_eq_ok_iff.mp hpure
      rw [hread] at hok
      rw [hok, ok.injEq]
    simp only [hbuilt, exists_eq_left', hlast]
    split
    · rename_i hempty
      simp only [hempty, ne_eq, not_true_eq_false, false_and, or_false, true_and, Option.some.injEq, eq_comm]
    · rename_i hnamed
      simp only [hnamed, ne_eq, not_false_eq_true, false_and, false_or, true_and, Option.map_eq_some_iff]
      exact exists_congr fun more => and_congr_right fun _ => eq_comm

end Call

/-! ### The whole walk -/

section Walk

variable {feed : Feed} {s : Store} {limit : Int} {cursor : String} {readings : List Time} {size : Nat}
  {rows done rest page before after : List (Nat × OutboxRow)} {row : Nat × OutboxRow} {received : List Received}

/-- A page where rows are left, by its last row.  The next page starts where one can, unless nothing is left for it. -/
theorem exists_page (hsize : size = (eventsFeedLimit limit).toNat) (hlogIDs : ∀ row ∈ rows, ∃ logID, row.2.logID = some logID)
    (hsplit : rows = done ++ rest) (hdvd : size ∣ done.length ∨ rest = []) (hempty : rest ≠ []) :
    ∃ init last logID, rest.take size = init ++ [last] ∧ rows = (done ++ init) ++ last :: rest.drop size ∧
      last.2.logID = some logID ∧ lastLogID (rest.take size) = logID ∧
      (size ∣ (done ++ init).length + 1 ∨ rest.drop size = []) := by
  have hpos := eventsFeedLimit_pos limit
  have hne : rest.take size ≠ [] := by
    rw [ne_eq, take_eq_nil_iff, not_or]
    exact ⟨by omega, hempty⟩
  obtain ⟨init, last, hlast⟩ := eq_nil_or_concat' (rest.take size) |>.resolve_left hne
  have hrows : rows = (done ++ init) ++ last :: rest.drop size := by
    rw [hsplit, append_assoc, append_cons init, ← hlast, take_append_drop]
  obtain ⟨logID, hlogID⟩ := hlogIDs last (hrows ▸ mem_append_right _ mem_cons_self)
  refine ⟨init, last, logID, hlast, hrows, hlogID, ?_, ?_⟩
  · rw [lastLogID, hlast, getLast?_concat, Option.map_some, hlogID]
    rfl
  · have hlength := congrArg length hlast
    rw [length_take, length_append, length_singleton] at hlength
    rw [drop_eq_nil_iff, length_append]
    by_cases hfull : size ≤ rest.length
    · rw [Nat.min_eq_left hfull] at hlength
      exact .inl (by rw [Nat.add_assoc, ← hlength]; exact Nat.dvd_add (hdvd.resolve_right hempty) (Nat.dvd_refl _))
    · exact .inr (by omega)

/-- Of the rows of a page, only the last one is where a page ends. -/
theorem last_of_page_end (hle : page.length ≤ size) (hdvd : size ∣ done.length)
    (hrows : done ++ page ++ rest = before ++ row :: after) (hfrom : done.length ≤ before.length)
    (hbelow : before.length < done.length + page.length) (hend : size ∣ before.length + 1 ∨ after = []) :
    before.length + 1 = done.length + page.length := by
  rcases hend with hend | rfl
  · have hdiff : size ∣ before.length + 1 - done.length := Nat.dvd_sub hend hdvd
    have hsize := Nat.le_of_dvd (by omega) hdiff
    omega
  · have hlength := congrArg length hrows
    simp only [length_append, length_singleton] at hlength
    omega

/-- Where no page ends on a repeated log id, the consumer gets the rest of the rows. -/
theorem walk_of_apart (hdecode : ∀ row ∈ rows, ∃ inner, feed.decode row.2.payload = .ok inner)
    (hincreasing : rows.Pairwise fun x y => x.1 < y.1) (hlogIDs : ∀ row ∈ rows, ∃ logID, row.2.logID = some logID)
    (hsize : size = (eventsFeedLimit limit).toNat) (hapart : PagesEndApart size rows)
    (hreadings : ∀ now ∈ readings, served feed now s = rows) (hlong : rest.length < readings.length)
    (hsplit : rows = done ++ rest) (hafter : rowsAfter rows cursor = rest) (hdvd : size ∣ done.length ∨ rest = []) :
    ∃ received, walk feed s limit readings cursor = some received ∧ Shows feed s rest received := by
  -- the induction is on the calls; the rows that are left stand for the position
  induction readings generalizing done rest cursor with
  | nil => cases hlong
  | cons now later ih =>
    have hmem : ∀ row ∈ rest, row ∈ rows := fun row hrow => hsplit ▸ mem_append_right _ hrow
    obtain ⟨items, hitems⟩ : ∃ items, buildFeedItems feed ((rest.take size).map fun row => feedRow s row.2) = .ok items := by
      apply buildFeedItems_succeeds
      intro shown hshown
      obtain ⟨row, hrow, rfl⟩ := mem_map.mp hshown
      exact hdecode row (hmem row (mem_of_mem_take hrow))
    have hshows := shows_zip hitems
    have hpage : rest.take size = (rowsAfter (served feed now s) cursor).take (eventsFeedLimit limit).toNat := by
      rw [hreadings now mem_cons_self, hafter, hsize]
    by_cases hempty : rest = []
    · subst hempty
      rw [take_nil] at hitems hshows hpage
      exact ⟨_, walk_cons_iff.mpr ⟨[], hpage, items, hitems, .inl ⟨rfl, rfl⟩⟩, hshows⟩
    obtain ⟨init, last, logID, hlast, hrows, hlogID, hlastLogID, hend⟩ := exists_page hsize hlogIDs hsplit hdvd hempty
    have hlength : init.length + 1 = (rest.take size).length := by rw [hlast, length_append, length_singleton]
    have hnext := hapart _ _ _ hrows hend
    rw [hlogID] at hnext
    by_cases hnamed : logID = ""
    · rw [if_pos (congrArg some hnamed)] at hnext
      have hrest := take_append_drop size rest
      rw [hnext, append_nil] at hrest
      rw [hrest] at hitems hshows hpage hlastLogID
      exact ⟨_, walk_cons_iff.mpr ⟨rest, hpage, items, hitems, .inl ⟨hlastLogID.trans hnamed, rfl⟩⟩, hshows⟩
    · rw [if_neg fun h => hnamed (Option.some.inj h), ← hlogID] at hnext
      have hcursor : rowsAfter rows logID = rest.drop size := by
        rw [hrows] at hincreasing ⊢
        exact rowsAfter_eq hincreasing (cursorID_eq hlogID hnamed hnext)
      have hsplit' : rows = (done ++ rest.take size) ++ rest.drop size := by
        rw [append_assoc, take_append_drop, hsplit]
      obtain ⟨more, hmore, hshowsMore⟩ : ∃ more, walk feed s limit later logID = some more ∧
          Shows feed s (rest.drop size) more := by
        refine ih (fun now hnow => hreadings now (mem_cons_of_mem _ hnow)) ?_ hsplit' hcursor ?_
        · rw [length_take] at hlength
          rw [length_cons] at hlong
          rw [length_drop]
          omega
        · rwa [length_append, Nat.add_assoc, hlength, ← length_append] at hend
      rw [← hlastLogID] at hmore hnamed
      refine ⟨_, walk_cons_iff.mpr ⟨_, hpage, items, hitems, .inr ⟨hnamed, more, hmore, rfl⟩⟩, ?_⟩
      have hboth := hshows.append hshowsMore
      rwa [take_append_drop] at hboth

/-- The first row after the cursor is the first one the consumer gets. -/
theorem head_of_walk {first : Nat × OutboxRow} {others : List (Nat × OutboxRow)}
    (hreadings : ∀ now ∈ readings, served feed now s = rows) (hafter : rowsAfter rows cursor = first :: others)
    (h : walk feed s limit readings cursor = some received) : first ∈ received.map (·.1) := by
  cases readings with
  | nil => cases h
  | cons now later =>
    obtain ⟨page, hpage, items, hitems, hreceived⟩ := walk_cons_iff.mp h
    rw [hreadings now mem_cons_self, hafter] at hpage
    have hfirst : first ∈ (page.zip items).map (·.1) := by
      have hpos := eventsFeedLimit_pos limit
      obtain ⟨size, hsize⟩ := Nat.exists_eq_succ_of_ne_zero (show (eventsFeedLimit limit).toNat ≠ 0 by omega)
      rw [(shows_zip hitems).1, hpage, hsize, take_succ_cons]
      exact mem_cons_self
    rcases hreceived with ⟨_, rfl⟩ | ⟨_, more, _, rfl⟩
    · exact hfirst
    · rw [map_append]
      exact mem_append_left _ hfirst

/-- A consumer that gets the rest of the rows, each once and in order, has met no page that ends on a repeated log id. -/
theorem apart_of_walk (hincreasing : rows.Pairwise fun x y => x.1 < y.1)
    (hlogIDs : ∀ row ∈ rows, ∃ logID, row.2.logID = some logID) (hsize : size = (eventsFeedLimit limit).toNat)
    (hreadings : ∀ now ∈ readings, served feed now s = rows) (hsplit : rows = done ++ rest)
    (hafter : rowsAfter rows cursor = rest) (hdvd : size ∣ done.length ∨ rest = [])
    (hwalk : walk feed s limit readings cursor = some received) (hreceived : received.map (·.1) = rest)
    (hrows : rows = before ++ row :: after) (hfrom : done.length ≤ before.length)
    (hend : size ∣ before.length + 1 ∨ after = []) :
    if row.2.logID = some "" then after = [] else ∀ earlier ∈ before, earlier.2.logID ≠ row.2.logID := by
  induction readings generalizing done rest cursor received with
  | nil => cases hwalk
  | cons now later ih =>
    obtain ⟨page, hpage, items, hitems, hcases⟩ := walk_cons_iff.mp hwalk
    rw [hreadings now mem_cons_self, hafter, ← hsize] at hpage
    have hsplit' : rows = done ++ page ++ rest.drop size := by
      rw [hpage, append_assoc, take_append_drop, hsplit]
    have hempty : rest ≠ [] := by
      rintro rfl
      have hlength := congrArg length (hsplit.symm.trans hrows)
      simp only [length_append, length_nil, length_cons] at hlength
      omega
    obtain ⟨init, last, logID, hlast, hrowsLast, hlogID, hlastLogID, hend'⟩ := exists_page hsize hlogIDs hsplit hdvd hempty
    rw [← hpage] at hlast hlastLogID
    have hlength : init.length + 1 = page.length := by rw [hlast, length_append, length_singleton]
    -- a row of this page that ends a page is the last one of it
    have hlastRow (hbelow : before.length < done.length + page.length) :
        before = done ++ init ∧ row = last ∧ after = rest.drop size := by
      have hle : page.length ≤ size := hpage ▸ length_take_le _ _
      have hat := last_of_page_end hle (hdvd.resolve_right hempty) (hsplit'.symm.trans hrows) hfrom hbelow hend
      have hsame : before.length = (done ++ init).length := by
        rw [length_append]
        omega
      obtain ⟨hbefore, hcons⟩ := append_inj (hrows.symm.trans hrowsLast) hsame
      obtain ⟨hrow, hafter'⟩ := cons.inj hcons
      exact ⟨hbefore, hrow, hafter'⟩
    rcases hcases with ⟨hnone, hzip⟩ | ⟨hnamed, more, hmore, hzip⟩
    · -- the walk ends here, so this page has all that was left
      have hall : page = rest := by rw [← (shows_zip hitems).1, ← hzip, hreceived]
      have hnothing : rest.drop size = [] := by
        have hboth := take_append_drop size rest
        rw [← hpage, hall] at hboth
        exact append_cancel_left (hboth.trans (append_nil _).symm)
      have hbelow : before.length < done.length + page.length := by
        have hlength := congrArg length (hsplit.symm.trans hrows)
        simp only [length_append, length_cons] at hlength
        rw [hall]
        omega
      obtain ⟨_, rfl, rfl⟩ := hlastRow hbelow
      rw [if_pos (hlogID.trans (congrArg some (hlastLogID.symm.trans hnone)))]
      exact hnothing
    · have hmoreRows : more.map (·.1) = rest.drop size := by
        rw [hzip, map_append, (shows_zip hitems).1, ← take_append_drop size rest, ← hpage] at hreceived
        exact append_cancel_left hreceived
      have hreadings' : ∀ now ∈ later, served feed now s = rows :=
        fun now hnow => hreadings now (mem_cons_of_mem _ hnow)
      rw [hlastLogID] at hnamed hmore
      -- sent back, the consumer would get the last row of this page again
      have hapart : ∀ earlier ∈ done ++ init, earlier.2.logID ≠ last.2.logID := by
        intro earlier hearlier hsame
        have hagain : last ∈ rowsAfter rows logID := by
          rw [hrowsLast] at hincreasing ⊢
          exact mem_rowsAfter_of_repeated hincreasing hlogID hnamed hearlier hsame
        obtain ⟨first, others, hfirst⟩ := exists_cons_of_ne_nil (ne_nil_of_mem hagain)
        have hle : first.1 ≤ last.1 := by
          have hsorted : (rowsAfter rows logID).Pairwise fun x y => x.1 < y.1 := hincreasing.filter _
          rw [hfirst] at hsorted hagain
          rcases mem_cons.mp hagain with rfl | hlater
          · exact Nat.le_refl _
          · exact Nat.le_of_lt (rel_of_pairwise_cons hsorted hlater)
        have hgot := head_of_walk hreadings' hfirst hmore
        rw [hmoreRows] at hgot
        rw [hrowsLast] at hincreasing
        have hgt := rel_of_pairwise_cons (pairwise_append.mp hincreasing).2.1 hgot
        omega
      by_cases hbelow : before.length < done.length + page.length
      · obtain ⟨rfl, rfl, _⟩ := hlastRow hbelow
        rw [if_neg fun h => hnamed (Option.some.inj (hlogID.symm.trans h))]
        exact hapart
      · have hcursor : rowsAfter rows logID = rest.drop size := by
          rw [hrowsLast] at hincreasing ⊢
          exact rowsAfter_eq hincreasing (cursorID_eq hlogID hnamed hapart)
        refine ih hreadings' hsplit' hcursor ?_ hmore hmoreRows ?_
        · rwa [length_append, Nat.add_assoc, hlength, ← length_append] at hend'
        · rw [length_append]
          omega

end Walk

/-- The walk over the whole feed is exact just where every payload decodes and no page ends on a repeated log id. -/
theorem walk_exact_iff (feed : Feed) (s : Store) (limit : Int) (clock : Nat → Time)
    (hretained : Retained feed s clock) : WalkExact feed s limit clock ↔
      (∀ row ∈ served feed (clock 0) s, ∃ inner, feed.decode row.2.payload = .ok inner) ∧
        PagesEndApart (eventsFeedLimit limit).toNat (served feed (clock 0) s) := by
  have hincreasing := served_increasing feed (clock 0) s
  have hlogIDs : ∀ row ∈ served feed (clock 0) s, ∃ logID, row.2.logID = some logID := fun row hrow => served_logID hrow
  have hstart : rowsAfter (served feed (clock 0) s) "" = served feed (clock 0) s := rowsAfter_start fun row hrow => served_pos hrow
  have hreadings (calls : Nat) : ∀ now ∈ (range calls).map clock, served feed now s = served feed (clock 0) s := by
    intro now hnow
    obtain ⟨k, _, rfl⟩ := mem_map.mp hnow
    exact hretained k
  constructor
  · rintro ⟨calls, received, hwalk, hreceived, hbuilt⟩
    constructor
    · intro row hrow
      rw [← hreceived] at hrow
      obtain ⟨r, hr, rfl⟩ := mem_map.mp hrow
      exact buildFeedItem_succeeds_iff.mp ⟨r.2, hbuilt r hr⟩
    · intro before row after hrows hend
      exact apart_of_walk hincreasing hlogIDs rfl (hreadings calls) (nil_append _).symm hstart (.inl (Nat.dvd_zero _))
        hwalk hreceived hrows (Nat.zero_le _) hend
  · rintro ⟨hdecode, hapart⟩
    have hlong : (served feed (clock 0) s).length < ((range ((served feed (clock 0) s).length + 1)).map clock).length := by
      rw [length_map, length_range]
      exact Nat.lt_succ_self _
    obtain ⟨received, hwalk, hshows⟩ := walk_of_apart hdecode hincreasing hlogIDs rfl hapart (hreadings _) hlong
      (nil_append _).symm hstart (.inl (Nat.dvd_zero _))
    exact ⟨_, received, hwalk, hshows⟩

/-! ### Two rows under one log id -/

/-- A feed that keeps everything and finds nothing in the payloads. -/
def plainFeed : Feed where
  retention := 0
  decode := fun _ => .ok ⟨"", "", "", none⟩

def deliveredRow (logID : String) : OutboxRow where
  eventType := .agentRegistered
  agentID := "agent"
  schemaVersion := .v2
  payload := ⟨"", ""⟩
  nextAttemptAt := 0
  createdAt := 0
  sentAt := some 0
  logID := some logID

/-- Two rows whose events the log took for one, and another row. -/
def repeatedStore : Store :=
  { Store.empty with outbox := ((empty.insert (deliveredRow "a")).insert (deliveredRow "a")).insert (deliveredRow "b") }

/-- On a page with both rows the repetition does no harm. -/
theorem walk_exact_repeated_inside : WalkExact plainFeed repeatedStore 3 fun _ => 0 := by
  apply (walk_exact_iff plainFeed repeatedStore 3 (fun _ => 0) fun _ => rfl).mpr
  constructor
  · intro row _
    exact ⟨_, rfl⟩
  · have hserved : served plainFeed 0 repeatedStore = [(1, deliveredRow "a"), (2, deliveredRow "a"), (3, deliveredRow "b")] := by
      decide
    intro before row after hrows hend
    rw [hserved] at hrows
    have hlength : before.length + after.length = 2 := by
      have hcount := congrArg length hrows
      simp only [length_append, length_cons, length_nil] at hcount
      omega
    have hlast : before.length = 2 := by
      rcases hend with hdvd | rfl
      · have hle := Nat.le_of_dvd (Nat.succ_pos _) hdvd
        have hsize : (eventsFeedLimit 3).toNat = 3 := rfl
        omega
      · simpa using hlength
    have hsplit : [(1, deliveredRow "a"), (2, deliveredRow "a")] ++ [(3, deliveredRow "b")] = before ++ row :: after := hrows
    obtain ⟨rfl, htail⟩ := append_inj hsplit hlast.symm
    cases htail
    simp [deliveredRow]

/-- With two rows a page, the second row is served twice.  With one, the consumer is sent back to it forever. -/
theorem repeated_log_id_is_served_again :
    (walk plainFeed repeatedStore 2 [0, 0, 0] "").map (·.map (·.1.1)) = some [1, 2, 2, 3] ∧
    Retained plainFeed repeatedStore (fun _ => 0) ∧ ¬ WalkExact plainFeed repeatedStore 1 fun _ => 0 := by
  refine ⟨by decide, fun _ => rfl, ?_⟩
  rintro ⟨calls, received, hwalk, _⟩
  have hstuck (readings : List Time) (hreadings : ∀ now ∈ readings, now = 0) :
      walk plainFeed repeatedStore 1 readings "a" = none := by
    induction readings with
    | nil => rfl
    | cons now later ih =>
      obtain rfl := hreadings now mem_cons_self
      have hpage : ∃ page, listEvents plainFeed 0 repeatedStore ⟨"a", 1, ""⟩ = .ok page ∧ page.lastLogID = "a" :=
        ⟨_, rfl, rfl⟩
      obtain ⟨page, hpage, hlast⟩ := hpage
      rw [walk, hpage]
      simp only [hlast]
      rw [ih fun now hnow => hreadings now (mem_cons_of_mem _ hnow)]
      rfl
  cases calls with
  | zero => cases hwalk
  | succ calls =>
    have hpage : ∃ page, listEvents plainFeed 0 repeatedStore ⟨"", 1, ""⟩ = .ok page ∧ page.lastLogID = "a" :=
      ⟨_, rfl, rfl⟩
    obtain ⟨page, hpage, hlast⟩ := hpage
    rw [range_succ_eq_map, map_cons, walk, hpage] at hwalk
    simp only [hlast] at hwalk
    rw [hstuck] at hwalk
    · cases hwalk
    · intro now hnow
      obtain ⟨_, _, rfl⟩ := mem_map.mp hnow
      rfl

end AgentNameService.Registration
