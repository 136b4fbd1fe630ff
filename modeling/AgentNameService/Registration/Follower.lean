/-
Purpose: Whether a follower of the feed gets every delivered event.  The feed is ordered by the ids under which
  events were enqueued, but shows an event only once it is delivered.  A follower whose cursor has moved past a
  row before the row is delivered never gets it; a row that is delivered ahead of the cursor, under a log id of
  its own, is served after a bounded number of polls.
Source: internal/adapter/store/sqlite/{feed,outbox}.go, internal/ra/service/feed.go, internal/ra/outbox/worker.go
Trusted boundary: none
-/
import Mathlib.Logic.Relation
import AgentNameService.Registration.Feed
import AgentNameService.Registration.Lifecycle

namespace AgentNameService.Registration

open Interleaving Store List Table

/-! ### The service and a follower -/

/-- A consumer of the feed: where it stands, and the pages it got. -/
structure Follower where
  cursor : String := ""
  pages : List EventPage := []
deriving DecidableEq, Repr

/-- The cursor moves to the end of every page that is not empty. -/
def Follower.receive (f : Follower) (page : EventPage) : Follower where
  cursor := if page.items = [] then f.cursor else page.lastLogID
  pages := f.pages ++ [page]

/-- The service with one follower of its feed. -/
structure Watched (w : Wiring) where
  pool : Pool (service w)
  follower : Follower := {}

/-- A move of the service, or a poll at some time with some page size. -/
inductive FeedMove (w : Wiring) where
  | service (m : Move (service w))
  | poll (now : Time) (limit : Int)

namespace Watched

variable {w : Wiring}

def start (w : Wiring) : Watched w where
  pool := Pool.start (service w)

/-- `ListEvents` after the follower's cursor; a poll that fails leaves the follower where it was. -/
def poll (feed : Feed) (x : Watched w) (now : Time) (limit : Int) : Watched w :=
  match listEvents feed now x.pool.state ⟨x.follower.cursor, limit, ""⟩ with
  | .ok page => { x with follower := x.follower.receive page }
  | .error _ => x

def step (feed : Feed) (x : Watched w) : FeedMove w → Option (Watched w)
  | .service m => (x.pool.step m).map fun pool => { x with pool }
  | .poll now limit => some (x.poll feed now limit)

/-- Runs in which every move is allowed where it is made. -/
def Runs (feed : Feed) (allows : Watched w → FeedMove w → Prop) : Watched w → Watched w → Prop :=
  Relation.ReflTransGen fun x y => ∃ m, allows x m ∧ x.step feed m = some y

end Watched

/-! ### Deliveries in order -/

/-- The row under an id has been delivered with the log id. -/
def Logged (logID : String) (k : Nat) (s : Store) : Prop :=
  ∃ row, (k, row) ∈ s.outbox.rows ∧ row.sentAt.isSome = true ∧ row.logID = some logID

/-- A log id that no delivered row has. -/
def NewLogID (logID : String) (s : Store) : Prop :=
  ∀ row ∈ s.outbox.rows, row.2.sentAt.isSome = true → row.2.logID ≠ some logID

/-- A delivery brings a new log id, and the row it delivers is not behind the follower's cursor.  The row of
an event that was sealed inline is the newest one, so only the deliveries of the workers can fall behind. -/
def InOrder (cursor : String) : Call → Store → Prop
  | .delivery (.markSent id _ logID), s => NewLogID logID s ∧
      ∀ row ∈ s.outbox.rows, row.2.sentAt.isSome = true → row.2.logID = some cursor → row.1 < id
  | .commitActivation _ sealed, s => NewLogID sealed.logID s
  | _, _ => True

instance (logID : String) (s : Store) : Decidable (NewLogID logID s) :=
  inferInstanceAs (Decidable (∀ row ∈ s.outbox.rows, _))

instance (cursor : String) (c : Call) (s : Store) : Decidable (InOrder cursor c s) :=
  match c with
  | .delivery (.markSent ..) => inferInstanceAs (Decidable (_ ∧ ∀ row ∈ s.outbox.rows, _))
  | .commitActivation _ sealed => inferInstanceAs (Decidable (NewLogID sealed.logID s))
  | .delivery (.acquire ..) | .delivery (.markFailed ..) | .delivery (.markDead ..)
  | .read _ | .saveAgent _ | .saveCSR .. | .saveRenewal _ | .prepareActivationSeal ..
  | .expireLapsedPendingValidation _ | .register _ | .commitACME .. | .commitRevocation ..
  | .commitCancellation .. | .sweepCertificates _ | .commitIdentityCSR .. | .commitServerCSR ..
  | .submitRenewal .. | .cancelRenewal .. | .commitRenewal .. => .isTrue trivial

section Calls

variable {s : Store} {c : Call} {j k : Nat} {row row' : OutboxRow} {cursor : String}

theorem Sends.newLogID (h : Sends s k row c) (hallowed : InOrder cursor c s) :
    ∃ logID, row.logID = some logID ∧ logID ≠ "" ∧ NewLogID logID s := by
  cases h with
  | acknowledged _ hlogged hnamed => exact ⟨_, hlogged, hnamed, hallowed.1⟩
  | sealed _ hlogged hnamed => exact ⟨_, hlogged, hnamed, hallowed⟩

/-- What is delivered in order lies ahead of the cursor. -/
theorem Sends.ahead (h : Sends s k row c) (hallowed : InOrder cursor c s) (hlogged : Logged cursor j s) : j < k := by
  obtain ⟨old, hold, hsent, hlogID⟩ := hlogged
  cases h with
  | acknowledged => exact hallowed.2 (j, old) hold hsent hlogID
  | sealed hfresh => exact hfresh ▸ (s.outbox.bounded (j, old) hold).2

theorem Sends.pos (h : Sends s k row c) : 0 < k := by
  cases h with
  | acknowledged hstored => exact (s.outbox.bounded _ hstored).1
  | sealed hfresh => exact hfresh ▸ s.outbox.positive

/-- One step delivers at most one row. -/
theorem Sends.unique (h : Sends s k row c) (h' : Sends s j row' c) : j = k := by
  cases h with
  | acknowledged =>
    cases h'
    rfl
  | sealed hfresh =>
    cases h' with
    | sealed hfresh' => exact hfresh'.trans hfresh.symm

end Calls

/-! ### What every run in order keeps -/

namespace Watched

variable {w : Wiring} {feed : Feed} {x y : Watched w} {c k : Nat} {row : OutboxRow} {m : FeedMove w}

/-- Every delivery is in order with respect to the follower. -/
def inOrder (x : Watched w) : FeedMove w → Prop
  | .service m => ∀ c, x.pool.callOf m = some c → InOrder x.follower.cursor c x.pool.state
  | .poll .. => True

/-- Log ids identify delivered rows, and the cursor is one of them. -/
structure Sound (x : Watched w) : Prop where
  reached : Reached (service w) x.pool
  named : ∀ k row, (k, row) ∈ x.pool.state.outbox.rows → row.sentAt.isSome = true →
    ∃ logID, row.logID = some logID ∧ logID ≠ ""
  distinct : ∀ logID j k, Logged logID j x.pool.state → Logged logID k x.pool.state → j = k
  cursor : x.follower.cursor = "" ∨ ∃ c, Logged x.follower.cursor c x.pool.state

theorem sound_start (w : Wiring) : Sound (start w) where
  reached := .start
  named := by
    intro k row hrow
    cases hrow
  distinct := by
    rintro logID j k ⟨row, hrow, _⟩
    cases hrow
  cursor := .inl rfl

/-- A move of the service keeps every delivered row, and delivers no row but by one of the two steps. -/
theorem deliveries_of_step {p q : Pool (service w)} {m : Move (service w)} (hreached : Reached (service w) p)
    (hstep : p.step m = some q) (hsent : row.sentAt.isSome = true) :
    ((k, row) ∈ p.state.outbox.rows → (k, row) ∈ q.state.outbox.rows) ∧ ((k, row) ∈ q.state.outbox.rows →
        (k, row) ∈ p.state.outbox.rows ∨ ∃ c, p.callOf m = some c ∧ Sends p.state k row c) := by
  rcases (governs w).step_state hreached hstep with hsame | ⟨c, ambient, a, hcall, hinv, hpre, hexec⟩
  · rw [hsame]
    exact ⟨id, .inl⟩
  · have heffect := effect_of_exec hinv hpre hexec
    constructor
    · intro hold
      obtain ⟨new, hnew, hto⟩ := heffect.outbox_kept hold
      exact hto.delivered hsent ▸ hnew
    · intro hnew
      exact (heffect.sent_by hnew hsent).imp id fun hsends => ⟨c, hcall, hsends⟩

theorem Sound.service {pool : Pool (service w)} {m : Move (service w)} (h : Sound x)
    (hallowed : x.inOrder (.service m)) (hstep : x.pool.step m = some pool) : Sound { x with pool } := by
  have hkept {logID : String} {k : Nat} (hold : Logged logID k x.pool.state) : Logged logID k pool.state := by
    obtain ⟨row, hrow, hsent, hlogID⟩ := hold
    exact ⟨row, (deliveries_of_step h.reached hstep hsent).1 hrow, hsent, hlogID⟩
  -- a delivered row is an old one, or the step delivers it under a new log id
  have hrows {logID : String} {k : Nat} (hnew : Logged logID k pool.state) : Logged logID k x.pool.state ∨
      ∃ c row, x.pool.callOf m = some c ∧ Sends x.pool.state k row c ∧ NewLogID logID x.pool.state := by
    obtain ⟨row, hrow, hsent, hlogID⟩ := hnew
    rcases (deliveries_of_step h.reached hstep hsent).2 hrow with hold | ⟨c, hcall, hsends⟩
    · exact .inl ⟨row, hold, hsent, hlogID⟩
    · obtain ⟨logID', hlogID', _, hfresh⟩ := hsends.newLogID (hallowed c hcall)
      obtain rfl := Option.some.inj (hlogID'.symm.trans hlogID)
      exact .inr ⟨c, row, hcall, hsends, hfresh⟩
  have hclash {logID : String} {k : Nat} (hold : Logged logID k x.pool.state)
      (hfresh : NewLogID logID x.pool.state) : False := by
    obtain ⟨row, hrow, hsent, hlogID⟩ := hold
    exact hfresh (k, row) hrow hsent hlogID
  refine ⟨.step h.reached (fun _ _ => trivial) hstep, ?_, ?_, h.cursor.imp_right ?_⟩
  · intro k row hrow hsent
    rcases (deliveries_of_step h.reached hstep hsent).2 hrow with hold | ⟨c, hcall, hsends⟩
    · exact h.named k row hold hsent
    · obtain ⟨logID, hlogID, hnamed, _⟩ := hsends.newLogID (hallowed c hcall)
      exact ⟨logID, hlogID, hnamed⟩
  · intro logID j k hj hk
    rcases hrows hj with hj | ⟨c, row, hcall, hsends, hfresh⟩ <;>
      rcases hrows hk with hk | ⟨c', row', hcall', hsends', hfresh'⟩
    · exact h.distinct logID j k hj hk
    · exact (hclash hj hfresh').elim
    · exact (hclash hk hfresh).elim
    · obtain rfl := Option.some.inj (hcall.symm.trans hcall')
      exact hsends'.unique hsends
  · rintro ⟨c, hc⟩
    exact ⟨c, hkept hc⟩

/-! ### Polls -/

/-- The row on which the follower stands; before its first event, it stands before all rows. -/
def Stands (x : Watched w) (c : Nat) : Prop :=
  x.follower.cursor = "" ∧ c = 0 ∨ x.follower.cursor ≠ "" ∧ Logged x.follower.cursor c x.pool.state

theorem Sound.stands (h : Sound x) : ∃ c, x.Stands c := by
  by_cases hcursor : x.follower.cursor = ""
  · exact ⟨0, .inl ⟨hcursor, rfl⟩⟩
  · obtain ⟨c, hc⟩ := h.cursor.resolve_left hcursor
    exact ⟨c, .inr ⟨hcursor, hc⟩⟩

/-- The row and the row of the cursor are inside the retention window at every poll. -/
def Retains (feed : Feed) (row : OutboxRow) (x : Watched w) : FeedMove w → Prop
  | .service _ => True
  | .poll now _ => retentionFloorMs feed.retention now ≤ row.createdAt ∧
      ∀ other ∈ x.pool.state.outbox.rows, other.2.logID = some x.follower.cursor →
        retentionFloorMs feed.retention now ≤ other.2.createdAt

theorem Sound.resolveCursor_eq {now : Time} {limit : Int} (h : Sound x) (hc : x.Stands c)
    (hretains : Retains feed row x (.poll now limit)) :
    resolveCursor x.pool.state.outbox x.follower.cursor (retentionFloorMs feed.retention now) = c := by
  rcases hc with ⟨hcursor, rfl⟩ | ⟨hcursor, hlogged⟩
  · simp [resolveCursor, hcursor]
  · obtain ⟨own, hown, hsent, hlogID⟩ := hlogged
    refine Registration.resolveCursor_eq hcursor hown hlogID hsent (hretains.2 _ hown hlogID) ?_
    intro j other hother hotherSent hotherID
    exact h.distinct _ j c ⟨other, hother, hotherSent, hotherID⟩ ⟨own, hown, hsent, hlogID⟩

/-- The event of a row is on one of the pages. -/
def Serves (f : Follower) (row : OutboxRow) : Prop :=
  ∃ page ∈ f.pages, ∃ item ∈ page.items, row.logID = some item.logID

theorem Serves.receive {f : Follower} (h : Serves f row) (page : EventPage) : Serves (f.receive page) row := by
  obtain ⟨old, hold, hitem⟩ := h
  exact ⟨old, mem_append_left _ hold, hitem⟩

section Poll

variable {now : Time} {limit : Int} {page : EventPage}

/-- A row that was read for a page is delivered, inside the window and beyond the cursor. -/
theorem mem_of_servedRows {t : Table OutboxRow} {cursor : String} (h : (k, row) ∈ servedRows feed now t cursor limit) :
    (k, row) ∈ t.rows ∧ row.sentAt.isSome = true ∧
      resolveCursor t cursor (retentionFloorMs feed.retention now) < k := by
  obtain ⟨hmem, hserved, hafter⟩ := mem_of_page h
  simp only [isServed, Bool.and_eq_true] at hserved
  exact ⟨hmem, hserved.1.1, hafter⟩

/-- After a page that is not empty the follower stands on the last row of the page. -/
theorem Sound.stands_on_last (h : Sound x)
    (hpage : listEvents feed now x.pool.state ⟨x.follower.cursor, limit, ""⟩ = .ok page) {last : Nat × OutboxRow}
    (hlast : (servedRows feed now x.pool.state.outbox x.follower.cursor limit).getLast? = some last) :
    Stands { x with follower := x.follower.receive page } last.1 := by
  obtain ⟨hlogIDs, hcursor⟩ := listEvents_logIDs hpage
  have hmem := mem_of_getLast? hlast
  obtain ⟨hrow, hsent, _⟩ := mem_of_servedRows hmem
  obtain ⟨logID, hlogID, hne⟩ := h.named last.1 last.2 hrow hsent
  rw [hlast, Option.map_some, Option.getD_some, hlogID, Option.getD_some] at hcursor
  have hitems : page.items ≠ [] := by
    rintro hempty
    rw [hempty, map_nil] at hlogIDs
    rw [map_eq_nil_iff.mp hlogIDs.symm] at hmem
    cases hmem
  have hmoved : (x.follower.receive page).cursor = logID := by
    simp only [Follower.receive, if_neg hitems, hcursor]
  exact .inr ⟨hmoved ▸ hne, last.2, hrow, hsent, hmoved ▸ hlogID⟩

theorem Sound.poll (h : Sound x) (hpage : listEvents feed now x.pool.state ⟨x.follower.cursor, limit, ""⟩ = .ok page) :
    Sound { x with follower := x.follower.receive page } := by
  refine ⟨h.reached, h.named, h.distinct, ?_⟩
  cases hlast : (servedRows feed now x.pool.state.outbox x.follower.cursor limit).getLast? with
  | none =>
    have hlogIDs := (listEvents_logIDs hpage).1
    rw [getLast?_eq_none_iff.mp hlast, map_nil, map_eq_nil_iff] at hlogIDs
    have hstays : (x.follower.receive page).cursor = x.follower.cursor := by
      simp only [Follower.receive, if_pos hlogIDs]
    exact hstays.symm ▸ h.cursor
  | some last =>
    rcases h.stands_on_last hpage hlast with ⟨hcursor, _⟩ | ⟨_, hlogged⟩
    · exact .inl hcursor
    · exact .inr ⟨last.1, hlogged⟩

/-- A poll serves a delivered row ahead of the cursor, or it brings the follower closer to it. -/
theorem Sound.poll_progress (h : Sound x)
    (hpage : listEvents feed now x.pool.state ⟨x.follower.cursor, limit, ""⟩ = .ok page)
    (hrow : (k, row) ∈ x.pool.state.outbox.rows) (hsent : row.sentAt.isSome = true)
    (hretains : Retains feed row x (.poll now limit)) (hc : x.Stands c) (hahead : c < k) :
    Serves (x.follower.receive page) row ∨
      ∃ c', Stands { x with follower := x.follower.receive page } c' ∧ c < c' ∧ c' < k := by
  have hresolve := h.resolveCursor_eq hc hretains
  obtain ⟨logID, hlogID, _⟩ := h.named k row hrow hsent
  have hserved : isServed (retentionFloorMs feed.retention now) k row = true := by
    simp [isServed, hsent, hlogID, hretains.1]
  have hlimit : 0 < (eventsFeedLimit limit).toNat := by
    have := eventsFeedLimit_pos limit
    omega
  rcases mem_page_or_before hrow hserved (hresolve ▸ hahead) hlimit with hmem | ⟨last, hlast, hbefore⟩
  · left
    have hshown : logID ∈ page.items.map (·.logID) := by
      rw [(listEvents_logIDs hpage).1]
      exact mem_map.mpr ⟨(k, row), hmem, by rw [hlogID, Option.getD_some]⟩
    obtain ⟨item, hitem, hshows⟩ := mem_map.mp hshown
    exact ⟨page, mem_append_right _ (mem_singleton_self page), item, hitem, hshows ▸ hlogID⟩
  · right
    have hafter := (mem_of_servedRows (mem_of_getLast? hlast)).2.2
    exact ⟨last.1, h.stands_on_last hpage hlast, hresolve ▸ hafter, hbefore⟩

end Poll

/-- A move of the service, a poll that gets a page, or one that fails. -/
theorem step_cases (h : x.step feed m = some y) :
    (∃ move pool, m = .service move ∧ x.pool.step move = some pool ∧ y = { x with pool }) ∨
      ∃ now limit, m = .poll now limit ∧ (y = x ∨
        ∃ page, listEvents feed now x.pool.state ⟨x.follower.cursor, limit, ""⟩ = .ok page ∧
          y = { x with follower := x.follower.receive page }) := by
  cases m with
  | service move =>
    obtain ⟨pool, hpool, rfl⟩ := Option.map_eq_some_iff.mp h
    exact .inl ⟨move, pool, rfl, hpool, rfl⟩
  | poll now limit =>
    refine .inr ⟨now, limit, rfl, ?_⟩
    cases hpage : listEvents feed now x.pool.state ⟨x.follower.cursor, limit, ""⟩ with
    | ok page =>
      simp only [step, poll, hpage, Option.some.injEq] at h
      exact .inr ⟨page, rfl, h.symm⟩
    | error text =>
      simp only [step, poll, hpage, Option.some.injEq] at h
      exact .inl h.symm

theorem Sound.step (h : Sound x) (hallowed : x.inOrder m) (hstep : x.step feed m = some y) : Sound y := by
  rcases step_cases hstep with ⟨move, pool, rfl, hpool, rfl⟩ | ⟨now, limit, rfl, rfl | ⟨page, hpage, rfl⟩⟩
  · exact h.service hallowed hpool
  · exact h
  · exact h.poll hpage

theorem Runs.of_allowed {allows allows' : Watched w → FeedMove w → Prop} (himp : ∀ x m, allows x m → allows' x m)
    (h : Runs feed allows x y) : Runs feed allows' x y := by
  induction h with
  | refl => exact .refl
  | tail _ hstep ih =>
    obtain ⟨m, hallowed, hstep⟩ := hstep
    exact ih.tail ⟨m, himp _ _ hallowed, hstep⟩

theorem Runs.sound {allows : Watched w → FeedMove w → Prop} (hallows : ∀ x m, allows x m → x.inOrder m)
    (h : Runs feed allows x y) (hx : Sound x) : Sound y := by
  induction h with
  | refl => exact hx
  | tail _ hstep ih =>
    obtain ⟨m, hallowed, hstep⟩ := hstep
    exact ih.step (hallows _ _ hallowed) hstep

/-! ### From the delivery on -/

theorem Stands.service {pool : Pool (service w)} {m : Move (service w)} (hc : x.Stands c) (hx : Sound x)
    (hstep : x.pool.step m = some pool) : Stands { x with pool } c := by
  refine hc.imp id (And.imp_right ?_)
  rintro ⟨own, hown, hsent, hlogID⟩
  exact ⟨own, (deliveries_of_step hx.reached hstep hsent).1 hown, hsent, hlogID⟩

/-- A delivered row has been served, or it lies ahead of the follower, who has got no more pages since a given
number of them than there are rows behind it. -/
def Approaches (pages k : Nat) (row : OutboxRow) (x : Watched w) : Prop :=
  (k, row) ∈ x.pool.state.outbox.rows ∧
    (Serves x.follower row ∨ ∃ c, x.Stands c ∧ c < k ∧ x.follower.pages.length ≤ pages + c)

/-- A row that a step delivers in order lies ahead of the follower. -/
theorem Approaches.of_delivery (hx : Sound x) (hallowed : x.inOrder m)
    (hstep : x.step feed m = some y) (hrow : (k, row) ∈ y.pool.state.outbox.rows)
    (hsent : row.sentAt.isSome = true) (hnew : (k, row) ∉ x.pool.state.outbox.rows) :
    Approaches y.follower.pages.length k row y := by
  refine ⟨hrow, .inr ?_⟩
  rcases step_cases hstep with ⟨move, pool, rfl, hpool, rfl⟩ | ⟨now, limit, rfl, rfl | ⟨page, _, rfl⟩⟩
  · obtain ⟨call, hcall, hsends⟩ := ((deliveries_of_step hx.reached hpool hsent).2 hrow).resolve_left hnew
    obtain ⟨c, hc⟩ := hx.stands
    refine ⟨c, hc.service hx hpool, ?_, Nat.le_add_right _ _⟩
    rcases hc with ⟨_, rfl⟩ | ⟨_, hlogged⟩
    · exact hsends.pos
    · exact hsends.ahead (hallowed call hcall) hlogged
  · exact absurd hrow hnew
  · exact absurd hrow hnew

theorem Approaches.step {pages : Nat} (h : Approaches pages k row x) (hx : Sound x)
    (hsent : row.sentAt.isSome = true) (hretains : Retains feed row x m) (hstep : x.step feed m = some y) :
    Approaches pages k row y := by
  obtain ⟨hrow, hserves⟩ := h
  rcases step_cases hstep with ⟨move, pool, rfl, hpool, rfl⟩ | ⟨now, limit, rfl, rfl | ⟨page, hpage, rfl⟩⟩
  · refine ⟨(deliveries_of_step hx.reached hpool hsent).1 hrow, hserves.imp id ?_⟩
    rintro ⟨c, hc, hrest⟩
    exact ⟨c, hc.service hx hpool, hrest⟩
  · exact ⟨hrow, hserves⟩
  · refine ⟨hrow, ?_⟩
    rcases hserves with hserved | ⟨c, hc, hahead, hpages⟩
    · exact .inl (hserved.receive page)
    · refine (hx.poll_progress hpage hrow hsent hretains hc hahead).imp id ?_
      rintro ⟨c', hc', hcloser, hahead'⟩
      refine ⟨c', hc', hahead', ?_⟩
      simp only [Follower.receive, length_append, length_singleton]
      omega

theorem Approaches.runs {pages : Nat} (h : Approaches pages k row x) (hx : Sound x) (hsent : row.sentAt.isSome = true)
    (hrun : Runs feed (fun z m => z.inOrder m ∧ Retains feed row z m) x y) : Approaches pages k row y := by
  have hboth : Sound y ∧ Approaches pages k row y := by
    induction hrun with
    | refl => exact ⟨hx, h⟩
    | tail _ hstep ih =>
      obtain ⟨m, ⟨hallowed, hretains⟩, hstep⟩ := hstep
      exact ⟨ih.1.step hallowed hstep, ih.2.step ih.1 hsent hretains hstep⟩
  exact hboth.2

end Watched

/-! ### Every run -/

/-- In every run in which deliveries are in order: a row that is delivered is on a page once the follower has
got as many pages after the delivery as the row's id says, each at a time when the row and the row of the cursor
are inside the retention window. -/
theorem delivered_in_order_is_served (feed : Feed) {w : Wiring} {x y z : Watched w} {m : FeedMove w} {k : Nat}
    {row : OutboxRow} (hrun : Watched.Runs feed Watched.inOrder (Watched.start w) x) (hallowed : x.inOrder m)
    (hdelivery : x.step feed m = some y) (hrow : (k, row) ∈ y.pool.state.outbox.rows)
    (hsent : row.sentAt.isSome = true) (hnew : (k, row) ∉ x.pool.state.outbox.rows)
    (hfollows : Watched.Runs feed (fun u m => u.inOrder m ∧ Watched.Retains feed row u m) y z)
    (hpages : y.follower.pages.length + k ≤ z.follower.pages.length) : Watched.Serves z.follower row := by
  have hx : x.Sound := hrun.sound (fun _ _ h => h) (Watched.sound_start w)
  have happroaches := Watched.Approaches.of_delivery hx hallowed hdelivery hrow hsent hnew
  rcases (happroaches.runs (hx.step hallowed hdelivery) hsent hfollows).2 with hserves | ⟨c, _, hahead, hbehind⟩
  · exact hserves
  · omega

/-! ### Runs on fixed inputs -/

namespace Watched

variable {w : Wiring} {feed : Feed} {allows : Watched w → FeedMove w → Prop} {x y : Watched w}

/-- Let the service carry out one more operation, as long as its calls are admitted. -/
def lead (admits : Call → Store → Bool) (x : Watched w) (op : Op) (uuid logID : String) (moves : Nat) :
    Watched w :=
  let world := grantingWorld uuid logID
  { x with pool := (x.pool.spawn op).driveWhile admits x.pool.threads.length grantingAmbient world moves }

theorem Runs.lead {admits : Call → Store → Bool} (h : Runs feed allows x y)
    (hallows : ∀ pool m, (∀ c, pool.callOf m = some c → admits c pool.state = true) →
      allows { y with pool } (.service m))
    (op : Op) (uuid logID : String) (moves : Nat) : Runs feed allows x (y.lead admits op uuid logID moves) := by
  have hspawn : Runs feed allows x { y with pool := y.pool.spawn op } :=
    h.tail ⟨.service (.spawn op), hallows _ _ (fun _ hcall => by cases hcall), rfl⟩
  refine Pool.driveWhile_induction (C := fun pool => Runs feed allows x { y with pool })
    (fun hrun hadmitted hstep => hrun.tail ?_) hspawn _ _ _ moves
  exact ⟨.service _, hallows _ _ hadmitted, by rw [step, hstep]; rfl⟩

theorem Runs.poll (h : Runs feed allows x y) (now : Time) (limit : Int) (hallowed : allows y (.poll now limit)) :
    Runs feed allows x (y.poll feed now limit) :=
  h.tail ⟨.poll now limit, hallowed, rfl⟩

/-- Let the service carry out one more operation, as long as its deliveries are in order. -/
def leadInOrder (x : Watched w) : Op → String → String → Nat → Watched w :=
  x.lead fun c s => decide (InOrder x.follower.cursor c s)

theorem Runs.leadInOrder (h : Runs feed inOrder x y) (op : Op) (uuid logID : String) (moves : Nat) :
    Runs feed inOrder x (y.leadInOrder op uuid logID moves) :=
  h.lead (fun _ _ hadmitted c hcall => of_decide_eq_true (hadmitted c hcall)) op uuid logID moves

end Watched

/-- A feed that keeps events for thirty days and finds nothing in their payloads. -/
def sampleFeed : Feed where
  retention := 30 * 24 * 60 * 60 * 1000
  decode := fun _ => .ok ⟨"", "", "", none⟩

/-- One registration has been activated and revoked; its revocation is still to be delivered. -/
def revokedWatch : Watched {} :=
  let registered := (Watched.start {}).leadInOrder (.registerAgent sampleRequest) "agent-1" "log-1" 30
  let validated := registered.leadInOrder (.verifyACME "agent-1") "agent-1" "log-1" 30
  let activated := validated.leadInOrder (.verifyDNS "agent-1" .v2) "agent-1" "log-1" 30
  activated.leadInOrder (.revoke "agent-1" .keyCompromise .v2) "agent-1" "log-1" 30

theorem revokedWatch_runs : Watched.Runs sampleFeed Watched.inOrder (Watched.start {}) revokedWatch :=
  (((Watched.Runs.leadInOrder .refl _ _ _ _).leadInOrder _ _ _ _).leadInOrder _ _ _ _).leadInOrder _ _ _ _

/-- When each row was delivered, and under which log id. -/
def deliveries (s : Store) : List (Nat × Option Time × Option String) :=
  s.outbox.rows.map fun row => (row.1, row.2.sentAt, row.2.logID)

theorem mem_deliveries {s : Store} {k : Nat} {sentAt : Option Time} {logID : Option String} :
    (k, sentAt, logID) ∈ deliveries s ↔ ∃ row, (k, row) ∈ s.outbox.rows ∧ row.sentAt = sentAt ∧ row.logID = logID := by
  simp only [deliveries, mem_map, Prod.mk.injEq]
  constructor
  · rintro ⟨⟨j, row⟩, hrow, rfl, hsent, hlogID⟩
    exact ⟨row, hrow, hsent, hlogID⟩
  · rintro ⟨row, hrow, hsent, hlogID⟩
    exact ⟨(k, row), hrow, rfl, hsent, hlogID⟩

theorem sampleFeed_floor {now : Nat} (hnow : now ≤ 1000) (createdAt : Nat) :
    retentionFloorMs sampleFeed.retention now ≤ createdAt := by
  have hfloor : retentionFloorMs sampleFeed.retention now = now - 2592000000 := by
    simp [retentionFloorMs, sampleFeed]
  omega

/-- The follower has seen the activation; a worker is about to record the delivery of the revocation. -/
def followedWatch : Watched {} :=
  (revokedWatch.poll sampleFeed 1000 100).leadInOrder (.deliver 10) "claim" "log-2" 4

theorem followedWatch_runs : Watched.Runs sampleFeed Watched.inOrder (Watched.start {}) followedWatch :=
  (revokedWatch_runs.poll 1000 100 trivial).leadInOrder _ _ _ _

set_option maxRecDepth 20000 in
theorem followedWatch_delivers : deliveries followedWatch.pool.state = [(1, some 1000, some "log-1"), (2, none, none)] ∧
    (followedWatch.pool.step (.perform 4 grantingAmbient)).map (deliveries ·.state) =
      some [(1, some 1000, some "log-1"), (2, some 1000, some "log-2")] ∧
    (followedWatch.pool.callOf (.perform 4 grantingAmbient)).all
      (fun c => decide (InOrder followedWatch.follower.cursor c followedWatch.pool.state)) = true := by
  decide +kernel

/-- The revocation is delivered ahead of the cursor, and two more polls get it. -/
theorem delivered_in_order_is_served_revocation : ∃ (y : Watched {}) (row : OutboxRow),
    followedWatch.step sampleFeed (.service (.perform 4 grantingAmbient)) = some y ∧
      (2, row) ∈ y.pool.state.outbox.rows ∧ row.logID = some "log-2" ∧
      Watched.Serves ((y.poll sampleFeed 1000 100).poll sampleFeed 1000 100).follower row := by
  obtain ⟨hbefore, hafter, hinOrder⟩ := followedWatch_delivers
  obtain ⟨pool, hstep, hdeliveries⟩ := Option.map_eq_some_iff.mp hafter
  obtain ⟨row, hrow, hsentAt, hlogID⟩ := mem_deliveries.mp
    (show (2, some 1000, some "log-2") ∈ deliveries pool.state by simp [hdeliveries])
  have hdelivery : followedWatch.step sampleFeed (.service (.perform 4 grantingAmbient)) =
      some { followedWatch with pool } := by simp [Watched.step, hstep]
  have hallowed : followedWatch.inOrder (.service (.perform 4 grantingAmbient)) := by
    intro c hcall
    rw [hcall] at hinOrder
    exact of_decide_eq_true hinOrder
  have hnew : (2, row) ∉ followedWatch.pool.state.outbox.rows := by
    intro hold
    have hmem := mem_deliveries.mpr ⟨row, hold, hsentAt, hlogID⟩
    simp [hbefore] at hmem
  -- every payload decodes, so every poll gets a page
  have hpages (x : Watched {}) (now : Time) (limit : Int) :
      (x.poll sampleFeed now limit).follower.pages.length = x.follower.pages.length + 1 := by
    obtain ⟨page, hpage⟩ : ∃ page, listEvents sampleFeed now x.pool.state ⟨x.follower.cursor, limit, ""⟩ = .ok page :=
      listEvents_succeeds (fun _ => ⟨_, rfl⟩) _
    simp [Watched.poll, hpage, Follower.receive]
  refine ⟨_, row, hdelivery, hrow, hlogID, ?_⟩
  refine delivered_in_order_is_served sampleFeed followedWatch_runs hallowed hdelivery hrow (by simp [hsentAt]) hnew
    ((Watched.Runs.poll .refl 1000 100 ?_).poll 1000 100 ?_) ?_
  · exact ⟨trivial, sampleFeed_floor (by decide) _, fun _ _ _ => sampleFeed_floor (by decide) _⟩
  · exact ⟨trivial, sampleFeed_floor (by decide) _, fun _ _ _ => sampleFeed_floor (by decide) _⟩
  · exact Nat.le_of_eq (by rw [hpages, hpages])

/-! ### The late delivery -/

def otherRequest : RegisterRequest :=
  { sampleRequest with ownerID := "bob", ansName := ⟨⟨1, 0, 0⟩, "b.example.com"⟩ }

/-- While the revocation waits, another registration is activated and the follower polls. -/
def overtakenWatch : Watched {} :=
  let registered := revokedWatch.leadInOrder (.registerAgent otherRequest) "agent-2" "log-3" 30
  let validated := registered.leadInOrder (.verifyACME "agent-2") "agent-2" "log-3" 30
  let activated := validated.leadInOrder (.verifyDNS "agent-2" .v2) "agent-2" "log-3" 30
  activated.poll sampleFeed 1000 100

theorem overtakenWatch_runs : Watched.Runs sampleFeed Watched.inOrder (Watched.start {}) overtakenWatch := by
  have hregistered := revokedWatch_runs.leadInOrder (.registerAgent otherRequest) "agent-2" "log-3" 30
  have hvalidated := hregistered.leadInOrder (.verifyACME "agent-2") "agent-2" "log-3" 30
  have hactivated := hvalidated.leadInOrder (.verifyDNS "agent-2" .v2) "agent-2" "log-3" 30
  exact hactivated.poll 1000 100 trivial

/-- A worker delivers the revocation. -/
def lateWatch : Watched {} := overtakenWatch.lead (fun _ _ => true) (.deliver 10) "claim" "log-2" 30

theorem lateWatch_runs : Watched.Runs sampleFeed (fun _ _ => True) (Watched.start {}) lateWatch :=
  (overtakenWatch_runs.of_allowed fun _ _ _ => trivial).lead (fun _ _ _ => trivial) _ _ _ _

set_option maxRecDepth 20000 in
theorem lateWatch_missed : deliveries lateWatch.pool.state =
      [(1, some 1000, some "log-1"), (2, some 1000, some "log-2"), (3, some 1000, some "log-3")] ∧
    lateWatch.follower.cursor = "log-3" ∧
    lateWatch.follower.pages.map (·.items.map (·.logID)) = [["log-1", "log-3"]] := by
  decide +kernel

/-- A follower that stands on the newest delivered row gets an empty page. -/
theorem servedRows_eq_nil {feed : Feed} {now : Time} {t : Table OutboxRow} {cursor : String} {limit : Int} {c : Nat}
    (hresolve : resolveCursor t cursor (retentionFloorMs feed.retention now) = c)
    (hnewest : ∀ row ∈ t.rows, row.1 ≤ c) : servedRows feed now t cursor limit = [] := by
  apply eq_nil_iff_forall_not_mem.mpr
  rintro ⟨k, row⟩ hmem
  obtain ⟨hrow, _, hafter⟩ := Watched.mem_of_servedRows hmem
  have := hnewest _ hrow
  omega

/-- Every later poll inside the retention window gets an empty page. -/
theorem lateWatch_page {z : Watched {}} {row : OutboxRow} {now : Time} {limit : Int} {page : EventPage}
    (hpool : z.pool = lateWatch.pool) (hcursor : z.follower.cursor = "log-3")
    (hretains : Watched.Retains sampleFeed row z (.poll now limit))
    (hpage : listEvents sampleFeed now z.pool.state ⟨z.follower.cursor, limit, ""⟩ = .ok page) : page.items = [] := by
  have hdeliveries := lateWatch_missed.1
  rw [← hpool] at hdeliveries
  obtain ⟨last, hlast, hsentAt, hlogID⟩ := mem_deliveries.mp
    (show (3, some 1000, some "log-3") ∈ deliveries z.pool.state by simp [hdeliveries])
  have hids : ∀ k other, (k, other) ∈ z.pool.state.outbox.rows → k ≤ 3 ∧ (other.logID = some "log-3" → k = 3) := by
    intro k other hother
    have hmem := mem_deliveries.mpr ⟨other, hother, rfl, rfl⟩
    simp only [hdeliveries, mem_cons, Prod.mk.injEq, not_mem_nil, or_false] at hmem
    rcases hmem with ⟨rfl, _, hother⟩ | ⟨rfl, _, hother⟩ | ⟨rfl, _, hother⟩ <;> simp [hother]
  have hresolve : resolveCursor z.pool.state.outbox z.follower.cursor
      (retentionFloorMs sampleFeed.retention now) = 3 := by
    rw [hcursor]
    refine resolveCursor_eq (by simp) hlast hlogID (by simp [hsentAt]) (hretains.2 _ hlast ?_) ?_
    · rw [hcursor]
      exact hlogID
    · exact fun k other hother _ hshares => (hids k other hother).2 hshares
  have hnone : servedRows sampleFeed now z.pool.state.outbox z.follower.cursor limit = [] :=
    servedRows_eq_nil hresolve fun row hrow => (hids row.1 row.2 hrow).1
  have hlogIDs := (listEvents_logIDs hpage).1
  rwa [hnone, map_nil, map_eq_nil_iff] at hlogIDs

/-- The revocation of the first registration is delivered after the follower has moved past it.  However often
the follower polls, with the rows still inside the retention window, it never gets the event. -/
theorem late_delivery_is_never_served : ∃ (y : Watched {}) (row : OutboxRow),
    Watched.Runs sampleFeed (fun _ _ => True) (Watched.start {}) y ∧ (2, row) ∈ y.pool.state.outbox.rows ∧
      row.sentAt.isSome = true ∧ row.logID = some "log-2" ∧
      ∀ z, Watched.Runs sampleFeed (fun u m => (∃ now limit, m = .poll now limit) ∧
        Watched.Retains sampleFeed row u m) y z → ¬ Watched.Serves z.follower row := by
  obtain ⟨hdeliveries, hcursor, hpages⟩ := lateWatch_missed
  obtain ⟨row, hrow, hsentAt, hlogID⟩ := mem_deliveries.mp
    (show (2, some 1000, some "log-2") ∈ deliveries lateWatch.pool.state by simp [hdeliveries])
  refine ⟨lateWatch, row, lateWatch_runs, hrow, by simp [hsentAt], hlogID, ?_⟩
  intro z hrun
  have hstays : z.pool = lateWatch.pool ∧ z.follower.cursor = "log-3" ∧ ¬ Watched.Serves z.follower row := by
    induction hrun with
    | refl =>
      refine ⟨rfl, hcursor, ?_⟩
      rintro ⟨page, hpage, item, hitem, hshows⟩
      have hmem := mem_map_of_mem (f := fun p : EventPage => p.items.map (·.logID)) hpage
      rw [hpages, mem_singleton] at hmem
      have hshown : item.logID ∈ page.items.map (·.logID) := mem_map_of_mem hitem
      rw [hmem, ← Option.some.inj (hlogID.symm.trans hshows)] at hshown
      simp at hshown
    | tail _ hstep ih =>
      obtain ⟨m, ⟨⟨now, limit, rfl⟩, hretains⟩, hstep⟩ := hstep
      obtain ⟨hpool, hstands, hmissed⟩ := ih
      rcases Watched.step_cases hstep with ⟨_, _, hmove, _⟩ | ⟨_, _, hmove, rfl | ⟨page, hpage, rfl⟩⟩
      · cases hmove
      · exact ⟨hpool, hstands, hmissed⟩
      · cases hmove
        have hempty := lateWatch_page hpool hstands hretains hpage
        refine ⟨hpool, by simp [Follower.receive, hempty, hstands], ?_⟩
        rintro ⟨shown, hshown, item, hitem, hshows⟩
        rcases mem_append.mp hshown with hold | hlast
        · exact hmissed ⟨shown, hold, item, hitem, hshows⟩
        · rw [mem_singleton.mp hlast, hempty] at hitem
          cases hitem
  exact hstays.2.2

end AgentNameService.Registration
