/-
Purpose: The order of posts.  An outbox and a log that keeps one leaf for each event go through statements and
  posts; if only rows are posted before which every row of their agent is closed, the leaves of one agent's
  delivered rows come in the order of the rows.
Source: internal/adapter/store/sqlite/outbox.go, internal/ra/outbox/worker.go, internal/tl/service/log.go
Trusted boundary: none
-/
import AgentNameService.Registration.DeliveryProtocol

namespace AgentNameService.Registration

open List Table

/-- The canonical event of a row. -/
def OutboxRow.event (row : OutboxRow) : String := row.payload.innerEventCanonical

/-- The row is left to the workers: everything but an activation, which is sealed before it is recorded. -/
def OutboxRow.isQueued (row : OutboxRow) : Bool := row.eventType != .agentRegistered

/-- The log after one more post: a canonical event that is there already gets no second leaf. -/
def addLeaf (log : List String) (event : String) : List String := if event ∈ log then log else log ++ [event]

theorem mem_addLeaf {log : List String} {event other : String} :
    other ∈ addLeaf log event ↔ other ∈ log ∨ other = event := by
  unfold addLeaf
  split
  · rename_i hmem
    constructor
    · exact .inl
    · rintro (hold | rfl)
      · exact hold
      · exact hmem
  · simp

theorem nodup_addLeaf {log : List String} {event : String} (h : log.Nodup) : (addLeaf log event).Nodup := by
  unfold addLeaf
  split
  · exact h
  · rename_i hfresh
    rw [nodup_append]
    refine ⟨h, nodup_singleton _, ?_⟩
    rintro a ha b hb rfl
    exact hfresh (mem_singleton.mp hb ▸ ha)

namespace Outbox

variable {t u v : Table OutboxRow} {st : Statement} {now : Time} {id : Nat} {row row' : OutboxRow} {agentID : String}
  {log : List String}

/-! ### What identifies a row -/

/-- The same event of the same agent. -/
structure SameEvent (old new : OutboxRow) : Prop where
  eventType : new.eventType = old.eventType
  agentID : new.agentID = old.agentID
  payload : new.payload = old.payload

namespace SameEvent

theorem refl (row : OutboxRow) : SameEvent row row := ⟨rfl, rfl, rfl⟩

theorem trans {a b c : OutboxRow} (h : SameEvent a b) (h' : SameEvent b c) : SameEvent a c :=
  ⟨h'.eventType.trans h.eventType, h'.agentID.trans h.agentID, h'.payload.trans h.payload⟩

theorem event {old new : OutboxRow} (h : SameEvent old new) : new.event = old.event :=
  congrArg OutboxPayload.innerEventCanonical h.payload

theorem isQueued {old new : OutboxRow} (h : SameEvent old new) : new.isQueued = old.isQueued := by
  rw [OutboxRow.isQueued, h.eventType]
  rfl

end SameEvent

theorem RowStep.sameEvent (hstep : RowStep t now id row st row') : SameEvent row row' := by
  cases hstep with
  | failed _ _ hsame =>
    rw [hsame]
    exact ⟨rfl, rfl, rfl⟩
  | _ => exact ⟨rfl, rfl, rfl⟩

/-- A row that is delivered was so before, or is open and the statement is its delivery. -/
theorem RowStep.delivered (hstep : RowStep t now id row st row') (hsent : row'.sentAt.isSome = true) :
    row.sentAt.isSome = true ∨ row.isOpen = true ∧ ∃ token logID, st = .markSent id token logID := by
  cases hstep with
  | kept | claimed | parked | cancelled => exact .inl hsent
  | sent _ hopen => exact .inr ⟨hopen, _, _, rfl⟩
  | failed _ _ hsame =>
    rw [hsame] at hsent
    exact .inl hsent

/-! ### Later outboxes -/

/-- Every row lives on as the same event and stays closed once it is; new rows have later keys. -/
structure Follows (t u : Table OutboxRow) : Prop where
  kept : ∀ id row, (id, row) ∈ t.rows →
    ∃ row', (id, row') ∈ u.rows ∧ SameEvent row row' ∧ (row.isOpen = false → row'.isOpen = false)
  origin : ∀ id row', (id, row') ∈ u.rows → (∃ row, (id, row) ∈ t.rows) ∨ t.next ≤ id
  next : t.next ≤ u.next

theorem Follows.refl (t : Table OutboxRow) : Follows t t where
  kept := fun _ row hrow => ⟨row, hrow, .refl row, fun h => h⟩
  origin := fun _ row' hrow' => .inl ⟨row', hrow'⟩
  next := Nat.le_refl _

theorem Follows.trans (h : Follows t u) (h' : Follows u v) : Follows t v where
  kept := by
    intro id row hrow
    obtain ⟨row', hrow', hsame, hclosed⟩ := h.kept id row hrow
    obtain ⟨row'', hrow'', hsame', hclosed'⟩ := h'.kept id row' hrow'
    exact ⟨row'', hrow'', hsame.trans hsame', hclosed' ∘ hclosed⟩
  origin := by
    intro id row'' hrow''
    rcases h'.origin id row'' hrow'' with ⟨row', hrow'⟩ | hnew
    · exact h.origin id row' hrow'
    · exact .inr (Nat.le_trans h.next hnew)
  next := Nat.le_trans h.next h'.next

/-- The row under a key, as the earlier outbox has it. -/
theorem Follows.before (h : Follows t u) (hrow' : (id, row') ∈ u.rows) (hid : id < t.next) :
    ∃ row, (id, row) ∈ t.rows ∧ SameEvent row row' ∧ (row.isOpen = false → row'.isOpen = false) := by
  rcases h.origin id row' hrow' with ⟨row, hrow⟩ | hnew
  · obtain ⟨later, hlater, hsame, hclosed⟩ := h.kept id row hrow
    obtain rfl := mem_unique hrow' hlater
    exact ⟨row, hrow, hsame, hclosed⟩
  · exact absurd hid (Nat.not_lt.mpr hnew)

theorem Statement.next_le : t.next ≤ (st.run now t).next := by
  cases st with
  | enqueue | recordSealed => exact Nat.le_succ _
  | acquire =>
    simp only [Statement.run]
    split <;> exact Nat.le_refl _
  | ready | markSent | markFailed | markDead | cancelPending => exact Nat.le_refl _

theorem Statement.follows (st : Statement) (now : Time) : Follows t (st.run now t) where
  kept := by
    intro id row hrow
    obtain ⟨row', hrow', hstep⟩ := Statement.row_step st now hrow
    exact ⟨row', hrow', hstep.sameEvent, hstep.closed⟩
  origin := by
    intro id row' hrow'
    rcases Statement.row_cases hrow' with ⟨row, hrow, _⟩ | ⟨hnew, _⟩
    · exact .inl ⟨row, hrow⟩
    · exact .inr (Nat.le_of_eq hnew.symm)
  next := Statement.next_le

/-! ### Rows before which nothing is open -/

/-- Every row of the agent before a key is closed. -/
def Cleared (t : Table OutboxRow) (id : Nat) (agentID : String) : Prop :=
  ∀ j earlier, (j, earlier) ∈ t.rows → j < id → earlier.agentID = agentID → earlier.isOpen = false

theorem Cleared.follows (hcleared : Cleared t id agentID) (h : Follows t u) (hid : id ≤ t.next) :
    Cleared u id agentID := by
  intro j later hlater hlt hagent
  obtain ⟨earlier, hearlier, hsame, hclosed⟩ := h.before hlater (Nat.lt_of_lt_of_le hlt hid)
  exact hclosed (hcleared j earlier hearlier hlt (hsame.agentID.symm.trans hagent))

/-- The row that an `Acquire` reserves. -/
theorem reserved_of_acquire {attempts : Nat} {token : String} {lease : Time}
    (h : (acquire t now id attempts token lease).1 = true) (hrow : (id, row) ∈ t.rows) :
    isAcquirable t now id attempts id row = true := by
  simp only [acquire, beq_iff_eq] at h
  obtain ⟨⟨rowID, stored⟩, hsingle⟩ := length_eq_one_iff.mp h
  obtain ⟨hstored, hsel⟩ := mem_select.mp (hsingle ▸ mem_singleton_self (rowID, stored))
  have hid : rowID = id := by
    simp only [isAcquirable, Bool.and_eq_true, beq_iff_eq] at hsel
    exact hsel.1.1
  subst hid
  rw [mem_unique hrow hstored]
  exact hsel

theorem open_of_acquire {attempts : Nat} {token : String} {lease : Time}
    (h : (acquire t now id attempts token lease).1 = true) (hrow : (id, row) ∈ t.rows) : row.isOpen = true := by
  have hreserved := reserved_of_acquire h hrow
  simp only [isAcquirable, isClaimable, Bool.and_eq_true] at hreserved
  exact hreserved.2.1.1

/-- An `Acquire` reserves a row before which nothing of its agent is open, unless it is a revocation. -/
theorem cleared_of_acquire {attempts : Nat} {token : String} {lease : Time}
    (h : (acquire t now id attempts token lease).1 = true) (hrow : (id, row) ∈ t.rows)
    (htype : row.eventType ≠ .agentRevoked) : Cleared t id row.agentID := by
  have hreserved := reserved_of_acquire h hrow
  simp only [isAcquirable, isClaimable, Bool.and_eq_true] at hreserved
  obtain ⟨_, _, hordered⟩ := hreserved
  intro j earlier hearlier hlt hagent
  simp only [Bool.or_eq_true, beq_iff_eq, htype, false_or, Bool.not_eq_true', hasOpenPredecessor,
    any_eq_false] at hordered
  simpa [hagent, hlt] using hordered (j, earlier) hearlier

theorem mem_of_ready {batchSize : Nat} {ev : Nat × OutboxRow} (h : ev ∈ ready t now batchSize) : ev ∈ t.rows := by
  have hmem := mem_of_mem_take h
  rcases mem_append.mp hmem with hrevoked | hother
  · exact (mem_select.mp (mem_of_mem_filter hrevoked)).1
  · exact (mem_select.mp (mem_of_mem_filter hother)).1

/-- `CancelPending` leaves no row of the agent open but revocations. -/
theorem closed_of_cancelPending (hrow' : (id, row') ∈ (cancelPending t now agentID).rows)
    (hagent : row'.agentID = agentID) (htype : row'.eventType ≠ .agentRevoked) : row'.isOpen = false := by
  obtain ⟨row, hrow, rfl⟩ := mem_update.mp hrow'
  split
  · simp [OutboxRow.isOpen]
  · rename_i hsel
    rw [if_neg hsel] at hagent htype
    refine Bool.eq_false_iff.mpr ?_
    intro hopen
    obtain ⟨hunsent, _, hcancelled⟩ := isOpen_iff.mp hopen
    simp [hagent, htype, hunsent, hcancelled] at hsel

/-! ### An outbox and a log -/

/-- Nothing is open before a revocation, and what is delivered is in the log. -/
structure Tracked (t : Table OutboxRow) (log : List String) : Prop where
  revocation : ∀ id row, (id, row) ∈ t.rows → row.eventType = .agentRevoked → Cleared t id row.agentID
  delivered : ∀ id row, (id, row) ∈ t.rows → row.isQueued = true → row.sentAt.isSome = true → row.event ∈ log

/-- Nothing is open before a row whose event is in the log, and the leaves of an agent's delivered rows are in the
order of the rows. -/
structure InOrder (t : Table OutboxRow) (log : List String) : Prop where
  cleared : ∀ id row, (id, row) ∈ t.rows → row.isQueued = true → row.event ∈ log → Cleared t id row.agentID
  ordered : ∀ i j row row', (i, row) ∈ t.rows → (j, row') ∈ t.rows → i < j → row.agentID = row'.agentID →
    row.isQueued = true → row'.isQueued = true → row.sentAt.isSome = true → row'.event ∈ log →
    log.idxOf row.event < log.idxOf row'.event

/-- What a statement needs: an event is acknowledged that is in the log, a revocation is announced when nothing
of its agent is open, and only activations are recorded as sealed. -/
def Statement.Tracks (t : Table OutboxRow) (log : List String) : Statement → Prop
  | .markSent id _ _ => ∀ row, (id, row) ∈ t.rows → row.event ∈ log
  | .enqueue eventType agentID .. => eventType = .agentRevoked →
      ∀ j row, (j, row) ∈ t.rows → row.agentID = agentID → row.isOpen = false
  | .recordSealed eventType .. => eventType = .agentRegistered
  | .ready _ | .acquire .. | .markFailed .. | .markDead .. | .cancelPending _ => True

theorem Tracked.run (h : Tracked t log) (hst : st.Tracks t log) : Tracked (st.run now t) log where
  revocation := by
    intro id row' hrow' htype
    rcases Statement.row_cases hrow' with ⟨row, hrow, hstep⟩ | ⟨rfl, hinserts⟩
    · have hsame := hstep.sameEvent
      rw [hsame.agentID]
      have hcleared := h.revocation id row hrow (hsame.eventType.symm.trans htype)
      exact hcleared.follows (Statement.follows _ _) (Nat.le_of_lt (t.bounded _ hrow).2)
    · cases hinserts with
      | enqueued =>
        have hcleared : Cleared t t.next _ := fun j earlier hearlier _ => hst htype j earlier hearlier
        exact hcleared.follows (Statement.follows _ _) (Nat.le_refl _)
      | sealed =>
        rw [hst] at htype
        cases htype
  delivered := by
    intro id row' hrow' hqueued hsent
    rcases Statement.row_cases hrow' with ⟨row, hrow, hstep⟩ | ⟨rfl, hinserts⟩
    · have hsame := hstep.sameEvent
      rw [hsame.event]
      rcases hstep.delivered hsent with hbefore | ⟨_, token, logID, rfl⟩
      · exact h.delivered id row hrow (hsame.isQueued.symm.trans hqueued) hbefore
      · exact hst row hrow
    · cases hinserts with
      | enqueued => cases hsent
      | sealed =>
        simp only [Statement.Tracks] at hst
        simp [OutboxRow.isQueued, hst] at hqueued

theorem InOrder.run (h : InOrder t log) (hfresh : ∀ row, st.Inserts now row → row.isQueued = true → row.event ∉ log) :
    InOrder (st.run now t) log where
  cleared := by
    intro id row' hrow' hqueued hlogged
    rcases Statement.row_cases hrow' with ⟨row, hrow, hstep⟩ | ⟨_, hinserts⟩
    · have hsame := hstep.sameEvent
      rw [hsame.agentID]
      rw [hsame.event] at hlogged
      have hcleared := h.cleared id row hrow (hsame.isQueued.symm.trans hqueued) hlogged
      exact hcleared.follows (Statement.follows _ _) (Nat.le_of_lt (t.bounded _ hrow).2)
    · exact absurd hlogged (hfresh row' hinserts hqueued)
  ordered := by
    intro i j row₁ row₂ hrow₁ hrow₂ hij hagent hqueued₁ hqueued₂ hsent hlogged
    rcases Statement.row_cases hrow₂ with ⟨old₂, hold₂, hstep₂⟩ | ⟨_, hinserts⟩
    · have hi : i < t.next := Nat.lt_trans hij (t.bounded _ hold₂).2
      rcases Statement.row_cases hrow₁ with ⟨old₁, hold₁, hstep₁⟩ | ⟨rfl, _⟩
      · have hsame₁ := hstep₁.sameEvent
        have hsame₂ := hstep₂.sameEvent
        rw [hsame₁.agentID, hsame₂.agentID] at hagent
        rw [hsame₂.event] at hlogged ⊢
        rw [hsame₁.event]
        have hqueued := hsame₂.isQueued.symm.trans hqueued₂
        rcases hstep₁.delivered hsent with hbefore | ⟨hopen, _⟩
        · exact h.ordered i j old₁ old₂ hold₁ hold₂ hij hagent (hsame₁.isQueued.symm.trans hqueued₁) hqueued hbefore
            hlogged
        · -- the earlier row was open, so the later one cannot have been posted
          rw [h.cleared j old₂ hold₂ hqueued hlogged i old₁ hold₁ hij hagent] at hopen
          cases hopen
      · exact absurd hi (Nat.lt_irrefl _)
    · exact absurd hlogged (hfresh row₂ hinserts hqueued₂)

theorem Tracked.post {event : String} (h : Tracked t log) : Tracked t (addLeaf log event) where
  revocation := h.revocation
  delivered := fun id row hrow hqueued hsent => mem_addLeaf.mpr (.inl (h.delivered id row hrow hqueued hsent))

/-- A post of rows before which nothing is open. -/
theorem InOrder.post {event : String} (h : InOrder t log) (htracked : Tracked t log)
    (hcleared : ∀ id row, (id, row) ∈ t.rows → row.isQueued = true → row.event = event → Cleared t id row.agentID) :
    InOrder t (addLeaf log event) where
  cleared := by
    intro id row hrow hqueued hlogged
    rcases mem_addLeaf.mp hlogged with hold | hnew
    · exact h.cleared id row hrow hqueued hold
    · exact hcleared id row hrow hqueued hnew
  ordered := by
    intro i j row row' hrow hrow' hij hagent hqueued hqueued' hsent hlogged
    unfold addLeaf at hlogged ⊢
    split at hlogged
    · rename_i hmem
      rw [if_pos hmem]
      exact h.ordered i j row row' hrow hrow' hij hagent hqueued hqueued' hsent hlogged
    · rename_i hnew
      rw [if_neg hnew]
      have hearlier := htracked.delivered i row hrow hqueued hsent
      rw [idxOf_append_of_mem hearlier]
      by_cases hold : row'.event ∈ log
      · rw [idxOf_append_of_mem hold]
        exact h.ordered i j row row' hrow hrow' hij hagent hqueued hqueued' hsent hold
      · rw [idxOf_append_of_notMem hold]
        exact Nat.lt_of_lt_of_le (idxOf_lt_length_of_mem hearlier) (Nat.le_add_right _ _)

/-! ### Runs of statements -/

/-- Statements that have what they need, one after the other. -/
inductive TrackedRun (log : List String) (t : Table OutboxRow) : Table OutboxRow → Prop
  | refl : TrackedRun log t t
  | step {u : _} (st : Statement) (now : Time) (hrun : TrackedRun log t u) (hst : st.Tracks u log) :
      TrackedRun log t (st.run now u)

namespace TrackedRun

theorem follows (h : TrackedRun log t u) : Follows t u := by
  induction h with
  | refl => exact .refl t
  | step _ _ _ _ ih => exact ih.trans (Statement.follows _ _)

theorem tracked (h : TrackedRun log t u) (ht : Tracked t log) : Tracked u log := by
  induction h with
  | refl => exact ht
  | step _ _ _ hst ih => exact ih.run hst

/-- The order is kept if no new row carries an event of the log. -/
theorem inOrder (h : TrackedRun log t u) (ht : InOrder t log)
    (hfresh : ∀ id row, (id, row) ∈ u.rows → t.next ≤ id → row.isQueued = true → row.event ∉ log) : InOrder u log := by
  induction h with
  | refl => exact ht
  | @step u st now hrun _ ih =>
    have hbefore : InOrder u log := by
      apply ih
      intro id row hrow hnew hqueued
      obtain ⟨row', hrow', hsame, _⟩ := (Statement.follows st now).kept id row hrow
      rw [← hsame.event]
      exact hfresh id row' hrow' hnew (hsame.isQueued.trans hqueued)
    apply hbefore.run
    intro row hinserts hqueued
    apply hfresh u.next row _ hrun.follows.next hqueued
    cases hinserts with
    | enqueued | sealed => exact mem_insert.mpr (.inr rfl)

end TrackedRun

end Outbox

end AgentNameService.Registration
