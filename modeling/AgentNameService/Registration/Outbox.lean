/-
Purpose: The outbox table of events on their way to the transparency log: insertion, the delivery claims of
  the workers, and the cancellation that goes with a revocation, each as the statement the store runs.
Source: internal/adapter/store/sqlite/outbox.go, migrations/001, 003, 006, 015
Trusted boundary: human-reviewed model
-/
import AgentNameService.Foundation.Table
import AgentNameService.Registration.Domain

namespace AgentNameService.Registration

open Table

inductive EventType where
  | agentRegistered
  | agentRenewed
  | agentRevoked
deriving DecidableEq, Repr

/-- What a worker posts: the canonical inner event and the detached signature over it. -/
structure OutboxPayload where
  innerEventCanonical : String
  producerSignature : String
deriving DecidableEq, Repr

structure OutboxRow where
  eventType : EventType
  agentID : String
  schemaVersion : Lane
  payload : OutboxPayload
  attempts : Nat := 0
  permanentAttempts : Nat := 0
  lastError : String := ""
  nextAttemptAt : Time
  createdAt : Time
  sentAt : Option Time := none
  logID : Option String := none
  claimToken : Option String := none
  claimedUntil : Option Time := none
  deadAt : Option Time := none
  cancelledAt : Option Time := none
deriving DecidableEq, Repr

namespace OutboxRow

/-- Neither sent, nor dead, nor cancelled: the row is still to be delivered. -/
def isOpen (row : OutboxRow) : Bool := row.sentAt.isNone && row.deadAt.isNone && row.cancelledAt.isNone

/-- `COALESCE(claim_token, '')`. -/
def token (row : OutboxRow) : String := row.claimToken.getD ""

/-- The retry delay has passed and no lease is running. -/
def isDue (row : OutboxRow) (now : Time) : Bool :=
  decide (row.nextAttemptAt ≤ now) && decide (row.claimedUntil.getD 0 ≤ now)

end OutboxRow

namespace Outbox

/-- `Enqueue`: a row to deliver, not before `earliestAttempt`. -/
def enqueue (t : Table OutboxRow) (now : Time) (eventType : EventType) (agentID : String) (lane : Lane)
    (payload : OutboxPayload) (earliestAttempt : Time) : Table OutboxRow :=
  t.insert { eventType, agentID, schemaVersion := lane, payload, nextAttemptAt := earliestAttempt,
             createdAt := now }

/-- `RecordSealed`: a row that is delivered already, for an event sealed inline. -/
def recordSealed (t : Table OutboxRow) (now : Time) (eventType : EventType) (agentID : String) (lane : Lane)
    (payload : OutboxPayload) (logID : String) : Table OutboxRow :=
  t.insert { eventType, agentID, schemaVersion := lane, payload, nextAttemptAt := now, createdAt := now,
             sentAt := some now, logID := some logID }

/-- An earlier row of the same agent is still to be delivered. -/
def hasOpenPredecessor (t : Table OutboxRow) (id : Nat) (agentID : String) : Bool :=
  t.rows.any fun row => row.2.agentID == agentID && decide (row.1 < id) && row.2.isOpen

/-- The condition `Ready` and `Acquire` share; a revocation does not wait for earlier rows. -/
def isClaimable (t : Table OutboxRow) (now : Time) (id : Nat) (row : OutboxRow) : Bool :=
  row.isOpen && row.isDue now && (row.eventType == .agentRevoked || !hasOpenPredecessor t id row.agentID)

/-- `Ready`: revocations first, then by id. -/
def ready (t : Table OutboxRow) (now : Time) (batchSize : Nat) : List (Nat × OutboxRow) :=
  let rows := t.select (isClaimable t now)
  (rows.filter (·.2.eventType == .agentRevoked) ++ rows.filter (·.2.eventType != .agentRevoked)).take
    (if batchSize = 0 then 10 else batchSize)

/-- The row an update under a claim may touch. -/
def isClaimedBy (id : Nat) (token : String) (rowID : Nat) (row : OutboxRow) : Bool :=
  rowID == id && row.token == token && row.isOpen

/-- The row `Acquire` reserves. -/
def isAcquirable (t : Table OutboxRow) (now : Time) (id attempts rowID : Nat) (row : OutboxRow) : Bool :=
  rowID == id && row.attempts == attempts && isClaimable t now rowID row

/-- `Acquire`: reserve the row under a fresh token until the lease runs out. -/
def acquire (t : Table OutboxRow) (now : Time) (id attempts : Nat) (token : String) (lease : Time) :
    Bool × Table OutboxRow :=
  ((t.select (isAcquirable t now id attempts)).length == 1,
    t.update (isAcquirable t now id attempts)
      fun row => { row with claimToken := some token, claimedUntil := some (now + lease) })

/-- `MarkSent`: record the acknowledged log id and give up the claim. -/
def markSent (t : Table OutboxRow) (now : Time) (id : Nat) (token logID : String) : Table OutboxRow :=
  t.update (isClaimedBy id token)
    fun row => { row with sentAt := some now, logID := some logID, claimToken := none, claimedUntil := none }

/-- The delay before the next attempt: one second, doubled for each attempt, capped. -/
def backoff (attempts : Nat) (maxDelay : Time) : Time := min (2 ^ min attempts 10 * 1000) maxDelay

/-- `MarkFailed`: schedule the next attempt and give up the claim. -/
def markFailed (t : Table OutboxRow) (now : Time) (id : Nat) (token : String) (attempts : Nat)
    (lastError : String) (maxDelay : Time) (permanent : Bool) : Table OutboxRow :=
  t.update (isClaimedBy id token)
    fun row => { row with
      attempts := attempts, lastError := lastError, nextAttemptAt := now + backoff attempts maxDelay,
      permanentAttempts := if permanent then row.permanentAttempts + 1 else 0,
      claimToken := none, claimedUntil := none }

/-- `MarkDead`: park a row for good; a revocation is never parked. -/
def markDead (t : Table OutboxRow) (now : Time) (id : Nat) (token reason : String) : Table OutboxRow :=
  t.update (fun rowID row => isClaimedBy id token rowID row && row.eventType != .agentRevoked)
    fun row => { row with
      deadAt := some now, lastError := reason, attempts := row.attempts + 1,
      claimToken := none, claimedUntil := none }

/-- `CancelPending`: fence out the agent's undelivered rows, except revocations. -/
def cancelPending (t : Table OutboxRow) (now : Time) (agentID : String) : Table OutboxRow :=
  t.update
    (fun _ row => row.agentID == agentID && row.eventType != .agentRevoked && row.sentAt.isNone &&
      row.cancelledAt.isNone)
    fun row => { row with
      cancelledAt := some now, lastError := "superseded by agent revocation",
      claimToken := none, claimedUntil := none }

/-! ### What later statements cannot take back -/

/-- The same event of the same agent; a revocation is neither parked nor cancelled in between, and a row that
has been delivered is final. -/
structure Succeeds (old new : OutboxRow) : Prop where
  eventType : new.eventType = old.eventType
  agentID : new.agentID = old.agentID
  revocation : old.eventType = .agentRevoked → new.deadAt = old.deadAt ∧ new.cancelledAt = old.cancelledAt
  delivered : old.sentAt.isSome = true → new = old

/-- Every row lives on, and no row but a renewal is new. -/
structure Continues (t u : Table OutboxRow) : Prop where
  kept : ∀ id old, (id, old) ∈ t.rows → ∃ new, (id, new) ∈ u.rows ∧ Succeeds old new
  nothingNew : ∀ id new, (id, new) ∈ u.rows → new.eventType ≠ .agentRenewed →
    ∃ old, (id, old) ∈ t.rows ∧ new.eventType = old.eventType ∧ new.agentID = old.agentID

/-- In addition, no row is delivered. -/
structure Steady (t u : Table OutboxRow) : Prop extends Continues t u where
  noneSent : ∀ id new, (id, new) ∈ u.rows → new.sentAt.isSome = true → (id, new) ∈ t.rows

theorem Succeeds.refl (row : OutboxRow) : Succeeds row row := ⟨rfl, rfl, fun _ => ⟨rfl, rfl⟩, fun _ => rfl⟩

theorem Continues.refl (t : Table OutboxRow) : Continues t t :=
  ⟨fun _ old h => ⟨old, h, .refl old⟩, fun _ new h _ => ⟨new, h, rfl, rfl⟩⟩

theorem Steady.refl (t : Table OutboxRow) : Steady t t := ⟨.refl t, fun _ _ h _ => h⟩

variable {t : Table OutboxRow} {row : OutboxRow}

theorem continues_update {selects : Nat → OutboxRow → Bool} {f : OutboxRow → OutboxRow}
    (hf : ∀ id row, selects id row = true → Succeeds row (f row)) : Continues t (t.update selects f) := by
  constructor
  · intro id old hold
    refine ⟨_, mem_update.mpr ⟨old, hold, rfl⟩, ?_⟩
    split
    · exact hf id old ‹_›
    · exact .refl old
  · intro id new hnew _
    obtain ⟨old, hold, rfl⟩ := mem_update.mp hnew
    refine ⟨old, hold, ?_⟩
    split
    · exact ⟨(hf id old ‹_›).eventType, (hf id old ‹_›).agentID⟩
    · exact ⟨rfl, rfl⟩

/-- An update of rows that are still to be delivered, and stay so. -/
theorem steady_update {selects : Nat → OutboxRow → Bool} {f : OutboxRow → OutboxRow}
    (hf : ∀ id row, selects id row = true → Succeeds row (f row)) (hsentAt : ∀ row, (f row).sentAt = row.sentAt)
    (hunsent : ∀ id row, selects id row = true → row.sentAt = none) : Steady t (t.update selects f) := by
  refine ⟨continues_update hf, ?_⟩
  intro id new hnew hsent
  obtain ⟨old, hold, rfl⟩ := mem_update.mp hnew
  split
  · rename_i hsel
    simp [hsel, hsentAt, hunsent id old hsel] at hsent
  · exact hold

theorem sentAt_of_isOpen (h : row.isOpen = true) : row.sentAt = none := by
  simp only [OutboxRow.isOpen, Bool.and_eq_true, Option.isNone_iff_eq_none] at h
  exact h.1.1

theorem sentAt_of_isClaimedBy {id rowID : Nat} {token : String}
    (h : isClaimedBy id token rowID row = true) : row.sentAt = none := by
  simp only [isClaimedBy, Bool.and_eq_true] at h
  exact sentAt_of_isOpen h.2

/-- A row that was still to be delivered, after a statement that keeps what identifies it. -/
theorem Succeeds.of_unsent {old new : OutboxRow} (hunsent : old.sentAt = none)
    (heventType : new.eventType = old.eventType) (hagentID : new.agentID = old.agentID)
    (hrevocation : old.eventType = .agentRevoked → new.deadAt = old.deadAt ∧ new.cancelledAt = old.cancelledAt) :
    Succeeds old new :=
  ⟨heventType, hagentID, hrevocation, fun hsent => by simp [hunsent] at hsent⟩

variable (now : Time)

theorem steady_acquire (id attempts : Nat) (token : String) (lease : Time) :
    Steady t (acquire t now id attempts token lease).2 := by
  have hunsent : ∀ rowID row, isAcquirable t now id attempts rowID row = true → row.sentAt = none := by
    intro rowID row hsel
    simp only [isAcquirable, isClaimable, Bool.and_eq_true] at hsel
    exact sentAt_of_isOpen hsel.2.1.1
  simp only [acquire]
  refine steady_update (fun rowID row hsel => ?_) (fun _ => rfl) hunsent
  exact .of_unsent (hunsent rowID row hsel) rfl rfl fun _ => ⟨rfl, rfl⟩

theorem continues_markSent (id : Nat) (token logID : String) :
    Continues t (markSent t now id token logID) :=
  continues_update fun _ _ hsel => .of_unsent (sentAt_of_isClaimedBy hsel) rfl rfl fun _ => ⟨rfl, rfl⟩

theorem steady_markFailed (id : Nat) (token : String) (attempts : Nat) (lastError : String)
    (maxDelay : Time) (permanent : Bool) : Steady t (markFailed t now id token attempts lastError maxDelay permanent) :=
  steady_update (fun _ _ hsel => .of_unsent (sentAt_of_isClaimedBy hsel) rfl rfl fun _ => ⟨rfl, rfl⟩)
    (fun _ => rfl) fun _ _ hsel => sentAt_of_isClaimedBy hsel

theorem steady_markDead (id : Nat) (token reason : String) :
    Steady t (markDead t now id token reason) := by
  refine steady_update (fun rowID row hsel => ?_) (fun _ => rfl) fun rowID row hsel => ?_ <;>
    rw [Bool.and_eq_true] at hsel
  · refine .of_unsent (sentAt_of_isClaimedBy hsel.1) rfl rfl ?_
    intro hrevoked
    simp [hrevoked] at hsel
  · exact sentAt_of_isClaimedBy hsel.1

theorem steady_cancelPending (agentID : String) : Steady t (cancelPending t now agentID) := by
  refine steady_update (fun rowID row hsel => ?_) (fun _ => rfl) fun rowID row hsel => ?_ <;>
    simp only [Bool.and_eq_true, Option.isNone_iff_eq_none] at hsel
  · refine .of_unsent hsel.1.2 rfl rfl ?_
    intro hrevoked
    simp [hrevoked] at hsel
  · exact hsel.1.2

/-- `MarkSent` delivers the row under the id, with the log id. -/
theorem mem_of_markSent {now : Time} {id rowID : Nat} {token logID : String}
    (hrow : (rowID, row) ∈ (markSent t now id token logID).rows) (hsent : row.sentAt.isSome = true) :
    (rowID, row) ∈ t.rows ∨ rowID = id ∧ row.logID = some logID ∧ ∃ old, (id, old) ∈ t.rows := by
  obtain ⟨old, hold, rfl⟩ := mem_update.mp hrow
  by_cases hsel : isClaimedBy id token rowID old = true
  · right
    have hid : rowID = id := by
      simp only [isClaimedBy, Bool.and_eq_true, beq_iff_eq] at hsel
      exact hsel.1.1
    rw [if_pos hsel]
    exact ⟨hid, rfl, old, hid ▸ hold⟩
  · left
    rw [if_neg hsel]
    exact hold

/-- A new row keeps every old one. -/
theorem kept_insert (row : OutboxRow) {id : Nat} {old : OutboxRow} (hold : (id, old) ∈ t.rows) :
    ∃ new, (id, new) ∈ (t.insert row).rows ∧ Succeeds old new :=
  ⟨old, mem_insert.mpr (.inl hold), .refl old⟩

/-- A new row that is still to be delivered delivers nothing. -/
theorem noneSent_insert (hunsent : row.sentAt = none) {id : Nat} {new : OutboxRow}
    (hnew : (id, new) ∈ (t.insert row).rows) (hsent : new.sentAt.isSome = true) : (id, new) ∈ t.rows := by
  rcases mem_insert.mp hnew with hold | heq
  · exact hold
  · rw [(Prod.mk.inj heq).2, hunsent] at hsent
    cases hsent

theorem steady_enqueue_renewed (agentID : String) (lane : Lane) (payload : OutboxPayload)
    (earliestAttempt : Time) : Steady t (enqueue t now .agentRenewed agentID lane payload earliestAttempt) := by
  refine ⟨⟨fun id old hold => kept_insert _ hold, ?_⟩, fun id new hnew => noneSent_insert rfl hnew⟩
  intro id new hnew htype
  rcases mem_insert.mp hnew with hold | heq
  · exact ⟨new, hold, rfl, rfl⟩
  · rw [(Prod.mk.inj heq).2] at htype
    exact absurd rfl htype

end Outbox

end AgentNameService.Registration
