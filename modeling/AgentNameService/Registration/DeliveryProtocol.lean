/-
Purpose: The outbox as a protocol between any number of workers and the requests that write events.  A schedule
  is any sequence of the store's statements with any readings of the clock; a lease runs out when a later
  statement reads a later time.  What a statement can do to a stored row is said once, and the fencing of
  stale workers, the order of claims and the finality of rows follow from it.
Source: internal/adapter/store/sqlite/outbox.go, internal/ra/outbox/worker.go
Trusted boundary: human-reviewed model
-/
import AgentNameService.Registration.Outbox

namespace AgentNameService.Registration

open List Table

namespace Outbox

/-! ### Statements and schedules -/

/-- The statements of the outbox store with their arguments. -/
inductive Statement where
  | enqueue (eventType : EventType) (agentID : String) (lane : Lane) (payload : OutboxPayload)
      (earliestAttempt : Time)
  | recordSealed (eventType : EventType) (agentID : String) (lane : Lane) (payload : OutboxPayload)
      (logID : String)
  | ready (batchSize : Nat)
  | acquire (id attempts : Nat) (token : String) (lease : Time)
  | markSent (id : Nat) (token logID : String)
  | markFailed (id : Nat) (token : String) (attempts : Nat) (lastError : String) (maxDelay : Time)
      (permanent : Bool)
  | markDead (id : Nat) (token reason : String)
  | cancelPending (agentID : String)
deriving DecidableEq, Repr

namespace Statement

/-- The table after a statement.  `Acquire` refuses an empty token or lease before it reaches the table. -/
def run (now : Time) (t : Table OutboxRow) : Statement → Table OutboxRow
  | .enqueue eventType agentID lane payload earliestAttempt =>
    Outbox.enqueue t now eventType agentID lane payload earliestAttempt
  | .recordSealed eventType agentID lane payload logID =>
    Outbox.recordSealed t now eventType agentID lane payload logID
  | .ready _ => t
  | .acquire id attempts token lease =>
    if token ≠ "" ∧ 0 < lease then (Outbox.acquire t now id attempts token lease).2 else t
  | .markSent id token logID => Outbox.markSent t now id token logID
  | .markFailed id token attempts lastError maxDelay permanent =>
    Outbox.markFailed t now id token attempts lastError maxDelay permanent
  | .markDead id token reason => Outbox.markDead t now id token reason
  | .cancelPending agentID => Outbox.cancelPending t now agentID

/-- The statement reports success to its caller. -/
def succeeds (now : Time) (t : Table OutboxRow) : Statement → Bool
  | .acquire id attempts token lease =>
    decide (token ≠ "" ∧ 0 < lease) && (Outbox.acquire t now id attempts token lease).1
  | .markSent id token _ | .markFailed id token .. => (t.select (isClaimedBy id token)).length == 1
  | .markDead id token _ =>
    (t.select fun rowID row => isClaimedBy id token rowID row && row.eventType != .agentRevoked).length == 1
  | .enqueue .. | .recordSealed .. | .ready _ | .cancelPending _ => true

/-- A completion is made under the token of a claim, which `Acquire` never grants empty. -/
def underToken : Statement → Bool
  | .markSent _ token _ | .markFailed _ token .. | .markDead _ token _ => token != ""
  | .enqueue .. | .recordSealed .. | .ready _ | .acquire .. | .cancelPending _ => true

end Statement

/-- Statements in the order in which the database runs them, each with its reading of the clock. -/
abbrev Schedule := List (Time × Statement)

/-- The outbox before the statement at a position of a schedule. -/
def before (h : Schedule) (k : Nat) : Table OutboxRow :=
  (h.take k).foldl (fun t timed => timed.2.run timed.1 t) .empty

/-- The schedule has the statement at a position, and it succeeds there. -/
def TakesEffect (h : Schedule) (k : Nat) (st : Statement) : Prop :=
  ∃ now, h[k]? = some (now, st) ∧ st.succeeds now (before h k) = true

/-- Completions carry tokens that can have been granted. -/
def Fenced (h : Schedule) : Prop := ∀ timed ∈ h, timed.2.underToken = true

instance (h : Schedule) : Decidable (Fenced h) := inferInstanceAs (Decidable (∀ timed ∈ h, timed.2.underToken = true))

variable {h : Schedule} {t : Table OutboxRow} {st : Statement} {now : Time} {id k : Nat} {row row' : OutboxRow}
variable {token : String} {logID : String} {attempts : Nat} {lease : Time}

theorem before_succ (hk : h[k]? = some (now, st)) : before h (k + 1) = st.run now (before h k) := by
  simp [before, take_add_one, hk]

theorem before_of_none (hk : h[k]? = none) : before h (k + 1) = before h k := by
  simp [before, take_add_one, hk]

/-- What holds of the empty outbox and is kept by the statements of a schedule holds before every statement. -/
theorem before_induction {P : Table OutboxRow → Prop} (hempty : P .empty)
    (hstep : ∀ now (st : Statement) t, (now, st) ∈ h → P t → P (st.run now t)) (k : Nat) : P (before h k) := by
  induction k with
  | zero => exact hempty
  | succ k ih =>
    cases hk : h[k]? with
    | none =>
      rw [before_of_none hk]
      exact ih
    | some timed =>
      rw [before_succ hk]
      exact hstep timed.1 timed.2 _ (mem_of_getElem? hk) ih

/-- What no statement takes back stays true from one position to a later one. -/
theorem before_persists {P : Table OutboxRow → Prop} (hstep : ∀ now (st : Statement) t, P t → P (st.run now t))
    {i j : Nat} (hij : i ≤ j) (hi : P (before h i)) : P (before h j) := by
  induction hij with
  | refl => exact hi
  | @step j _ ih =>
    cases hj : h[j]? with
    | none =>
      rw [before_of_none hj]
      exact ih
    | some timed =>
      rw [before_succ hj]
      exact hstep timed.1 timed.2 _ ih

/-! ### What a statement does to a stored row -/

/-- The row under a key before and after a statement: left alone, or rewritten under the statement's guard. -/
inductive RowStep (t : Table OutboxRow) (now : Time) (id : Nat) (row : OutboxRow) : Statement → OutboxRow → Prop
  | kept (st : Statement) : RowStep t now id row st row
  | claimed {attempts token lease : _} (hvalid : token ≠ "" ∧ 0 < lease)
      (hacquirable : isAcquirable t now id attempts id row = true) :
      RowStep t now id row (.acquire id attempts token lease)
        { row with claimToken := some token, claimedUntil := some (now + lease) }
  | sent {token logID : _} (hclaim : row.token = token) (hopen : row.isOpen = true) :
      RowStep t now id row (.markSent id token logID)
        { row with sentAt := some now, logID := some logID, claimToken := none, claimedUntil := none }
  | failed {token lastError attempts maxDelay permanent : _} (hopen : row.isOpen = true) (rescheduled : OutboxRow)
      (hsame : rescheduled = { row with
        attempts := rescheduled.attempts, lastError := rescheduled.lastError,
        nextAttemptAt := rescheduled.nextAttemptAt, permanentAttempts := rescheduled.permanentAttempts,
        claimToken := none, claimedUntil := none }) :
      RowStep t now id row (.markFailed id token attempts lastError maxDelay permanent) rescheduled
  | parked {token reason : _} (hopen : row.isOpen = true) (htype : row.eventType ≠ .agentRevoked) :
      RowStep t now id row (.markDead id token reason)
        { row with
          deadAt := some now, lastError := reason, attempts := row.attempts + 1,
          claimToken := none, claimedUntil := none }
  | cancelled {agentID} (hagent : row.agentID = agentID) (htype : row.eventType ≠ .agentRevoked)
      (hunsent : row.sentAt = none) :
      RowStep t now id row (.cancelPending agentID)
        { row with
          cancelledAt := some now, lastError := "superseded by agent revocation",
          claimToken := none, claimedUntil := none }

theorem isClaimedBy_iff {rowID : Nat} :
    isClaimedBy id token rowID row = true ↔ rowID = id ∧ row.token = token ∧ row.isOpen = true := by
  simp [isClaimedBy, and_assoc]

/-- A row that no statement has rewritten yet. -/
structure IsNew (row : OutboxRow) : Prop where
  unclaimed : row.claimToken = none
  notDead : row.deadAt = none
  notCancelled : row.cancelledAt = none

/-- The row that a statement inserts. -/
inductive Statement.Inserts (now : Time) : Statement → OutboxRow → Prop
  | enqueued {eventType agentID lane payload earliestAttempt} :
      Inserts now (.enqueue eventType agentID lane payload earliestAttempt)
        { eventType, agentID, schemaVersion := lane, payload, nextAttemptAt := earliestAttempt, createdAt := now }
  | sealed {eventType agentID lane payload logID : _} :
      Inserts now (.recordSealed eventType agentID lane payload logID)
        { eventType, agentID, schemaVersion := lane, payload, nextAttemptAt := now, createdAt := now,
          sentAt := some now, logID := some logID }

theorem Statement.Inserts.isNew (h : st.Inserts now row) : IsNew row := by
  cases h with
  | enqueued | sealed => exact ⟨rfl, rfl, rfl⟩

/-- Every row after a statement was stored before it, or is new. -/
theorem Statement.row_cases (hrow' : (id, row') ∈ (st.run now t).rows) :
    (∃ row, (id, row) ∈ t.rows ∧ RowStep t now id row st row') ∨ id = t.next ∧ st.Inserts now row' := by
  cases st with
  | enqueue =>
    rcases mem_insert.mp hrow' with hold | hnew
    · exact .inl ⟨row', hold, .kept _⟩
    · obtain ⟨rfl, rfl⟩ := Prod.mk.inj hnew
      exact .inr ⟨rfl, .enqueued⟩
  | recordSealed =>
    rcases mem_insert.mp hrow' with hold | hnew
    · exact .inl ⟨row', hold, .kept _⟩
    · obtain ⟨rfl, rfl⟩ := Prod.mk.inj hnew
      exact .inr ⟨rfl, .sealed⟩
  | ready => exact .inl ⟨row', hrow', .kept _⟩
  | acquire rowID attempts token lease =>
    left
    simp only [Statement.run] at hrow'
    split at hrow'
    · rename_i hvalid
      obtain ⟨row, hrow, rfl⟩ := mem_update.mp hrow'
      refine ⟨row, hrow, ?_⟩
      split
      · rename_i hsel
        have hid : id = rowID := by
          simp only [isAcquirable, Bool.and_eq_true, beq_iff_eq] at hsel
          exact hsel.1.1
        subst hid
        exact .claimed hvalid hsel
      · exact .kept _
    · exact ⟨row', hrow', .kept _⟩
  | markSent rowID token logID =>
    left
    obtain ⟨row, hrow, rfl⟩ := mem_update.mp hrow'
    refine ⟨row, hrow, ?_⟩
    split
    · rename_i hsel
      obtain ⟨rfl, hclaim, hopen⟩ := isClaimedBy_iff.mp hsel
      exact .sent hclaim hopen
    · exact .kept _
  | markFailed rowID token attempts lastError maxDelay permanent =>
    left
    obtain ⟨row, hrow, rfl⟩ := mem_update.mp hrow'
    refine ⟨row, hrow, ?_⟩
    split
    · rename_i hsel
      obtain ⟨rfl, _, hopen⟩ := isClaimedBy_iff.mp hsel
      exact .failed hopen _ rfl
    · exact .kept _
  | markDead rowID token reason =>
    left
    obtain ⟨row, hrow, rfl⟩ := mem_update.mp hrow'
    refine ⟨row, hrow, ?_⟩
    split
    · rename_i hsel
      rw [Bool.and_eq_true, bne_iff_ne] at hsel
      obtain ⟨rfl, _, hopen⟩ := isClaimedBy_iff.mp hsel.1
      exact .parked hopen hsel.2
    · exact .kept _
  | cancelPending agentID =>
    left
    obtain ⟨row, hrow, rfl⟩ := mem_update.mp hrow'
    refine ⟨row, hrow, ?_⟩
    split
    · rename_i hsel
      simp only [Bool.and_eq_true, beq_iff_eq, bne_iff_ne, Option.isNone_iff_eq_none] at hsel
      exact .cancelled hsel.1.1.1 hsel.1.1.2 hsel.1.2
    · exact .kept _

/-- No statement removes a row. -/
theorem Statement.key_kept (st : Statement) (now : Time) (hrow : (id, row) ∈ t.rows) : ∃ row', (id, row') ∈ (st.run now t).rows := by
  cases st with
  | enqueue | recordSealed => exact ⟨row, mem_insert.mpr (.inl hrow)⟩
  | ready => exact ⟨row, hrow⟩
  | acquire =>
    simp only [Statement.run]
    split
    · exact ⟨_, mem_update.mpr ⟨row, hrow, rfl⟩⟩
    · exact ⟨row, hrow⟩
  | markSent | markFailed | markDead | cancelPending => exact ⟨_, mem_update.mpr ⟨row, hrow, rfl⟩⟩

/-- A stored row goes on under its key. -/
theorem Statement.row_step (st : Statement) (now : Time) (hrow : (id, row) ∈ t.rows) :
    ∃ row', (id, row') ∈ (st.run now t).rows ∧ RowStep t now id row st row' := by
  obtain ⟨row', hrow'⟩ := Statement.key_kept st now hrow
  rcases Statement.row_cases hrow' with ⟨old, hold, hstep⟩ | ⟨rfl, _⟩
  · obtain rfl := mem_unique hrow hold
    exact ⟨row', hrow', hstep⟩
  · exact absurd hrow not_mem_next

/-! ### Rows that are final -/

/-- A delivered row is neither parked nor cancelled, and a revocation is never either. -/
structure RowSound (row : OutboxRow) : Prop where
  sent : row.sentAt.isSome = true → row.deadAt = none ∧ row.cancelledAt = none
  revocation : row.eventType = .agentRevoked → row.deadAt = none ∧ row.cancelledAt = none

theorem isOpen_iff : row.isOpen = true ↔ row.sentAt = none ∧ row.deadAt = none ∧ row.cancelledAt = none := by
  simp [OutboxRow.isOpen, and_assoc]

theorem IsNew.sound (hnew : IsNew row) : RowSound row :=
  ⟨fun _ => ⟨hnew.notDead, hnew.notCancelled⟩, fun _ => ⟨hnew.notDead, hnew.notCancelled⟩⟩

theorem RowStep.sound (hstep : RowStep t now id row st row') (hsound : RowSound row) : RowSound row' := by
  cases hstep with
  | kept => exact hsound
  | claimed => exact ⟨hsound.sent, hsound.revocation⟩
  | sent _ hopen =>
    obtain ⟨_, hdead, hcancelled⟩ := isOpen_iff.mp hopen
    exact ⟨fun _ => ⟨hdead, hcancelled⟩, hsound.revocation⟩
  | failed _ _ hsame =>
    rw [hsame]
    exact ⟨hsound.sent, hsound.revocation⟩
  | parked hopen htype =>
    obtain ⟨hunsent, _, _⟩ := isOpen_iff.mp hopen
    constructor
    · intro hsent
      simp [hunsent] at hsent
    · intro hrevoked
      exact absurd hrevoked htype
  | cancelled _ htype hunsent =>
    constructor
    · intro hsent
      simp [hunsent] at hsent
    · intro hrevoked
      exact absurd hrevoked htype

/-- A closed row stays closed. -/
theorem RowStep.closed (hstep : RowStep t now id row st row') (hclosed : row.isOpen = false) : row'.isOpen = false := by
  cases hstep with
  | kept | claimed => exact hclosed
  | sent | parked | cancelled => simp [OutboxRow.isOpen]
  | failed _ _ hsame =>
    rw [hsame]
    exact hclosed

/-- A closed row that was not delivered is not delivered later. -/
theorem RowStep.undelivered (hstep : RowStep t now id row st row') (hclosed : row.isOpen = false)
    (hunsent : row.sentAt = none) : row'.sentAt = none := by
  cases hstep with
  | kept | claimed | parked | cancelled => exact hunsent
  | sent _ hopen =>
    rw [hclosed] at hopen
    cases hopen
  | failed _ _ hsame =>
    rw [hsame]
    exact hunsent

/-- The rows of every schedule are sound. -/
theorem sound_before (h : Schedule) (k : Nat) : ∀ id row, (id, row) ∈ (before h k).rows → RowSound row := by
  apply before_induction (P := fun t => ∀ id row, (id, row) ∈ t.rows → RowSound row)
  · simp
  · intro now st t _ ih id row' hrow'
    rcases Statement.row_cases hrow' with ⟨row, hrow, hstep⟩ | ⟨_, hnew⟩
    · exact hstep.sound (ih id row hrow)
    · exact hnew.isNew.sound

/-- The row under a key is closed. -/
def ClosedIn (id : Nat) (t : Table OutboxRow) : Prop := ∃ row, (id, row) ∈ t.rows ∧ row.isOpen = false

/-- From one position of a schedule to a later one. -/
theorem closed_before {i j : Nat} (hij : i ≤ j) (hclosed : ClosedIn id (before h i)) : ClosedIn id (before h j) := by
  apply before_persists _ hij hclosed
  rintro now st t ⟨row, hrow, hrowClosed⟩
  obtain ⟨row', hrow', hstep⟩ := Statement.row_step st now hrow
  exact ⟨row', hrow', hstep.closed hrowClosed⟩

/-- The row under a key is closed and was not delivered. -/
def WithdrawnIn (id : Nat) (t : Table OutboxRow) : Prop :=
  ∃ row, (id, row) ∈ t.rows ∧ row.isOpen = false ∧ row.sentAt = none

/-- What was withdrawn at a position is so at a later one. -/
theorem withdrawn_before {i j : Nat} (hij : i ≤ j) (hwithdrawn : WithdrawnIn id (before h i)) :
    WithdrawnIn id (before h j) := by
  apply before_persists _ hij hwithdrawn
  rintro now st t ⟨row, hrow, hclosed, hunsent⟩
  obtain ⟨row', hrow', hstep⟩ := Statement.row_step st now hrow
  exact ⟨row', hrow', hstep.closed hclosed, hstep.undelivered hclosed hunsent⟩

theorem WithdrawnIn.closed (hwithdrawn : WithdrawnIn id t) : ClosedIn id t := by
  obtain ⟨row, hrow, hclosed, _⟩ := hwithdrawn
  exact ⟨row, hrow, hclosed⟩

/-! ### Statements that take effect -/

/-- `MarkSent` takes effect on an open row that is held under its token. -/
theorem TakesEffect.held (heffect : TakesEffect h k (.markSent id token logID)) :
    ∃ row, (id, row) ∈ (before h k).rows ∧ row.token = token ∧ row.isOpen = true := by
  obtain ⟨now, _, hsucceeds⟩ := heffect
  simp only [Statement.succeeds, beq_iff_eq] at hsucceeds
  obtain ⟨⟨rowID, row⟩, hsingle⟩ := length_eq_one_iff.mp hsucceeds
  obtain ⟨hrow, hsel⟩ := mem_select.mp (hsingle ▸ mem_singleton_self (rowID, row))
  obtain ⟨rfl, htoken, hopen⟩ := isClaimedBy_iff.mp hsel
  exact ⟨row, hrow, htoken, hopen⟩

/-- After it the row is closed. -/
theorem TakesEffect.closed (heffect : TakesEffect h k (.markSent id token logID)) : ClosedIn id (before h (k + 1)) := by
  obtain ⟨row, hrow, htoken, hopen⟩ := heffect.held
  obtain ⟨now, hk, _⟩ := heffect
  rw [before_succ hk]
  refine ⟨_, mem_update.mpr ⟨row, hrow, rfl⟩, ?_⟩
  rw [if_pos (isClaimedBy_iff.mpr ⟨rfl, htoken, hopen⟩)]
  simp [OutboxRow.isOpen]

/-- No closed row is marked sent. -/
theorem not_takesEffect_of_closed (hclosed : ClosedIn id (before h k)) :
    ¬ TakesEffect h k (.markSent id token logID) := by
  intro heffect
  obtain ⟨row, hrow, hrowClosed⟩ := hclosed
  obtain ⟨held, hheld, _, hopen⟩ := heffect.held
  rw [mem_unique hheld hrow, hrowClosed] at hopen
  cases hopen

/-- `Acquire` takes effect on the one row it selects. -/
theorem TakesEffect.acquired (heffect : TakesEffect h k (.acquire id attempts token lease)) :
    ∃ now row, h[k]? = some (now, .acquire id attempts token lease) ∧ (id, row) ∈ (before h k).rows ∧
      (token ≠ "" ∧ 0 < lease) ∧ isAcquirable (before h k) now id attempts id row = true := by
  obtain ⟨now, hk, hsucceeds⟩ := heffect
  simp only [Statement.succeeds, acquire, Bool.and_eq_true, decide_eq_true_iff, beq_iff_eq] at hsucceeds
  obtain ⟨hvalid, hone⟩ := hsucceeds
  obtain ⟨⟨rowID, row⟩, hsingle⟩ := length_eq_one_iff.mp hone
  obtain ⟨hrow, hsel⟩ := mem_select.mp (hsingle ▸ mem_singleton_self (rowID, row))
  have hid : rowID = id := by
    simp only [isAcquirable, Bool.and_eq_true, beq_iff_eq] at hsel
    exact hsel.1.1
  subst hid
  exact ⟨now, row, hk, hrow, hvalid, hsel⟩

/-- The row that an `Acquire` has reserved carries its token. -/
theorem TakesEffect.claimToken
    (heffect : TakesEffect h k (.acquire id attempts token lease)) (hrow' : (id, row') ∈ (before h (k + 1)).rows) :
    row'.claimToken = some token := by
  obtain ⟨now, row, hk, hrow, hvalid, hsel⟩ := heffect.acquired
  rw [before_succ hk] at hrow'
  simp only [Statement.run, if_pos hvalid] at hrow'
  obtain ⟨old, hold, rfl⟩ := mem_update.mp hrow'
  obtain rfl := mem_unique hrow hold
  rw [if_pos hsel]

/-- A row that could be reserved is reserved. -/
theorem takesEffect_acquire
    (hk : h[k]? = some (now, .acquire id attempts token lease)) (hrow : (id, row) ∈ (before h k).rows)
    (hvalid : token ≠ "" ∧ 0 < lease) (hsel : isAcquirable (before h k) now id attempts id row = true) :
    TakesEffect h k (.acquire id attempts token lease) := by
  refine ⟨now, hk, ?_⟩
  simp only [Statement.succeeds, acquire, Bool.and_eq_true, decide_eq_true_iff, beq_iff_eq]
  refine ⟨hvalid, ?_⟩
  rw [select_eq_singleton hrow hsel]
  · rfl
  · intro rowID _ _ hother
    simp only [isAcquirable, Bool.and_eq_true, beq_iff_eq] at hother
    exact hother.1.1

/-! ### The token of a claim -/

/-- Some `Acquire` of the row took effect with the token, and none has since. -/
def LastClaim (h : Schedule) (k id : Nat) (token : String) : Prop :=
  ∃ i, i < k ∧ (∃ attempts lease, TakesEffect h i (.acquire id attempts token lease)) ∧
    ∀ j, i < j → j < k → ∀ attempts other lease, ¬ TakesEffect h j (.acquire id attempts other lease)

theorem LastClaim.extend (hlast : LastClaim h k id token)
    (hnone : ∀ attempts other lease, ¬ TakesEffect h k (.acquire id attempts other lease)) :
    LastClaim h (k + 1) id token := by
  obtain ⟨i, hik, hclaim, hbetween⟩ := hlast
  refine ⟨i, Nat.lt_succ_of_lt hik, hclaim, ?_⟩
  intro j hij hjk
  rcases Nat.lt_succ_iff_lt_or_eq.mp hjk with hlt | rfl
  · exact hbetween j hij hlt
  · exact hnone

/-- The statement at a position that is not an `Acquire` of the row leaves its claim alone or gives it up. -/
theorem RowStep.claimToken (hk : h[k]? = some (now, st)) (hrow : (id, row) ∈ (before h k).rows)
    (hstep : RowStep (before h k) now id row st row')
    (hnone : ∀ attempts other lease, ¬ TakesEffect h k (.acquire id attempts other lease))
    (hclaim : row'.claimToken = some token) : row.claimToken = some token := by
  cases hstep with
  | kept => exact hclaim
  | claimed hvalid hsel => exact absurd (takesEffect_acquire hk hrow hvalid hsel) (hnone _ _ _)
  | sent | parked | cancelled => cases hclaim
  | failed _ _ hsame =>
    rw [hsame] at hclaim
    cases hclaim

/-- A row carries the token of its most recent `Acquire`, or none. -/
theorem lastClaim_of_claimToken (hrow : (id, row) ∈ (before h k).rows)
    (hclaim : row.claimToken = some token) : LastClaim h k id token := by
  induction k generalizing row with
  | zero => simp [before] at hrow
  | succ k ih =>
    by_cases hacquired : ∃ attempts other lease, TakesEffect h k (.acquire id attempts other lease)
    · obtain ⟨attempts, other, lease, heffect⟩ := hacquired
      have htoken : other = token := Option.some.inj ((heffect.claimToken hrow).symm.trans hclaim)
      subst htoken
      exact ⟨k, Nat.lt_succ_self k, ⟨attempts, lease, heffect⟩, fun j hkj hjk => absurd hjk (Nat.not_lt.mpr hkj)⟩
    · have hnone : ∀ attempts other lease, ¬ TakesEffect h k (.acquire id attempts other lease) :=
        fun attempts other lease heffect => hacquired ⟨attempts, other, lease, heffect⟩
      cases hk : h[k]? with
      | none =>
        rw [before_of_none hk] at hrow
        exact (ih hrow hclaim).extend hnone
      | some timed =>
        rw [before_succ hk] at hrow
        rcases Statement.row_cases hrow with ⟨old, hold, hstep⟩ | ⟨_, hnew⟩
        · exact (ih hold (hstep.claimToken hk hold hnone hclaim)).extend hnone
        · rw [hnew.isNew.unclaimed] at hclaim
          cases hclaim

/-! ### The protocol -/

/-- A delivery is recorded under the row's most recent claim. -/
theorem TakesEffect.lastClaim (hfenced : Fenced h)
    (heffect : TakesEffect h k (.markSent id token logID)) : LastClaim h k id token := by
  obtain ⟨row, hrow, htoken, _⟩ := heffect.held
  obtain ⟨now, hk, _⟩ := heffect
  have hgranted : token ≠ "" := by
    have := hfenced _ (mem_of_getElem? hk)
    simpa [Statement.underToken] using this
  apply lastClaim_of_claimToken hrow
  -- the column is `COALESCE(claim_token, '')`, so a token that is not empty is the one stored
  cases hclaim : row.claimToken with
  | none =>
    rw [OutboxRow.token, hclaim] at htoken
    exact absurd htoken.symm hgranted
  | some stored =>
    rw [OutboxRow.token, hclaim] at htoken
    exact congrArg some htoken

/-- A row is delivered once. -/
theorem TakesEffect.once {i j : Nat} {token' logID' : String}
    (hi : TakesEffect h i (.markSent id token logID)) (hj : TakesEffect h j (.markSent id token' logID')) : i = j := by
  rcases Nat.lt_trichotomy i j with hlt | heq | hlt
  · exact absurd hj (not_takesEffect_of_closed (closed_before hlt hi.closed))
  · exact heq
  · exact absurd hi (not_takesEffect_of_closed (closed_before hlt hj.closed))

/-- An ordinary row is reserved only when every earlier row of its agent is closed. -/
theorem TakesEffect.inOrder
    (heffect : TakesEffect h k (.acquire id attempts token lease)) (hrow : (id, row) ∈ (before h k).rows)
    (htype : row.eventType ≠ .agentRevoked) {j : Nat} {earlier : OutboxRow}
    (hearlier : (j, earlier) ∈ (before h k).rows) (hlt : j < id) (hagent : earlier.agentID = row.agentID) :
    earlier.isOpen = false := by
  obtain ⟨now, stored, _, hstored, _, hsel⟩ := heffect.acquired
  obtain rfl := mem_unique hrow hstored
  simp only [isAcquirable, isClaimable, Bool.and_eq_true, Bool.or_eq_true, beq_iff_eq, htype, false_or,
    Bool.not_eq_true', hasOpenPredecessor, any_eq_false] at hsel
  have hclosed := hsel.2.2 (j, earlier) hearlier
  simpa [hagent, hlt] using hclosed

/-- `CancelPending` withdraws the agent's rows that are not delivered yet, except revocations. -/
theorem cancelPending_withdraws {agentID : String} (hrow : (id, row) ∈ t.rows) (hagent : row.agentID = agentID)
    (htype : row.eventType ≠ .agentRevoked) (hunsent : row.sentAt = none) :
    WithdrawnIn id (cancelPending t now agentID) := by
  refine ⟨_, mem_update.mpr ⟨row, hrow, rfl⟩, ?_⟩
  split
  · exact ⟨by simp [OutboxRow.isOpen], hunsent⟩
  · rename_i hsel
    -- the row was not selected, so it had been cancelled before
    refine ⟨Bool.eq_false_iff.mpr ?_, hunsent⟩
    intro hopen
    obtain ⟨_, _, hcancelled⟩ := isOpen_iff.mp hopen
    simp [hagent, htype, hunsent, hcancelled] at hsel

/-- The delivery protocol, for every schedule of statements and every reading of the clock: a row is delivered at
most once and under its most recent claim; no delivered row is parked or cancelled; ordinary rows are claimed
in the order of their agent; revocations are neither parked nor cancelled; and what was pending when the
agent's deliveries were cancelled is never delivered. -/
theorem outbox_delivery_protocol (h : Schedule) (hfenced : Fenced h) :
    ((∀ id i j token token' logID logID', TakesEffect h i (.markSent id token logID) →
        TakesEffect h j (.markSent id token' logID') → i = j) ∧
      ∀ id k token logID, TakesEffect h k (.markSent id token logID) → LastClaim h k id token) ∧
    (∀ k id row, (id, row) ∈ (before h k).rows → row.sentAt.isSome = true →
      row.deadAt = none ∧ row.cancelledAt = none) ∧
    (∀ k id attempts token lease, TakesEffect h k (.acquire id attempts token lease) →
      ∃ row, (id, row) ∈ (before h k).rows ∧ (row.eventType ≠ .agentRevoked →
        ∀ j earlier, (j, earlier) ∈ (before h k).rows → j < id → earlier.agentID = row.agentID →
          earlier.sentAt.isSome = true ∨ earlier.deadAt.isSome = true ∨ earlier.cancelledAt.isSome = true)) ∧
    (∀ k id row, (id, row) ∈ (before h k).rows → row.eventType = .agentRevoked →
      row.deadAt = none ∧ row.cancelledAt = none) ∧
    (∀ k agentID, TakesEffect h k (.cancelPending agentID) → ∀ id row, (id, row) ∈ (before h k).rows →
      row.agentID = agentID → row.sentAt = none → row.eventType ≠ .agentRevoked →
      ∀ j, k < j → (∀ token logID, ¬ TakesEffect h j (.markSent id token logID)) ∧
        ∀ row', (id, row') ∈ (before h j).rows → row'.sentAt = none) := by
  refine ⟨⟨?_, ?_⟩, ?_, ?_, ?_, ?_⟩
  · intro id i j token token' logID logID' hi hj
    exact hi.once hj
  · intro id k token logID heffect
    exact heffect.lastClaim hfenced
  · intro k id row hrow
    exact (sound_before h k id row hrow).sent
  · intro k id attempts token lease heffect
    obtain ⟨_, row, _, hrow, _, _⟩ := heffect.acquired
    refine ⟨row, hrow, ?_⟩
    intro htype j earlier hearlier hlt hagent
    have hclosed := heffect.inOrder hrow htype hearlier hlt hagent
    simp only [OutboxRow.isOpen, Bool.and_eq_false_iff, Option.isNone_eq_false_iff] at hclosed
    rcases hclosed with (hsent | hdead) | hcancelled
    · exact .inl hsent
    · exact .inr (.inl hdead)
    · exact .inr (.inr hcancelled)
  · intro k id row hrow
    exact (sound_before h k id row hrow).revocation
  · intro k agentID heffect id row hrow hagent hunsent htype j hkj
    obtain ⟨now, hk, _⟩ := heffect
    have hcancelled : WithdrawnIn id (before h (k + 1)) := by
      rw [before_succ hk]
      exact cancelPending_withdraws hrow hagent htype hunsent
    have hwithdrawn := withdrawn_before hkj hcancelled
    refine ⟨fun token logID => not_takesEffect_of_closed hwithdrawn.closed, ?_⟩
    intro row' hrow'
    obtain ⟨stored, hstored, _, hstoredUnsent⟩ := hwithdrawn
    rw [mem_unique hrow' hstored]
    exact hstoredUnsent

/-- A worker is paused beyond its lease while another one takes over the row and delivers it; the acknowledgement
of the first comes late. -/
def takenOver : Schedule :=
  [(0, .enqueue .agentRenewed "agent-1" .v2 ⟨"renewed", "signature"⟩ 0),
   (1, .acquire 1 0 "first" 60000),
   (70000, .acquire 1 0 "second" 60000),
   (70001, .markSent 1 "first" "log-1"),
   (70002, .markSent 1 "second" "log-1")]

theorem outbox_delivery_protocol_takenOver : Fenced takenOver ∧
    TakesEffect takenOver 4 (.markSent 1 "second" "log-1") ∧ LastClaim takenOver 4 1 "second" ∧
    ¬ TakesEffect takenOver 3 (.markSent 1 "first" "log-1") := by
  have hfenced : Fenced takenOver := by decide
  have heffect : TakesEffect takenOver 4 (.markSent 1 "second" "log-1") := ⟨70002, by decide, by decide⟩
  have hprotocol := (outbox_delivery_protocol takenOver hfenced).1
  refine ⟨hfenced, heffect, hprotocol.2 1 4 "second" "log-1" heffect, ?_⟩
  intro hstale
  exact absurd (hprotocol.1 1 3 4 "first" "second" "log-1" "log-1" hstale heffect) (by decide)

end Outbox

end AgentNameService.Registration
