/-
Purpose: The tables of the registration authority and the statements its stores run on them.  Each store
  method is a transaction on the tables; `Save` on a registration carries the status guard of its `UPDATE`.
Source: internal/adapter/store/sqlite/{agent,certificate,byoc,endpoint,renewal,outbox,activation_seals}.go,
  internal/adapter/store/sqlite/migrations
Trusted boundary: human-reviewed model
-/
import AgentNameService.Foundation.Transaction
import AgentNameService.Registration.Outbox

namespace AgentNameService.Registration

open Tx

/-! ### Rows -/

/-- A row of `agent_registrations`, under its `id`. -/
structure AgentRow where
  agentID : String
  ownerID : String
  ansName : AnsName
  status : RegistrationStatus
  displayName : String
  description : String
  registrationTimestamp : Time
  certOrder : CertificateOrder
deriving DecidableEq, Repr

namespace AgentRow

/-- `toDomain`: the aggregate without what has tables of its own. -/
def toDomain (id : Nat) (row : AgentRow) : AgentRegistration where
  id := id
  agentID := row.agentID
  ownerID := row.ownerID
  ansName := row.ansName
  status := row.status
  displayName := row.displayName
  description := row.description
  registrationTimestamp := row.registrationTimestamp
  certOrder := row.certOrder

/-- The row `Save` inserts. -/
def ofDomain (reg : AgentRegistration) : AgentRow where
  agentID := reg.agentID
  ownerID := reg.ownerID
  ansName := reg.ansName
  status := reg.status
  displayName := reg.displayName
  description := reg.description
  registrationTimestamp := reg.registrationTimestamp
  certOrder := reg.certOrder

/-- The columns `Save` overwrites; agent, owner, name and host are not among them. -/
def overwrite (reg : AgentRegistration) (row : AgentRow) : AgentRow :=
  { row with
    status := reg.status, displayName := reg.displayName, description := reg.description,
    certOrder := reg.certOrder }

end AgentRow

structure EndpointRow where
  agentID : String
  endpoints : List String
deriving DecidableEq, Repr

/-- A row of `agent_csrs`; `csr_id` is its primary key. -/
structure CSRRow where
  agentID : String
  csr : AgentCSR
deriving DecidableEq, Repr

/-- The columns `SaveCSR` overwrites. -/
def CSRRow.overwrite (csr : AgentCSR) (row : CSRRow) : CSRRow :=
  { row with csr := { row.csr with
      status := csr.status, processedTimestamp := csr.processedTimestamp,
      rejectionReason := csr.rejectionReason } }

/-- A row of `issued_certificates`; the certificate's internal id is the key of the row. -/
structure CertificateRow where
  agentID : String
  certificate : StoredCertificate
deriving DecidableEq, Repr

structure ByocRow where
  agentID : String
  certificate : ByocServerCertificate
deriving DecidableEq, Repr

/-- A row of `activation_seals`; `agent_id` is its primary key. -/
structure SealRow where
  agentID : String
  schemaVersion : Lane
  payload : OutboxPayload
deriving DecidableEq, Repr

/-- The database of the registration authority. -/
structure Store where
  agents : Table AgentRow
  endpoints : Table EndpointRow
  csrs : Table CSRRow
  certificates : Table CertificateRow
  byoc : Table ByocRow
  renewals : Table ServerCertificateRenewal
  outbox : Table OutboxRow
  seals : Table SealRow

namespace Store

def empty : Store where
  agents := .empty
  endpoints := .empty
  csrs := .empty
  certificates := .empty
  byoc := .empty
  renewals := .empty
  outbox := .empty
  seals := .empty

/-- `mapSQLErr(sql.ErrNoRows)`. -/
def noRows : Error := .notFound "NOT_FOUND" "sql: no rows in result set"

/-- `mapSQLErr` on a uniqueness violation. -/
def alreadyExists (column : String) : Error :=
  .conflict "ALREADY_EXISTS" ("UNIQUE constraint failed: " ++ column)

def foreignKeyFailed : Error := .plain "FOREIGN KEY constraint failed"

/-- `SELECT … LIMIT 1` into a struct. -/
def one {α : Type} (found : Store → Option α) : Tx Store Error α := do
  match ← reads found with
  | some a => pure a
  | none => abort noRows

/-! ### Registrations -/

def hasAgent (s : Store) (agentID : String) : Bool := s.agents.rows.any fun row => row.2.agentID == agentID

def hasAnsName (s : Store) (name : AnsName) : Bool :=
  s.agents.rows.any fun row => row.2.ansName.text == name.text

def agentConflict : Error :=
  .conflict "AGENT_STATE_CONFLICT" "registration is terminal or no longer exists"

/-- The `WHERE` clause of the `UPDATE` in `Save`: a revoked row stays revoked, and a deprecated row may only
be revoked.  No other status is guarded. -/
def saveGuard (reg : AgentRegistration) (id : Nat) (row : AgentRow) : Bool :=
  id == reg.id && (row.status != .revoked || reg.status == .revoked) &&
    (row.status != .deprecated || (reg.status == .deprecated || reg.status == .revoked))

/-- `Save` on a registration: insert a new one, overwrite a stored one. -/
def saveAgent (reg : AgentRegistration) : Tx Store Error AgentRegistration := do
  let s ← get
  if reg.id = 0 then
    require (s.hasAgent reg.agentID = false) (alreadyExists "agent_registrations.agent_id")
    require (s.hasAnsName reg.ansName = false) (alreadyExists "agent_registrations.ans_name")
    set { s with agents := s.agents.insert (AgentRow.ofDomain reg) }
    return { reg with id := s.agents.next }
  else
    require ((s.agents.select (saveGuard reg)).length = 1) agentConflict
    set { s with agents := s.agents.update (saveGuard reg) (AgentRow.overwrite reg) }
    return reg

def agentByID (s : Store) (agentID : String) : Option AgentRegistration :=
  (s.agents.first fun _ row => row.agentID == agentID).map fun row => row.2.toDomain row.1

def findByAgentID (agentID : String) : Tx Store Error AgentRegistration := one (agentByID · agentID)

def existsByAnsName (name : AnsName) : Tx Store Error Bool := reads (hasAnsName · name)

/-- Newest first. -/
def agentsByHost (s : Store) (host : String) : List AgentRegistration :=
  ((s.agents.select fun _ row => row.ansName.fqdn == host).map fun row => row.2.toDomain row.1).reverse

def findAllByAgentHost (host : String) : Tx Store Error (List AgentRegistration) := reads (agentsByHost · host)

/-- The `WHERE` clause of the sweep of lapsed registrations. -/
def isLapsed (now : Time) (_ : Nat) (row : AgentRow) : Bool :=
  row.status == .pendingValidation && row.certOrder.expiresAt.any (· ≤ now) &&
    (row.certOrder.isZero || row.certOrder.state == .pending)

def expireLapsedPendingValidation (now : Time) : Tx Store Error Nat := do
  let s ← get
  set { s with agents := s.agents.update (isLapsed now) fun row => { row with status := .expired } }
  return (s.agents.select (isLapsed now)).length

/-! ### Endpoints -/

def saveEndpoints (agentID : String) (endpoints : List String) : Tx Store Error Unit := do
  let s ← get
  if s.endpoints.rows.any (·.2.agentID == agentID) then
    set { s with endpoints := s.endpoints.update (fun _ row => row.agentID == agentID)
                  fun row => { row with endpoints := endpoints } }
  else
    set { s with endpoints := s.endpoints.insert { agentID, endpoints } }

def findEndpoints (agentID : String) : Tx Store Error (List String) :=
  one fun s => (s.endpoints.first fun _ row => row.agentID == agentID).map (·.2.endpoints)

/-! ### Signing requests -/

/-- `SaveCSR`: upsert on the request's id; an update keeps agent, type and content. -/
def saveCSR (agentID : String) (csr : AgentCSR) : Tx Store Error Unit := do
  let s ← get
  if s.csrs.rows.any (·.2.csr.csrID == csr.csrID) then
    set { s with csrs := s.csrs.update (fun _ row => row.csr.csrID == csr.csrID) (CSRRow.overwrite csr) }
  else
    require (s.hasAgent agentID = true) foreignKeyFailed
    set { s with csrs := s.csrs.insert { agentID, csr } }

def isPendingCSR (agentID : String) (type : CSRType) (row : CSRRow) : Bool :=
  row.agentID == agentID && row.csr.type == type && row.csr.status == .pending

/-- The pending request submitted last; of several at one instant, the one stored first. -/
def latestPendingCSR (s : Store) (agentID : String) (type : CSRType) : Option AgentCSR :=
  ((s.csrs.select fun _ row => isPendingCSR agentID type row).map (·.2.csr)).foldl
    (fun best csr =>
      match best with
      | none => some csr
      | some b => if b.submissionTimestamp < csr.submissionTimestamp then some csr else some b) none

def findLatestPendingCSRByType (agentID : String) (type : CSRType) : Tx Store Error (Option AgentCSR) :=
  reads (latestPendingCSR · agentID type)

def findCSRByID (agentID csrID : String) : Tx Store Error AgentCSR :=
  one fun s => (s.csrs.first fun _ row => row.agentID == agentID && row.csr.csrID == csrID).map (·.2.csr)

/-! ### Identity certificates -/

def saveIdentityCertificate (agentID : String) (cert : StoredCertificate) : Tx Store Error Unit := do
  let s ← get
  require (s.hasAgent agentID = true) foreignKeyFailed
  set { s with certificates := s.certificates.insert { agentID, certificate := cert } }

/-- Newest first. -/
def certificatesOf (s : Store) (agentID : String) : List StoredCertificate :=
  ((s.certificates.select fun _ row => row.agentID == agentID).map
    fun row => { row.2.certificate with internalID := row.1 }).reverse

def findIdentityCertificatesByAgent (agentID : String) : Tx Store Error (List StoredCertificate) :=
  reads (certificatesOf · agentID)

def updateCertificateStatus (cert : StoredCertificate) : Tx Store Error Unit :=
  writes fun s =>
    { s with certificates := s.certificates.update (fun id _ => id == cert.internalID)
              fun row => { row with certificate := { row.certificate with status := cert.status } } }

/-- The loop over a set of certificates that marks the valid ones revoked. -/
def revokeCertificates (certs : List StoredCertificate) : Tx Store Error Unit :=
  forEach certs fun c =>
    if c.status = .valid then updateCertificateStatus c.revoke else pure ()

/-! ### Server certificates -/

def saveByoc (agentID : String) (cert : ByocServerCertificate) : Tx Store Error Unit := do
  let s ← get
  require (s.hasAgent agentID = true) foreignKeyFailed
  set { s with byoc := s.byoc.insert { agentID, certificate := cert } }

/-- Newest first. -/
def byocOf (s : Store) (agentID : String) : List ByocServerCertificate :=
  ((s.byoc.select fun _ row => row.agentID == agentID).map (·.2.certificate)).reverse

def findByocByAgentID (agentID : String) : Tx Store Error (List ByocServerCertificate) :=
  reads (byocOf · agentID)

def findLatestValidByAgentID (now : Time) (agentID : String) : Tx Store Error ByocServerCertificate :=
  one fun s => (s.byoc.last fun _ row => row.agentID == agentID &&
    decide (row.certificate.validFromTimestamp ≤ now) && decide (now < row.certificate.validToTimestamp)).map
      (·.2.certificate)

/-! ### Renewals -/

def renewalConflict : Error :=
  .conflict "RENEWAL_NOT_PENDING" "renewal completed or was cancelled during processing"

/-- The row an update of a renewal may touch: one that is not completed. -/
def isOpenRenewal (id rowID : Nat) (row : ServerCertificateRenewal) : Bool :=
  rowID == id && row.completedAt.isNone

/-- The columns `Save` overwrites on a renewal. -/
def overwriteRenewal (r row : ServerCertificateRenewal) : ServerCertificateRenewal :=
  { row with
    validation := { row.validation with status := r.validation.status },
    failureReason := r.failureReason, completedAt := r.completedAt }

/-- `Save` on a renewal: an update needs a row that is not completed. -/
def saveRenewal (r : ServerCertificateRenewal) : Tx Store Error Unit := do
  let s ← get
  if r.id = 0 then
    require (s.agents.rows.any (·.1 == r.registrationID) = true) foreignKeyFailed
    set { s with renewals := s.renewals.insert r }
  else
    require ((s.renewals.select (isOpenRenewal r.id)).length = 1) renewalConflict
    set { s with renewals := s.renewals.update (isOpenRenewal r.id) (overwriteRenewal r) }

def renewalOf (row : Nat × ServerCertificateRenewal) : ServerCertificateRenewal := { row.2 with id := row.1 }

def findRenewalByAgentID (agentID : String) : Tx Store Error ServerCertificateRenewal :=
  one fun s => (s.renewals.last fun _ row => row.agentID == agentID).map renewalOf

def pendingRenewal (s : Store) (agentID : String) : Option ServerCertificateRenewal :=
  (s.renewals.last fun _ row => row.agentID == agentID && row.completedAt.isNone).map renewalOf

def findPendingRenewal (agentID : String) : Tx Store Error ServerCertificateRenewal :=
  one (pendingRenewal · agentID)

def deleteRenewal (id : Nat) : Tx Store Error Unit :=
  writes fun s => { s with renewals := s.renewals.delete fun rowID _ => rowID == id }

def listPendingExpired (now : Time) : Tx Store Error (List ServerCertificateRenewal) :=
  reads fun s => (s.renewals.select fun _ row => row.completedAt.isNone &&
    row.validation.status == .pending && decide (row.validation.expiresAt ≤ now)).map renewalOf

/-! ### Activation evidence and the outbox -/

def loadActivationSeal (agentID : String) : Tx Store Error (Option (Lane × OutboxPayload)) :=
  reads fun s => (s.seals.first fun _ row => row.agentID == agentID).map
    fun row => (row.2.schemaVersion, row.2.payload)

/-- `INSERT … ON CONFLICT(agent_id) DO NOTHING`: the first payload stored for an agent wins. -/
def electActivationSeal (agentID : String) (lane : Lane) (payload : OutboxPayload) : Tx Store Error Unit := do
  let s ← get
  if s.seals.rows.any (·.2.agentID == agentID) then pure ()
  else set { s with seals := s.seals.insert { agentID, schemaVersion := lane, payload } }

/-- `PrepareActivationSeal`: every caller gets the winner. -/
def prepareActivationSeal (agentID : String) (lane : Lane) (payload : OutboxPayload) :
    Tx Store Error (Option (Lane × OutboxPayload)) := do
  electActivationSeal agentID lane payload
  loadActivationSeal agentID

def enqueue (now : Time) (eventType : EventType) (agentID : String) (lane : Lane) (payload : OutboxPayload)
    (earliestAttempt : Time) : Tx Store Error Unit :=
  writes fun s =>
    { s with outbox := Outbox.enqueue s.outbox now eventType agentID lane payload earliestAttempt }

def recordSealed (now : Time) (eventType : EventType) (agentID : String) (lane : Lane) (payload : OutboxPayload)
    (logID : String) : Tx Store Error Unit := do
  require (logID ≠ "")
    (.plain "sqlite/outbox: logID is empty — a sealed row must carry the TL ack's logId")
  writes fun s => { s with outbox := Outbox.recordSealed s.outbox now eventType agentID lane payload logID }

def cancelPendingOutbox (now : Time) (agentID : String) : Tx Store Error Unit :=
  writes fun s => { s with outbox := Outbox.cancelPending s.outbox now agentID }

def ready (now : Time) (batchSize : Nat) : Tx Store Error (List (Nat × OutboxRow)) :=
  reads fun s => Outbox.ready s.outbox now batchSize

def acquire (now : Time) (id attempts : Nat) (token : String) (lease : Time) : Tx Store Error Bool := do
  require (token ≠ "" ∧ 0 < lease) (.plain "sqlite/outbox: invalid claim")
  let s ← get
  set { s with outbox := (Outbox.acquire s.outbox now id attempts token lease).2 }
  return (Outbox.acquire s.outbox now id attempts token lease).1

def claimLost : Error := .plain "sqlite/outbox: delivery claim lost or row terminal"

/-- `claimResult`: an update under a claim fails when no row is held under it. -/
def underClaim (holds : Nat → OutboxRow → Bool) (f : Table OutboxRow → Table OutboxRow) : Tx Store Error Unit := do
  let s ← get
  require ((s.outbox.select holds).length = 1) claimLost
  set { s with outbox := f s.outbox }

def markSent (now : Time) (id : Nat) (token logID : String) : Tx Store Error Unit :=
  underClaim (Outbox.isClaimedBy id token) fun t => Outbox.markSent t now id token logID

def markFailed (now : Time) (id : Nat) (token : String) (attempts : Nat) (lastError : String) (maxDelay : Time)
    (permanent : Bool) : Tx Store Error Unit :=
  underClaim (Outbox.isClaimedBy id token)
    fun t => Outbox.markFailed t now id token attempts lastError maxDelay permanent

def markDead (now : Time) (id : Nat) (token reason : String) : Tx Store Error Unit :=
  underClaim (fun rowID row => Outbox.isClaimedBy id token rowID row && row.eventType != .agentRevoked)
    fun t => Outbox.markDead t now id token reason

end Store

end AgentNameService.Registration
