/-
Purpose: Every atomic step of the service as a sequence of the statements its stores run, and which statements each
  step may run.  What a statement keeps, for the statements of a step, the step keeps, whatever the transaction
  around the statements looks like.
Source: internal/adapter/store/sqlite, internal/ra/service
Trusted boundary: none
-/
import Mathlib.Logic.Relation
import AgentNameService.Registration.DeliveryProtocol
import AgentNameService.Registration.Effects

namespace AgentNameService.Registration

open Tx Relation

variable {agentID : String} {now : Time}

namespace Store

variable {st : Statement}

/-! ### Statements -/

/-- A statement that changes the tables. -/
inductive Statement where
  | saveAgent (reg : AgentRegistration)
  | expireLapsed (now : Time)
  | saveEndpoints (agentID : String) (endpoints : List String)
  | saveCSR (agentID : String) (csr : AgentCSR)
  | saveIdentityCertificate (agentID : String) (cert : StoredCertificate)
  | updateCertificateStatus (cert : StoredCertificate)
  | saveByoc (agentID : String) (cert : ByocServerCertificate)
  | saveRenewal (r : ServerCertificateRenewal)
  | deleteRenewal (id : Nat)
  | electActivationSeal (agentID : String) (lane : Lane) (payload : OutboxPayload)
  | outbox (now : Time) (st : Outbox.Statement)

def Statement.exec : Statement → Tx Store Error Unit
  | .saveAgent reg => discard (Store.saveAgent reg)
  | .expireLapsed now => discard (Store.expireLapsedPendingValidation now)
  | .saveEndpoints agentID endpoints => Store.saveEndpoints agentID endpoints
  | .saveCSR agentID csr => Store.saveCSR agentID csr
  | .saveIdentityCertificate agentID cert => Store.saveIdentityCertificate agentID cert
  | .updateCertificateStatus cert => Store.updateCertificateStatus cert
  | .saveByoc agentID cert => Store.saveByoc agentID cert
  | .saveRenewal r => Store.saveRenewal r
  | .deleteRenewal id => Store.deleteRenewal id
  | .electActivationSeal agentID lane payload => Store.electActivationSeal agentID lane payload
  | .outbox now st => writes fun s => { s with outbox := st.run now s.outbox }

/-- What a statement makes of the tables, and what they must hold for it to succeed. -/
inductive Statement.Leaves (s : Store) : Statement → Store → Prop
  | agentInserted {reg} : Leaves s (.saveAgent reg) { s with agents := s.agents.insert (AgentRow.ofDomain reg) }
  | agentSaved {reg} :
      Leaves s (.saveAgent reg) { s with agents := s.agents.update (saveGuard reg) (AgentRow.overwrite reg) }
  | agentsLapsed {now : _} :
      Leaves s (.expireLapsed now)
        { s with agents := s.agents.update (isLapsed now) fun row => { row with status := .expired } }
  | endpoints {agentID endpoints : _} (table : Table EndpointRow) :
      Leaves s (.saveEndpoints agentID endpoints) { s with endpoints := table }
  | csrSaved {agentID csr : _} (known : ∃ id row, (id, row) ∈ s.csrs.rows ∧ row.csr.csrID = csr.csrID) :
      Leaves s (.saveCSR agentID csr)
        { s with csrs := s.csrs.update (fun _ row => row.csr.csrID == csr.csrID) (CSRRow.overwrite csr) }
  | csrInserted {agentID csr : _} (fresh : ∀ id row, (id, row) ∈ s.csrs.rows → row.csr.csrID ≠ csr.csrID) :
      Leaves s (.saveCSR agentID csr) { s with csrs := s.csrs.insert { agentID, csr } }
  | certificateInserted {agentID cert : _} :
      Leaves s (.saveIdentityCertificate agentID cert)
        { s with certificates := s.certificates.insert { agentID, certificate := cert } }
  | certificateStatus {cert} :
      Leaves s (.updateCertificateStatus cert)
        { s with certificates := s.certificates.update (fun id _ => id == cert.internalID)
                  fun row => { row with certificate := { row.certificate with status := cert.status } } }
  | byocInserted {agentID cert : _} :
      Leaves s (.saveByoc agentID cert) { s with byoc := s.byoc.insert { agentID, certificate := cert } }
  | renewalInserted {r} (new : r.id = 0) : Leaves s (.saveRenewal r) { s with renewals := s.renewals.insert r }
  | renewalSaved {r row} (stored : (r.id, row) ∈ s.renewals.rows) (unfinished : row.completedAt = none) :
      Leaves s (.saveRenewal r) (putRenewal r s)
  | renewalDeleted {id} : Leaves s (.deleteRenewal id) { s with renewals := s.renewals.delete fun rowID _ => rowID == id }
  | sealKept {agentID lane payload : _} : Leaves s (.electActivationSeal agentID lane payload) s
  | sealElected {agentID lane payload : _} (first : s.seals.rows.any (·.2.agentID == agentID) = false) :
      Leaves s (.electActivationSeal agentID lane payload)
        { s with seals := s.seals.insert { agentID, schemaVersion := lane, payload } }
  | outbox {now st : _} : Leaves s (.outbox now st) { s with outbox := st.run now s.outbox }

theorem Statement.leaves {s t : Store} (h : st.exec s = .ok ((), t)) : st.Leaves s t := by
  cases st with
  | saveAgent reg =>
    simp only [exec, run_discard_eq_ok_iff, Store.saveAgent, run_bind_eq_ok_iff, run_get_eq_ok_iff,
      run_ite_eq_ok_iff, run_set_eq_ok_iff, run_require_eq_ok_iff, run_pure_eq_ok_iff] at h
    obtain ⟨_, _, _, ⟨rfl, rfl⟩, ⟨_, _, _, ⟨_, rfl⟩, _, _, ⟨_, rfl⟩, _, _, rfl, _, rfl⟩ |
      ⟨_, _, _, ⟨_, rfl⟩, _, _, rfl, _, rfl⟩⟩ := h
    · exact .agentInserted
    · exact .agentSaved
  | expireLapsed now =>
    simp only [exec, run_discard_eq_ok_iff, expireLapsedPendingValidation, run_bind_eq_ok_iff,
      run_get_eq_ok_iff, run_set_eq_ok_iff, run_pure_eq_ok_iff] at h
    obtain ⟨_, _, _, ⟨rfl, rfl⟩, _, _, rfl, _, rfl⟩ := h
    exact .agentsLapsed
  | saveEndpoints =>
    simp only [exec, Store.saveEndpoints, run_bind_eq_ok_iff, run_get_eq_ok_iff, run_ite_eq_ok_iff,
      run_set_eq_ok_iff] at h
    obtain ⟨_, _, ⟨rfl, rfl⟩, ⟨_, rfl⟩ | ⟨_, rfl⟩⟩ := h <;> exact .endpoints _
  | saveCSR =>
    obtain ⟨rfl, hknown⟩ | ⟨rfl, hfresh⟩ := saveCSR_stored h
    · exact .csrSaved hknown
    · exact .csrInserted hfresh
  | saveIdentityCertificate =>
    rw [saveIdentityCertificate_stored h]
    exact .certificateInserted
  | updateCertificateStatus cert =>
    simp only [exec, Store.updateCertificateStatus, run_writes_eq_ok_iff] at h
    subst h
    exact .certificateStatus
  | saveByoc =>
    rw [saveByoc_stored h]
    exact .byocInserted
  | saveRenewal =>
    obtain ⟨hnew, rfl⟩ | ⟨rfl, row, hrow, hopen⟩ := saveRenewal_stored h
    · exact .renewalInserted hnew
    · exact .renewalSaved hrow hopen
  | deleteRenewal id =>
    simp only [exec, Store.deleteRenewal, run_writes_eq_ok_iff] at h
    subst h
    exact .renewalDeleted
  | electActivationSeal =>
    simp only [exec, Store.electActivationSeal, run_bind_eq_ok_iff, run_get_eq_ok_iff, run_ite_eq_ok_iff,
      run_set_eq_ok_iff, run_pure_eq_ok_iff] at h
    obtain ⟨_, _, ⟨rfl, rfl⟩, ⟨_, _, rfl⟩ | ⟨hfirst, rfl⟩⟩ := h
    · exact .sealKept
    · exact .sealElected (Bool.eq_false_iff.mpr hfirst)
  | outbox =>
    simp only [exec, run_writes_eq_ok_iff] at h
    subst h
    exact .outbox

/-- The tables that statements write. -/
inductive TableName where
  | agents | endpoints | csrs | certificates | byoc | renewals | seals | outbox
deriving DecidableEq, Repr

/-- The table that a statement writes. -/
def Statement.table : Statement → TableName
  | .saveAgent _ | .expireLapsed _ => .agents
  | .saveEndpoints .. => .endpoints
  | .saveCSR .. => .csrs
  | .saveIdentityCertificate .. | .updateCertificateStatus _ => .certificates
  | .saveByoc .. => .byoc
  | .saveRenewal _ | .deleteRenewal _ => .renewals
  | .electActivationSeal .. => .seals
  | .outbox .. => .outbox

theorem Statement.Leaves.byoc_eq {s t : Store} (h : st.Leaves s t) (hst : st.table ≠ .byoc) : t.byoc = s.byoc := by
  cases h with
  | byocInserted => exact absurd rfl hst
  | _ => rfl

theorem Statement.Leaves.renewals_eq {s t : Store} (h : st.Leaves s t)
    (hst : st.table ≠ .renewals) : t.renewals = s.renewals := by
  cases h with
  | renewalInserted | renewalSaved | renewalDeleted => exact absurd rfl hst
  | _ => rfl

theorem Statement.Leaves.outbox_eq {s t : Store} (h : st.Leaves s t) (hst : st.table ≠ .outbox) :
    t.outbox = s.outbox := by
  cases h with
  | outbox => exact absurd rfl hst
  | _ => rfl

/-- Any number of statements, each allowed by the tables on which it runs. -/
abbrev Performed (A : Store → Statement → Prop) : Store → Store → Prop :=
  ReflTransGen fun s t => ∃ st, A s st ∧ st.exec s = .ok ((), t)

variable {A : Store → Statement → Prop} {s t : Store} {α : Type} {β : Type} {f : α → Tx Store Error β}
variable {x : Tx Store Error α}

theorem Performed.refl (s : Store) : Performed A s s := ReflTransGen.refl

theorem Performed.trans (s t u : Store) (h : Performed A s t) (h' : Performed A t u) : Performed A s u :=
  ReflTransGen.trans h h'

/-- A relation along which every statement moves the tables. -/
theorem Performed.along {R : Store → Store → Prop} (refl : ∀ s, R s s) (trans : ∀ s t u, R s t → R t u → R s u)
    (hstep : ∀ s st t, A s st → st.Leaves s t → R s t) (h : Performed A s t) : R s t := by
  induction h with
  | refl => exact refl s
  | tail _ hlast ih =>
    obtain ⟨st, hst, hexec⟩ := hlast
    exact trans _ _ _ ih (hstep _ st _ hst (Statement.leaves hexec))

/-- A property of the tables that every statement keeps. -/
theorem Performed.keeps {P : Store → Prop} (hstep : ∀ s st t, A s st → st.Leaves s t → P s → P t)
    (h : Performed A s t) (hs : P s) : P t :=
  h.along (fun _ h => h) (fun _ _ _ h h' hs => h' (h hs)) hstep hs

/-- A table that no statement writes stays as it is. -/
theorem Performed.column_eq {column : Store → α} (hstep : ∀ s st t, A s st → st.Leaves s t → column t = column s)
    (h : Performed A s t) : column t = column s :=
  h.along (R := fun s t => column t = column s) (fun _ => rfl) (fun _ _ _ h h' => h'.trans h) hstep

/-! ### The methods of the stores -/

theorem performed_one (st : Statement) {u : Unit} (hst : A s st) (h : st.exec s = .ok (u, t)) : Performed A s t :=
  .single ⟨st, hst, h⟩

theorem performed_statement (st : Statement) (hst : ∀ s, A s st) : Keeps (Performed A) st.exec :=
  fun s _ _ h => performed_one st (hst s) h

/-- A transaction that goes on with what it read or wrote. -/
theorem performed_bind
    (hx : Keeps (Performed A) x) (hf : ∀ a, Keeps (Performed A) (f a)) : Keeps (Performed A) (x >>= f) :=
  .bind Performed.trans hx hf

/-- A transaction that goes on after a step without a result. -/
theorem performed_then {y : Tx Store Error β}
    (hx : Keeps (Performed A) x) (hy : Keeps (Performed A) y) : Keeps (Performed A) (x >>= fun _ => y) :=
  performed_bind hx fun _ => hy

/-- The steps of a transaction that write nothing. -/
theorem performed_reads (f : Store → α) : Keeps (Performed A) (reads f : Tx Store Error α) :=
  .reads Performed.refl f

theorem performed_require (condition : Prop) [Decidable condition] (failure : Error) :
    Keeps (Performed A) (require condition failure : Tx Store Error Unit) :=
  .require Performed.refl condition failure

theorem performed_pure (a : α) : Keeps (Performed A) (pure a : Tx Store Error α) :=
  .pure Performed.refl a

/-- A row that is read by a key: the transaction goes on with one that the tables hold. -/
theorem performed_find {found : Store → Option α}
    (hf : ∀ s a, found s = some a → Keeps (Performed A) (f a)) : Keeps (Performed A) (one found >>= f) := by
  intro s b t h
  obtain ⟨a, _, hfind, hrest⟩ := run_bind_eq_ok_iff.mp h
  obtain ⟨rfl, hfound⟩ := one_unchanged hfind
  exact hf s a hfound s b t hrest

theorem performed_findByAgentID {f : AgentRegistration → Tx Store Error β}
    (hf : ∀ current, current.agentID = agentID → Keeps (Performed A) (f current)) :
    Keeps (Performed A) (findByAgentID agentID >>= f) := by
  apply performed_find
  intro s current hfound
  obtain ⟨row, _, hdomain, hagent⟩ := agentByID_stored hfound
  apply hf
  rw [← hdomain]
  exact hagent

/-- A value that was computed, with what its success says. -/
theorem performed_ofExcept {x : Except Error α}
    (hf : ∀ a, x = .ok a → Keeps (Performed A) (f a)) : Keeps (Performed A) (ofExcept x >>= f) := by
  intro s b t h
  obtain ⟨a, hvalue, hrest⟩ := run_ofExcept_bind.mp h
  exact hf a hvalue _ b t hrest

/-- A condition that the transaction has checked. -/
theorem performed_check {condition : Prop} [Decidable condition] {failure : Error}
    {f : Unit → Tx Store Error β} (hf : condition → Keeps (Performed A) (f ())) :
    Keeps (Performed A) (require condition failure >>= f) := by
  intro s b t h
  obtain ⟨hcondition, hrest⟩ := run_require_bind.mp h
  exact hf hcondition _ b t hrest

/-- A write for a value that may be there. -/
theorem performed_optional {value : Option α} {step : α → Tx Store Error Unit}
    (hstep : ∀ a, value = some a → Keeps (Performed A) (step a)) :
    Keeps (Performed A) (forEach value.toList step) :=
  .forEach Performed.refl Performed.trans fun a ha => hstep a (Option.mem_toList.mp ha)

/-- A statement whose result a transaction ignores. -/
theorem performed_discard (hx : Keeps (Performed A) x) :
    Keeps (Performed A) (discard x : Tx Store Error PUnit) := by
  intro s _ t h
  obtain ⟨a, ha⟩ := run_discard_eq_ok_iff.mp h
  exact hx s a t ha

theorem saveAgent_performed {reg : AgentRegistration} (hst : ∀ s, A s (.saveAgent reg)) :
    Keeps (Performed A) (saveAgent reg) := by
  intro s stored t h
  have hexec : (Statement.saveAgent reg).exec s = .ok ((), t) := run_discard_eq_ok_iff.mpr ⟨stored, h⟩
  exact performed_one _ (hst s) hexec

theorem saveCSR_performed {csr : AgentCSR} (hst : ∀ s, A s (.saveCSR agentID csr)) :
    Keeps (Performed A) (saveCSR agentID csr) :=
  performed_statement _ hst

theorem saveIdentityCertificate_performed {cert : StoredCertificate}
    (hst : ∀ s, A s (.saveIdentityCertificate agentID cert)) :
    Keeps (Performed A) (saveIdentityCertificate agentID cert) :=
  performed_statement _ hst

theorem saveByoc_performed {cert : ByocServerCertificate}
    (hst : ∀ s, A s (.saveByoc agentID cert)) : Keeps (Performed A) (saveByoc agentID cert) :=
  performed_statement _ hst

theorem saveRenewal_performed {r : ServerCertificateRenewal} (hst : ∀ s, A s (.saveRenewal r)) :
    Keeps (Performed A) (saveRenewal r) :=
  performed_statement _ hst

theorem revokeCertificates_performed (hst : ∀ s cert, A s (.updateCertificateStatus cert))
    (certs : List StoredCertificate) : Keeps (Performed A) (revokeCertificates certs) := by
  apply Keeps.forEach Performed.refl Performed.trans
  intro cert _
  apply Keeps.ite _ (performed_pure ())
  exact performed_statement (.updateCertificateStatus cert.revoke) fun s => hst s _

theorem enqueue_performed {eventType : EventType} {lane : Lane} {payload : OutboxPayload} {earliestAttempt : Time}
    (hst : ∀ s, A s (.outbox now (.enqueue eventType agentID lane payload earliestAttempt))) :
    Keeps (Performed A) (enqueue now eventType agentID lane payload earliestAttempt) :=
  performed_statement (.outbox now (.enqueue eventType agentID lane payload earliestAttempt)) hst

theorem acquire_performed {id attempts : Nat} {token : String} {lease : Time}
    (hst : ∀ s, A s (.outbox now (.acquire id attempts token lease))) :
    Keeps (Performed A) (acquire now id attempts token lease) := by
  intro s _ t h
  obtain ⟨hvalid, _, rfl⟩ := acquire_stored h
  apply performed_one _ (hst s)
  simp only [Statement.exec, Outbox.Statement.run, if_pos hvalid]
  rfl

theorem underClaim_performed {holds : Nat → OutboxRow → Bool} {f : Table OutboxRow → Table OutboxRow}
    {st : Outbox.Statement} (hst : ∀ s, A s (.outbox now st)) (hrun : ∀ t, f t = st.run now t) :
    Keeps (Performed A) (underClaim holds f) := by
  intro s _ t h
  obtain rfl := underClaim_stored h
  rw [hrun]
  exact performed_one _ (hst s) rfl

end Store

open Store Transactions

def Delivery.statement : Delivery → Outbox.Statement
  | .acquire id attempts token lease => .acquire id attempts token lease
  | .markSent id token logID => .markSent id token logID
  | .markFailed id token attempts lastError maxDelay permanent =>
    .markFailed id token attempts lastError maxDelay permanent
  | .markDead id token reason => .markDead id token reason

/-- A renewal that is closed with its validation as it is stored. -/
def Closes (s : Store) (r : ServerCertificateRenewal) : Prop :=
  ∃ row, (r.id, row) ∈ s.renewals.rows ∧ r.validation = row.validation

/-! ### The statements of a call -/

/-- The statements that a call may run. -/
inductive Call.Performs : Call → Store → Statement → Prop
  | saveAgent {s reg} : Performs (.saveAgent reg) s (.saveAgent reg)
  | saveCSR {s agentID csr : _} : Performs (.saveCSR agentID csr) s (.saveCSR agentID csr)
  | saveRenewal {s r} : Performs (.saveRenewal r) s (.saveRenewal r)
  | elect {s agentID lane payload : _} :
      Performs (.prepareActivationSeal agentID lane payload) s (.electActivationSeal agentID lane payload)
  | expire {s now : _} : Performs (.expireLapsedPendingValidation now) s (.expireLapsed now)
  | deliver {s now d : _} : Performs (.delivery d) s (.outbox now d.statement)
  | registerAgent {s reg} : Performs (.register reg) s (.saveAgent reg)
  | registerEndpoints {s reg} : Performs (.register reg) s (.saveEndpoints reg.agentID reg.endpoints)
  | registerCSR {s reg csr} (submitted : reg.identityCSR = some csr ∨ reg.serverCSR = some csr) :
      Performs (.register reg) s (.saveCSR reg.agentID csr)
  | registerByoc {s reg cert} (brought : reg.serverCert = some cert) :
      Performs (.register reg) s (.saveByoc reg.agentID cert)
  | advanceIdentityCSR {s reg server signed stored} :
      Performs (.commitACME reg (some (signed, stored)) server) s (.saveCSR reg.agentID signed)
  | advanceIdentityCertificate {s reg server signed stored} :
      Performs (.commitACME reg (some (signed, stored)) server) s (.saveIdentityCertificate reg.agentID stored)
  | advanceByoc {s reg identity cert signed} :
      Performs (.commitACME reg identity (some (cert, signed))) s (.saveByoc reg.agentID cert)
  | advanceServerCSR {s reg identity cert signed} :
      Performs (.commitACME reg identity (some (cert, signed))) s (.saveCSR reg.agentID signed)
  | advanceAgent {s reg identity server} : Performs (.commitACME reg identity server) s (.saveAgent reg)
  | activateAgent {s reg r sealed} : Performs (.commitActivation reg sealed) s (.saveAgent r)
  | activateCertificate {s reg sealed cert} : Performs (.commitActivation reg sealed) s (.updateCertificateStatus cert)
  | activateSealed {s reg sealed now : _} :
      Performs (.commitActivation reg sealed) s
        (.outbox now (.recordSealed .agentRegistered reg.agentID sealed.schemaVersion sealed.payload sealed.logID))
  | revokeAgent {s reg r certs reason lane now : _} : Performs (.commitRevocation reg certs reason lane now) s (.saveAgent r)
  | revokeOutbox {s reg certs reason lane now stamp : _} :
      Performs (.commitRevocation reg certs reason lane now) s (.outbox stamp (.cancelPending reg.agentID))
  | revokeRenewal {s reg certs reason lane now r : _} (closes : Closes s r) (finished : r.completedAt ≠ none)
      (explained : r.failureReason ≠ "") : Performs (.commitRevocation reg certs reason lane now) s (.saveRenewal r)
  | revokeCSR {s reg certs reason lane now csr : _} (rejected : csr.status = .rejected) :
      Performs (.commitRevocation reg certs reason lane now) s (.saveCSR reg.agentID csr)
  | revokeCertificate {s reg certs reason lane now cert : _} :
      Performs (.commitRevocation reg certs reason lane now) s (.updateCertificateStatus cert)
  | revokeEnqueue {s reg certs reason lane now stamp payload : _} :
      Performs (.commitRevocation reg certs reason lane now) s
        (.outbox stamp (.enqueue .agentRevoked reg.agentID lane payload now))
  | cancelAgent {s reg certs} : Performs (.commitCancellation reg certs) s (.saveAgent reg)
  | cancelCertificate {s reg certs cert} : Performs (.commitCancellation reg certs) s (.updateCertificateStatus cert)
  | sweepCertificate {s certs cert} : Performs (.sweepCertificates certs) s (.updateCertificateStatus cert)
  | rotateAgent {s reg r signed stored dnsRecords lane} :
      Performs (.commitIdentityCSR reg signed stored dnsRecords lane) s (.saveAgent r)
  | rotateCSR {s reg signed stored dnsRecords lane} :
      Performs (.commitIdentityCSR reg signed stored dnsRecords lane) s (.saveCSR reg.agentID signed)
  | rotateCertificate {s reg signed stored dnsRecords lane} :
      Performs (.commitIdentityCSR reg signed stored dnsRecords lane) s (.saveIdentityCertificate reg.agentID stored)
  | rotateEnqueue {s reg signed stored dnsRecords lane now payload time : _} :
      Performs (.commitIdentityCSR reg signed stored dnsRecords lane) s
        (.outbox now (.enqueue .agentRenewed reg.agentID lane payload time))
  | requestAgent {s agentID csr r : _} : Performs (.commitServerCSR agentID csr) s (.saveAgent r)
  | requestCSR {s agentID csr : _} : Performs (.commitServerCSR agentID csr) s (.saveCSR agentID csr)
  | submitAgent {s agentID csr renewal r : _} : Performs (.submitRenewal agentID csr renewal) s (.saveAgent r)
  | submitCSR {s agentID csr renewal : _} : Performs (.submitRenewal agentID (some csr) renewal) s (.saveCSR agentID csr)
  | submitRenewal {s agentID csr renewal : _} : Performs (.submitRenewal agentID csr renewal) s (.saveRenewal renewal)
  | abandonCSR {s agentID renewalID csr : _} (rejected : csr.status = .rejected) :
      Performs (.cancelRenewal agentID renewalID) s (.saveCSR agentID csr)
  | abandonRenewal {s agentID renewalID : _} : Performs (.cancelRenewal agentID renewalID) s (.deleteRenewal renewalID)
  | renewByoc {s reg r cert signed dnsRecords lane} :
      Performs (.commitRenewal reg r cert signed dnsRecords lane) s (.saveByoc reg.agentID cert)
  | renewCSR {s reg r cert signed dnsRecords lane} :
      Performs (.commitRenewal reg r cert (some signed) dnsRecords lane) s (.saveCSR reg.agentID signed)
  | renewAgent {s reg r cert signed dnsRecords lane current} :
      Performs (.commitRenewal reg r cert signed dnsRecords lane) s (.saveAgent current)
  | renewRenewal {s reg r cert signed dnsRecords lane} :
      Performs (.commitRenewal reg r cert signed dnsRecords lane) s (.saveRenewal r)
  | renewEnqueue {s reg r cert signed dnsRecords lane now payload time : _} :
      Performs (.commitRenewal reg r cert signed dnsRecords lane) s
        (.outbox now (.enqueue .agentRenewed reg.agentID lane payload time))

/-! ### The transactions -/

theorem register_performed (reg : AgentRegistration) :
    Keeps (Performed (Call.register reg).Performs) (register reg) := by
  apply performed_bind (saveAgent_performed fun _ => .registerAgent)
  intro stored
  apply performed_then (performed_statement (.saveEndpoints reg.agentID reg.endpoints) fun _ => .registerEndpoints)
  apply performed_then (performed_optional fun csr hcsr => saveCSR_performed fun _ => .registerCSR (.inl hcsr))
  apply performed_then (performed_optional fun csr hcsr => saveCSR_performed fun _ => .registerCSR (.inr hcsr))
  apply performed_then (performed_optional fun cert hcert => saveByoc_performed fun _ => .registerByoc hcert)
  exact performed_pure stored

theorem commitACME_performed (reg : AgentRegistration) (identity : Option (AgentCSR × StoredCertificate))
    (server : Option (ByocServerCertificate × AgentCSR)) :
    Keeps (Performed (Call.commitACME reg identity server).Performs) (commitACME reg identity server) := by
  apply performed_bind
  · apply performed_optional
    rintro ⟨signed, stored⟩ rfl
    apply performed_then (saveCSR_performed fun _ => .advanceIdentityCSR)
    exact saveIdentityCertificate_performed fun _ => .advanceIdentityCertificate
  intro _
  apply performed_bind
  · apply performed_optional
    rintro ⟨cert, signed⟩ rfl
    apply performed_then (saveByoc_performed fun _ => .advanceByoc)
    exact saveCSR_performed fun _ => .advanceServerCSR
  intro _
  exact performed_discard (saveAgent_performed fun _ => .advanceAgent)

theorem settleRival_performed (reg rival : AgentRegistration) (sealed : SealedActivation) :
    Keeps (Performed (Call.commitActivation reg sealed).Performs) (settleRival reg rival) := by
  apply Keeps.ite (performed_pure ())
  apply performed_then (performed_require _ _)
  apply Keeps.ite _ (performed_pure ())
  apply performed_ofExcept
  intro cancelled _
  apply performed_then (performed_discard (saveAgent_performed fun _ => .activateAgent))
  apply performed_bind (performed_reads _)
  exact revokeCertificates_performed fun _ _ => .activateCertificate

variable (ambient : Ambient)

theorem commitActivation_performed (reg : AgentRegistration) (sealed : SealedActivation) :
    Keeps (Performed (Call.commitActivation reg sealed).Performs) (commitActivation ambient reg sealed) := by
  apply performed_findByAgentID
  intro current _
  apply performed_then (performed_require _ _)
  apply performed_bind (performed_reads _)
  intro rows
  apply performed_bind
  · exact .forEach Performed.refl Performed.trans fun rival _ => settleRival_performed reg rival sealed
  intro _
  apply performed_then (performed_discard (saveAgent_performed fun _ => .activateAgent))
  apply performed_then (performed_require _ _)
  exact performed_statement (.outbox ambient.now (.recordSealed .agentRegistered reg.agentID
    sealed.schemaVersion sealed.payload sealed.logID)) fun _ => .activateSealed

theorem markRejected_status {csr rejected : AgentCSR} {reason : String}
    (h : csr.markRejected reason now = .ok rejected) : rejected.status = .rejected := by
  unfold AgentCSR.markRejected at h
  split at h <;> cases h
  rfl

theorem rejectPendingCSRs_performed {A : Store → Statement → Prop}
    (hst : ∀ s csr, csr.status = .rejected → A s (.saveCSR agentID csr)) (type : CSRType) (now : Time) (turns : Nat) :
    Keeps (Performed A) (rejectPendingCSRs agentID type now turns) := by
  induction turns with
  | zero => exact performed_pure ()
  | succ turns ih =>
    apply performed_bind (performed_reads _)
    intro found
    cases found with
    | none => exact performed_pure ()
    | some csr =>
      apply performed_ofExcept
      intro rejected hrejected
      apply performed_then (saveCSR_performed fun s => hst s rejected (markRejected_status hrejected))
      exact ih

theorem cancelRenewalForRevocation_performed {A : Store → Statement → Prop}
    (hst : ∀ s r, Closes s r → r.completedAt ≠ none → r.failureReason ≠ "" → A s (.saveRenewal r)) :
    Keeps (Performed A) (cancelRenewalForRevocation agentID now) := by
  intro s _ t h
  obtain ⟨found, _, hread, h⟩ := run_bind_eq_ok_iff.mp h
  obtain ⟨hfound, rfl⟩ := run_reads_eq_ok_iff.mp hread
  cases found with
  | none => exact performed_pure () _ _ _ h
  | some pending =>
    obtain ⟨failed, hfailed, h⟩ := run_ofExcept_bind.mp h
    apply performed_one (.saveRenewal failed) _ h
    obtain ⟨⟨id, row⟩, hlast, hpending⟩ := Option.map_eq_some_iff.mp hfound
    obtain ⟨hrow, _⟩ := Table.mem_of_last hlast
    obtain ⟨_, rfl⟩ := ServerCertificateRenewal.markFailed_eq_ok_iff.mp hfailed
    have hreason : "Agent revoked" ≠ "" := by decide
    apply hst _ _ _ (Option.some_ne_none now) hreason
    rw [← hpending]
    exact ⟨row, hrow, rfl⟩

theorem commitRevocation_performed (reg : AgentRegistration) (certs : List StoredCertificate)
    (reason : RevocationReason) (lane : Lane) (now : Time) :
    Keeps (Performed (Call.commitRevocation reg certs reason lane now).Performs)
      (commitRevocation ambient reg certs reason lane now) := by
  apply performed_findByAgentID
  intro current hcurrent
  apply Keeps.ite (performed_pure current)
  apply performed_ofExcept
  intro revoked hrevoked
  have hagent : revoked.agentID = reg.agentID := by
    obtain ⟨_, _, _, rfl⟩ := AgentRegistration.revoke_eq_ok_iff.mp hrevoked
    exact hcurrent
  rw [hagent]
  apply performed_bind (performed_reads _)
  intro latestCerts
  apply performed_then (performed_require _ _)
  apply performed_bind
  · apply performed_then (performed_statement (.outbox ambient.now (.cancelPending reg.agentID))
      fun _ => .revokeOutbox)
    apply performed_then (cancelRenewalForRevocation_performed fun _ _ => .revokeRenewal)
    apply performed_bind (performed_reads _)
    intro turns
    apply performed_then (rejectPendingCSRs_performed (fun _ _ => .revokeCSR) _ _ turns)
    apply performed_bind (performed_reads _)
    exact rejectPendingCSRs_performed (fun _ _ => .revokeCSR) _ _
  intro _
  apply performed_then (performed_discard (saveAgent_performed fun _ => .revokeAgent))
  apply performed_then (revokeCertificates_performed (fun _ _ => .revokeCertificate) latestCerts)
  apply performed_ofExcept
  intro payload _
  apply performed_then (enqueue_performed fun _ => .revokeEnqueue)
  exact performed_pure revoked

theorem enqueueCertificateRenewal_performed {A : Store → Statement → Prop} {ambient : Ambient}
    {reg : AgentRegistration} {dnsRecords : List String} {lane : Lane}
    (hst : ∀ s now payload time, A s (.outbox now (.enqueue .agentRenewed reg.agentID lane payload time))) :
    Keeps (Performed A) (enqueueCertificateRenewal ambient reg dnsRecords lane) := by
  apply performed_bind (performed_reads _)
  intro identityCerts
  apply performed_bind (performed_reads _)
  intro serverCerts
  apply performed_ofExcept
  intro payload _
  exact enqueue_performed fun s => hst s _ _ _

theorem commitIdentityCSR_performed (reg : AgentRegistration) (signed : AgentCSR)
    (stored : StoredCertificate) (dnsRecords : List String) (lane : Lane) :
    Keeps (Performed (Call.commitIdentityCSR reg signed stored dnsRecords lane).Performs)
      (commitIdentityCSR ambient reg signed stored dnsRecords lane) := by
  apply performed_findByAgentID
  intro current _
  apply performed_then (performed_require _ _)
  apply performed_then (performed_discard (saveAgent_performed fun _ => .rotateAgent))
  apply performed_then (saveCSR_performed fun _ => .rotateCSR)
  apply performed_then (saveIdentityCertificate_performed fun _ => .rotateCertificate)
  exact enqueueCertificateRenewal_performed fun _ _ _ _ => .rotateEnqueue

theorem commitServerCSR_performed (agentID : String) (csr : AgentCSR) :
    Keeps (Performed (Call.commitServerCSR agentID csr).Performs) (commitServerCSR agentID csr) := by
  apply performed_findByAgentID
  intro current _
  apply performed_then (performed_require _ _)
  apply performed_then (performed_discard (saveAgent_performed fun _ => .requestAgent))
  exact saveCSR_performed fun _ => .requestCSR

theorem submitRenewal_performed (agentID : String) (csr : Option AgentCSR) (renewal : ServerCertificateRenewal) :
    Keeps (Performed (Call.submitRenewal agentID csr renewal).Performs) (submitRenewal agentID csr renewal) := by
  apply performed_findByAgentID
  intro current _
  apply performed_then (performed_require _ _)
  apply performed_bind (performed_reads _)
  intro pending
  apply performed_then (performed_require _ _)
  apply performed_bind
  · apply performed_optional
    rintro csr rfl
    apply performed_then (performed_discard (saveAgent_performed fun _ => .submitAgent))
    exact saveCSR_performed fun _ => .submitCSR
  intro _
  exact saveRenewal_performed fun _ => .submitRenewal

theorem rejectRenewalCSR_performed {A : Store → Statement → Prop} {ambient : Ambient}
    (hst : ∀ s csr, csr.status = .rejected → A s (.saveCSR agentID csr)) (r : ServerCertificateRenewal) :
    Keeps (Performed A) (rejectRenewalCSR ambient agentID r) := by
  apply Keeps.ite (performed_pure ())
  apply performed_find
  intro _ csr _
  apply Keeps.ite (performed_pure ())
  apply performed_ofExcept
  intro rejected hrejected
  exact saveCSR_performed fun s => hst s rejected (markRejected_status hrejected)

theorem cancelRenewal_performed (agentID : String) (renewalID : Nat) :
    Keeps (Performed (Call.cancelRenewal agentID renewalID).Performs) (cancelRenewal ambient agentID renewalID) := by
  apply performed_find
  intro _ current _
  apply performed_check
  rintro rfl
  apply performed_then (performed_require _ _)
  apply performed_then (rejectRenewalCSR_performed (fun _ _ => .abandonCSR) current)
  exact performed_statement (.deleteRenewal current.id) fun _ => .abandonRenewal

theorem commitRenewal_performed (reg : AgentRegistration) (r : ServerCertificateRenewal)
    (cert : ByocServerCertificate) (signed : Option AgentCSR) (dnsRecords : List String) (lane : Lane) :
    Keeps (Performed (Call.commitRenewal reg r cert signed dnsRecords lane).Performs)
      (commitRenewal ambient reg r cert signed dnsRecords lane) := by
  apply performed_findByAgentID
  intro current _
  apply performed_then (performed_require _ _)
  apply performed_find
  intro _ pending _
  apply performed_then (performed_require _ _)
  apply performed_then (saveByoc_performed fun _ => .renewByoc)
  apply performed_bind
  · apply performed_optional
    rintro csr rfl
    apply performed_then (saveCSR_performed fun _ => .renewCSR)
    exact performed_discard (saveAgent_performed fun _ => .renewAgent)
  intro _
  apply performed_then (saveRenewal_performed fun _ => .renewRenewal)
  exact enqueueCertificateRenewal_performed fun _ _ _ _ => .renewEnqueue

/-! ### Every call -/

theorem Delivery.performed (now : Time) (d : Delivery) :
    Keeps (Performed (Call.delivery d).Performs) (d.exec now) := by
  have hst : ∀ s, (Call.delivery d).Performs s (.outbox now d.statement) := fun _ => .deliver
  cases d with
  | acquire => exact acquire_performed hst
  | markSent | markFailed | markDead => exact underClaim_performed hst fun _ => rfl

/-- Every atomic step of the service is a sequence of its statements. -/
theorem Call.performed (c : Call) (ambient : Ambient) : Keeps (Performed c.Performs) (c.exec ambient) := by
  cases c with
  | read => exact .of_unchanged Performed.refl fun _ _ _ h => Read.exec_unchanged h
  | saveAgent => exact saveAgent_performed fun _ => .saveAgent
  | saveCSR => exact saveCSR_performed fun _ => .saveCSR
  | saveRenewal => exact saveRenewal_performed fun _ => .saveRenewal
  | prepareActivationSeal agentID lane payload =>
    apply performed_then (performed_statement (.electActivationSeal agentID lane payload) fun _ => .elect)
    exact performed_reads _
  | expireLapsedPendingValidation now =>
    intro s count t h
    have hexec : (Statement.expireLapsed now).exec s = .ok ((), t) := run_discard_eq_ok_iff.mpr ⟨count, h⟩
    exact performed_one _ .expire hexec
  | delivery d => exact d.performed _
  | register => exact register_performed _
  | commitACME => exact commitACME_performed _ _ _
  | commitActivation => exact commitActivation_performed _ _ _
  | commitRevocation => exact commitRevocation_performed _ _ _ _ _ _
  | commitCancellation reg certs =>
    apply performed_then (performed_discard (saveAgent_performed fun _ => .cancelAgent))
    exact revokeCertificates_performed (fun _ _ => .cancelCertificate) certs
  | sweepCertificates certs => exact revokeCertificates_performed (fun _ _ => .sweepCertificate) certs
  | commitIdentityCSR => exact commitIdentityCSR_performed _ _ _ _ _ _
  | commitServerCSR => exact commitServerCSR_performed _ _
  | submitRenewal => exact submitRenewal_performed _ _ _
  | cancelRenewal => exact cancelRenewal_performed _ _ _
  | commitRenewal => exact commitRenewal_performed _ _ _ _ _ _ _

end AgentNameService.Registration
