/-
Purpose: Every atomic step of the service as a sequence of single writes to the tables, and the statements each
  step runs on the outbox.  A property that each write keeps is kept by every step, whatever the transaction
  around the writes looks like.
Source: internal/adapter/store/sqlite, internal/ra/service
Trusted boundary: none
-/
import AgentNameService.Registration.Statements

namespace AgentNameService.Registration

namespace Store

/-! ### Single writes -/

/-- The statements on the outbox and the renewals that may be written. -/
structure Allowed where
  statement : Outbox.Statement → Prop
  renewal : Store → ServerCertificateRenewal → Prop

/-- One write to one table; on the outbox and of renewals, one of those allowed. -/
inductive Write (A : Allowed) (s : Store) : Store → Prop
  | agentInserted (reg : AgentRegistration) :
      Write A s { s with agents := s.agents.insert (AgentRow.ofDomain reg) }
  | agentSaved (reg : AgentRegistration) :
      Write A s { s with agents := s.agents.update (saveGuard reg) (AgentRow.overwrite reg) }
  | agentsLapsed (now : Time) :
      Write A s { s with agents := s.agents.update (isLapsed now) fun row => { row with status := .expired } }
  | endpoints (table : Table EndpointRow) : Write A s { s with endpoints := table }
  | csrs (table : Table CSRRow) : Write A s { s with csrs := table }
  | certificateInserted (agentID : String) (cert : StoredCertificate) :
      Write A s { s with certificates := s.certificates.insert { agentID, certificate := cert } }
  | certificateStatus (cert : StoredCertificate) :
      Write A s { s with certificates := s.certificates.update (fun id _ => id == cert.internalID)
                          fun row => { row with certificate := { row.certificate with status := cert.status } } }
  | byoc (table : Table ByocRow) : Write A s { s with byoc := table }
  | renewalInserted {r} (hr : A.renewal s r) (hid : r.id = 0) : Write A s { s with renewals := s.renewals.insert r }
  | renewalSaved {r} (hr : A.renewal s r) (hid : r.id ≠ 0) :
      Write A s { s with renewals := s.renewals.update (isOpenRenewal r.id) (overwriteRenewal r) }
  | renewalDeleted (id : Nat) :
      Write A s { s with renewals := s.renewals.delete fun rowID _ => rowID == id }
  | sealElected {agentID} (hfirst : s.seals.rows.any (·.2.agentID == agentID) = false) (lane : Lane)
      (payload : OutboxPayload) : Write A s { s with seals := s.seals.insert { agentID, schemaVersion := lane, payload } }
  | outbox (now : Time) {st} (hst : A.statement st) : Write A s { s with outbox := st.run now s.outbox }

/-- Any number of writes. -/
abbrev Writes (A : Allowed) : Store → Store → Prop := Relation.ReflTransGen (Write A)

variable {A : Allowed} {s t : Store}

theorem Writes.refl (s : Store) : Writes A s s := Relation.ReflTransGen.refl

theorem Writes.trans (s t u : Store) (h : Writes A s t) (h' : Writes A t u) : Writes A s u :=
  Relation.ReflTransGen.trans h h'

theorem Write.writes (h : Write A s t) : Writes A s t := Relation.ReflTransGen.single h

/-- What single writes keep, any number of them keeps. -/
theorem Writes.keeps {P : Store → Prop} (hwrite : ∀ s t, Write A s t → P s → P t) (h : Writes A s t) (hs : P s) :
    P t := by
  induction h with
  | refl => exact hs
  | tail _ hlast ih => exact hwrite _ _ hlast ih

/-! ### Statements as writes -/

/-- A statement is at most one write. -/
theorem Statement.Leaves.writes {st : Statement} (hr : ∀ r, st = .saveRenewal r → A.renewal s r)
    (hst : ∀ now ost, st = .outbox now ost → A.statement ost) (h : st.Leaves s t) : Writes A s t := by
  cases h with
  | agentInserted => exact (Write.agentInserted _).writes
  | agentSaved => exact (Write.agentSaved _).writes
  | agentsLapsed => exact (Write.agentsLapsed _).writes
  | endpoints table => exact (Write.endpoints table).writes
  | csrSaved | csrInserted => exact (Write.csrs _).writes
  | certificateInserted => exact (Write.certificateInserted _ _).writes
  | certificateStatus => exact (Write.certificateStatus _).writes
  | byocInserted => exact (Write.byoc _).writes
  | renewalInserted hnew => exact (Write.renewalInserted (hr _ rfl) hnew).writes
  | renewalSaved hrow =>
    have hid := Nat.pos_iff_ne_zero.mp (s.renewals.bounded _ hrow).1
    exact (Write.renewalSaved (hr _ rfl) hid).writes
  | renewalDeleted => exact (Write.renewalDeleted _).writes
  | sealKept => exact .refl s
  | sealElected hfirst => exact (Write.sealElected hfirst _ _).writes
  | outbox => exact (Write.outbox _ (hst _ _ rfl)).writes

end Store

open Store

/-! ### Every call -/

/-- The statements that a call may run on the outbox. -/
inductive Call.Runs : Call → Outbox.Statement → Prop
  | delivers (d : Delivery) : Runs (.delivery d) d.statement
  | seals {reg sealed} :
      Runs (.commitActivation reg sealed)
        (.recordSealed .agentRegistered reg.agentID sealed.schemaVersion sealed.payload sealed.logID)
  | cancels {reg certs reason lane now} (agentID : String) :
      Runs (.commitRevocation reg certs reason lane now) (.cancelPending agentID)
  | revokes {reg certs reason lane now} (agentID : String) (payload : OutboxPayload) :
      Runs (.commitRevocation reg certs reason lane now) (.enqueue .agentRevoked agentID lane payload now)
  | rotates {reg signed stored dnsRecords lane} (payload : OutboxPayload) (time : Time) :
      Runs (.commitIdentityCSR reg signed stored dnsRecords lane) (.enqueue .agentRenewed reg.agentID lane payload time)
  | renews {reg r cert signed dnsRecords lane} (payload : OutboxPayload) (time : Time) :
      Runs (.commitRenewal reg r cert signed dnsRecords lane) (.enqueue .agentRenewed reg.agentID lane payload time)

/-- The renewals that a call may write. -/
inductive Call.Renews : Call → Store → ServerCertificateRenewal → Prop
  | saves {s} (r : ServerCertificateRenewal) : Renews (.saveRenewal r) s r
  | submits {agentID csr s} (r : ServerCertificateRenewal) : Renews (.submitRenewal agentID csr r) s r
  | closes {reg certs reason lane now} (s : Store) (r : ServerCertificateRenewal) (hcloses : Closes s r) :
      Renews (.commitRevocation reg certs reason lane now) s r
  | completes {reg r cert signed dnsRecords lane} (s : Store) : Renews (.commitRenewal reg r cert signed dnsRecords lane) s r

def Call.allowed (c : Call) : Allowed := ⟨c.Runs, c.Renews⟩

theorem Call.Performs.runs {c : Call} {s : Store} {now : Time} {st : Outbox.Statement}
    (h : c.Performs s (.outbox now st)) : c.Runs st := by
  cases h with
  | deliver => exact .delivers _
  | activateSealed => exact .seals
  | revokeOutbox => exact .cancels _
  | revokeEnqueue => exact .revokes _ _
  | rotateEnqueue => exact .rotates _ _
  | renewEnqueue => exact .renews _ _

theorem Call.Performs.renews {c : Call} {s : Store} {r : ServerCertificateRenewal}
    (h : c.Performs s (.saveRenewal r)) : c.Renews s r := by
  cases h with
  | saveRenewal => exact .saves _
  | revokeRenewal hcloses _ _ => exact .closes _ _ hcloses
  | submitRenewal => exact .submits _
  | renewRenewal => exact .completes _

/-- Every atomic step of the service is a sequence of single writes. -/
theorem Call.writes (c : Call) (ambient : Ambient) : Tx.Keeps (Writes c.allowed) (c.exec ambient) := by
  intro s a t h
  apply (c.performed ambient s a t h).along Writes.refl Writes.trans
  intro s st t hst hleaves
  apply hleaves.writes
  · rintro r rfl
    exact hst.renews
  · rintro now ost rfl
    exact hst.runs

end AgentNameService.Registration
