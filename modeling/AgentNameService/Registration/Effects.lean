/-
Purpose: What one atomic step of the service can do to registrations, identity certificates and the outbox.
  Each transaction is inverted once; the effect of a step names the rows it may touch and the checks it has
  passed, and everything later is read off the effects.
Source: internal/ra/service/{registration,lifecycle,revocation,renewal}.go
Trusted boundary: none
-/
import AgentNameService.Registration.Contract

namespace AgentNameService.Registration

open Store Transactions Tx Table Except List

variable {s t : Store} {reg r : AgentRegistration} {u : Unit} {ambient : Ambient} {now : Time}
variable {certs : List StoredCertificate} {lane : Lane} {dnsRecords : List String}

/-! ### Copies that are up to date -/

/-- The columns that `Save` writes agree with the stored row. -/
def IsCurrent (r : AgentRegistration) (s : Store) : Prop :=
  ∃ row, (r.id, row) ∈ s.agents.rows ∧ row.overwrite r = row

theorem IsCurrent.id_ne_zero (h : IsCurrent r s) : r.id ≠ 0 := by
  obtain ⟨row, hrow, _⟩ := h
  exact Nat.pos_iff_ne_zero.mp (s.agents.bounded _ hrow).1

/-- A copy that was just read is up to date. -/
theorem IsCurrent.of_stored {row : AgentRow} (hrow : (r.id, row) ∈ s.agents.rows)
    (hdomain : row.toDomain r.id = r) : IsCurrent r s := by
  refine ⟨row, hrow, ?_⟩
  rw [← hdomain]
  rfl

theorem IsCurrent.congr (h : IsCurrent r s) (hagents : t.agents = s.agents) : IsCurrent r t := by
  unfold IsCurrent
  rw [hagents]
  exact h

/-- A transaction that begins with the registration as it is stored. -/
theorem findByAgentID_bind {α : Type} {agentID : String} {f : AgentRegistration → Tx Store Error α} {a : α}
    (h : (findByAgentID agentID >>= f) s = .ok (a, t)) : ∃ current row, IsCurrent current s ∧
      (current.id, row) ∈ s.agents.rows ∧ row.toDomain current.id = current ∧ row.agentID = agentID ∧
      f current s = .ok (a, t) := by
  obtain ⟨current, _, hfind, h⟩ := run_bind_eq_ok_iff.mp h
  obtain ⟨rfl, row, hrow, hdomain, hagent⟩ := findByAgentID_stored hfind
  exact ⟨current, row, .of_stored hrow hdomain, hrow, hdomain, hagent, h⟩

/-- A row after its registration has been revoked. -/
def revokedRow (row : AgentRow) : AgentRow := { row with status := .revoked }

/-- To revoke an up-to-date copy and save it is to revoke the row. -/
theorem putAgent_revoked (h : IsCurrent r s) : putAgent { r with status := .revoked } s =
    { s with agents := s.agents.update (fun id _ => id == r.id) revokedRow } := by
  obtain ⟨row, hrow, hsame⟩ := h
  refine congrArg (fun agents => { s with agents := agents }) (update_congr ?_)
  intro id row' hrow'
  by_cases hid : id = r.id
  · subst hid
    obtain rfl := mem_unique hrow hrow'
    have hrevoked : row.overwrite { r with status := .revoked } = revokedRow row := congrArg revokedRow hsame
    simp [hrevoked]
  · simp [hid]

/-- To save an up-to-date copy is to do nothing. -/
theorem saveAgent_current {r' : AgentRegistration} (h : saveAgent r s = .ok (r', t)) (hcur : IsCurrent r s) :
    s = t := by
  obtain ⟨_, rfl, _⟩ := saveAgent_stored h hcur.id_ne_zero
  obtain ⟨row, hrow, hsame⟩ := hcur
  exact (putAgent_eq_self hrow hsame).symm

/-- To withdraw all certificates on record for an agent is to mark the agent's valid rows. -/
theorem update_certificatesOf (s : Store) (agentID : String) :
    s.certificates.update (fun id _ => isListedValid (s.certificatesOf agentID) id) withdrawnRow =
      s.certificates.update (fun _ cert => cert.certificate.status == .valid && cert.agentID == agentID)
        withdrawnRow := by
  apply update_congr
  intro id cert hcert
  simp only [isListedValid_certificatesOf hcert, Bool.and_eq_true, beq_iff_eq, and_comm]

/-! ### The rivals of an activation -/

/-- A pending registration of another owner under another agent id. -/
def isRival (reg r : AgentRegistration) : Bool :=
  r.agentID != reg.agentID && r.ownerID != reg.ownerID && r.status.isPending

/-- The tables after some registrations have been revoked, with their certificates. -/
def cancelAll (losers : List AgentRegistration) (s : Store) : Store :=
  { s with
    agents := s.agents.update (fun id _ => losers.any fun r => id == r.id) revokedRow
    certificates := s.certificates.update (fun _ cert => cert.certificate.status == .valid &&
      losers.any fun r => cert.agentID == r.agentID) withdrawnRow }

theorem cancelAll_nil (s : Store) : cancelAll [] s = s := by
  unfold cancelAll
  rw [update_eq_self (by simp), update_eq_self (by simp)]

theorem cancelAll_cons (r : AgentRegistration) (rest : List AgentRegistration) (s : Store) :
    cancelAll (r :: rest) s = cancelAll rest (cancelAll [r] s) := by
  unfold cancelAll
  simp only [update_update (f := revokedRow) fun _ => rfl,
    update_update withdrawnRow_withdrawnRow]
  simp [Bool.and_or_distrib_left]

theorem IsCurrent.cancelAll {r' : AgentRegistration} (hne : r.id ≠ r'.id) (h : IsCurrent r' s) :
    IsCurrent r' (cancelAll [r] s) := by
  obtain ⟨row, hrow, hsame⟩ := h
  refine ⟨row, mem_update.mpr ⟨row, hrow, ?_⟩, hsame⟩
  simp [Ne.symm hne]

/-- One turn of the loop: the row is another owner's live one and the activation fails, or the row is left
alone, or it is a rival and loses its certificates too. -/
theorem settleRival_eq (hcur : IsCurrent r s) (h : settleRival reg r s = .ok (u, t)) :
    (r.agentID ≠ reg.agentID → r.ownerID ≠ reg.ownerID → holdsHostExclusivity r.status = false) ∧
      t = cancelAll ([r].filter (isRival reg)) s := by
  unfold settleRival at h
  by_cases hown : r.agentID = reg.agentID ∨ r.ownerID = reg.ownerID
  · simp only [hown, if_true, run_pure_eq_ok_iff] at h
    have hrival : isRival reg r = false := by
      rcases hown with hagent | howner <;> simp [isRival, *]
    refine ⟨fun hagent howner => absurd hown (not_or.mpr ⟨hagent, howner⟩), ?_⟩
    simp [hrival, cancelAll_nil, h.2]
  · simp only [hown, if_false, run_bind_eq_ok_iff, run_require_eq_ok_iff] at h
    obtain ⟨_, _, ⟨hlive, rfl⟩, h⟩ := h
    refine ⟨fun _ _ => hlive, ?_⟩
    by_cases hpending : r.status.isPending = true
    · have hrival : isRival reg r = true := by
        simpa [isRival, hpending, not_or] using hown
      simp only [hpending, if_true, run_bind_eq_ok_iff, run_ofExcept_eq_ok_iff,
        run_discard_eq_ok_iff, findIdentityCertificatesByAgent, run_reads_eq_ok_iff,
        revokeCertificates_eq, AgentRegistration.cancelForHostConflict_eq_ok_iff, true_and] at h
      obtain ⟨_, _, ⟨rfl, rfl⟩, _, v, ⟨_, hsave⟩, _, _, ⟨rfl, rfl⟩, hcerts⟩ := h
      obtain ⟨_, rfl, _⟩ := saveAgent_stored hsave hcur.id_ne_zero
      have ht := (Prod.mk.inj (ok.inj hcerts)).2
      rw [putAgent_revoked hcur, withdraw, update_certificatesOf] at ht
      simp [hrival, cancelAll, ← ht]
    · rw [if_neg hpending] at h
      have hrival : isRival reg r = false := by simp [isRival, hpending]
      simp [hrival, cancelAll_nil, (run_pure_eq_ok_iff.mp h).2]

/-- The loop over the rows on the host.  No row is read twice, so each is up to date at its turn. -/
theorem settleRivals_eq {rows : List AgentRegistration} (hcur : ∀ r ∈ rows, IsCurrent r s)
    (hdistinct : rows.Pairwise fun r r' => r.id ≠ r'.id) (h : forEach rows (settleRival reg) s = .ok (u, t)) :
    (∀ r ∈ rows, r.agentID ≠ reg.agentID → r.ownerID ≠ reg.ownerID → holdsHostExclusivity r.status = false) ∧
      t = cancelAll (rows.filter (isRival reg)) s := by
  induction rows generalizing s with
  | nil =>
    have hsame := (run_pure_eq_ok_iff.mp h).2
    simp [cancelAll_nil, hsame]
  | cons r rest ih =>
    obtain ⟨_, v, hr, hrest⟩ := run_bind_eq_ok_iff.mp h
    obtain ⟨hne, hdistinct⟩ := pairwise_cons.mp hdistinct
    obtain ⟨hlive, rfl⟩ := settleRival_eq (hcur r mem_cons_self) hr
    have hcur' : ∀ r' ∈ rest, IsCurrent r' (cancelAll ([r].filter (isRival reg)) s) := by
      intro r' hr'
      have hold := hcur r' (mem_cons_of_mem r hr')
      by_cases hrival : isRival reg r = true
      · simpa [hrival] using hold.cancelAll (hne r' hr')
      · simpa [hrival, cancelAll_nil] using hold
    obtain ⟨hlives, rfl⟩ := ih hcur' hdistinct hrest
    refine ⟨?_, ?_⟩
    · intro r' hr'
      rcases mem_cons.mp hr' with rfl | hr'
      · exact hlive
      · exact hlives r' hr'
    · by_cases hrival : isRival reg r = true
      · simp only [filter_cons, hrival, if_true, filter_nil]
        exact (cancelAll_cons r _ s).symm
      · simp [hrival, cancelAll_nil]

/-! ### Effects -/

/-- The other owners' pending registrations on the host. -/
def losers (reg : AgentRegistration) (s : Store) : List AgentRegistration :=
  (s.agentsByHost reg.fqdn).filter (isRival reg)

/-- The guard of `Save` lets the copy through. -/
def Admitted (reg : AgentRegistration) (s : Store) : Prop :=
  ∃ row, (reg.id, row) ∈ s.agents.rows ∧ (row.status = .revoked → reg.status = .revoked) ∧
    (row.status = .deprecated → reg.status = .deprecated ∨ reg.status = .revoked)

/-- What a step does to the three tables, and which checks it has passed. -/
inductive Effect (s t : Store) : Call → Prop
  /-- Nothing but claims, renewals and tables without a bearing on registrations. -/
  | quiet {c} (agents : t.agents = s.agents) (certificates : t.certificates = s.certificates)
      (outbox : Outbox.Steady s.outbox t.outbox) : Effect s t c
  | sent {id token logID} (agents : t.agents = s.agents) (certificates : t.certificates = s.certificates)
      (logged : logID ≠ "") (outbox : ∃ now, t.outbox = Outbox.markSent s.outbox now id token logID) :
      Effect s t (.delivery (.markSent id token logID))
  | registered {reg : _} (fresh : s.hasAgent reg.agentID = false) (agents : t.agents = s.agents.insert (.ofDomain reg))
      (certificates : t.certificates = s.certificates) (outbox : t.outbox = s.outbox) : Effect s t (.register reg)
  | saved {reg : _} (admitted : Admitted reg s) (result : t = putAgent reg s) : Effect s t (.saveAgent reg)
  | advanced {reg identity server : _} (admitted : Admitted reg s) (agents : t.agents = (putAgent reg s).agents)
      (certificates : t.certificates = s.certificates ∨
        ∃ stored, t.certificates = s.certificates.insert ⟨reg.agentID, stored⟩)
      (outbox : t.outbox = s.outbox) : Effect s t (.commitACME reg identity server)
  | activated {reg sealed row : _} (stored : (reg.id, row) ∈ s.agents.rows) (waiting : row.status = .pendingDNS)
      (exclusive : ∀ r ∈ s.agentsByHost reg.fqdn, r.agentID ≠ reg.agentID → r.ownerID ≠ reg.ownerID →
        holdsHostExclusivity r.status = false)
      (logged : sealed.logID ≠ "") (agents : t.agents = (putAgent reg (cancelAll (losers reg s) s)).agents)
      (certificates : t.certificates = (cancelAll (losers reg s) s).certificates)
      (outbox : ∃ now, t.outbox = Outbox.recordSealed s.outbox now .agentRegistered reg.agentID
        sealed.schemaVersion sealed.payload sealed.logID) : Effect s t (.commitActivation reg sealed)
  | revoked {reg certs reason lane now id row : _} (stored : (id, row) ∈ s.agents.rows) (agentID : row.agentID = reg.agentID)
      (legal : .revoked ∈ row.status.validTransitions) (agents : t.agents = s.agents.update (fun i _ => i == id) revokedRow)
      (certificates : t.certificates = s.certificates.update
        (fun _ cert => cert.certificate.status == .valid && cert.agentID == reg.agentID) withdrawnRow)
      (outbox : ∃ fenced, Outbox.Steady s.outbox fenced ∧ ∃ stamp payload,
        t.outbox = Outbox.enqueue fenced stamp .agentRevoked reg.agentID lane payload now) :
      Effect s t (.commitRevocation reg certs reason lane now)
  | cancelled {reg certs : _} (admitted : Admitted reg s) (result : t = withdraw certs (putAgent reg s)) :
      Effect s t (.commitCancellation reg certs)
  | swept {certs : _} (result : t = withdraw certs s) : Effect s t (.sweepCertificates certs)
  | rotated {reg signed cert dnsRecords lane id row : _} (stored : (id, row) ∈ s.agents.rows)
      (agentID : row.agentID = reg.agentID) (active : row.status = .active) (agents : t.agents = s.agents)
      (certificates : t.certificates = s.certificates.insert ⟨reg.agentID, cert⟩)
      (outbox : Outbox.Steady s.outbox t.outbox) : Effect s t (.commitIdentityCSR reg signed cert dnsRecords lane)
  | lapsed {now : _} (agents : t.agents = s.agents.update (isLapsed now) fun row => { row with status := .expired })
      (certificates : t.certificates = s.certificates) (outbox : t.outbox = s.outbox) :
      Effect s t (.expireLapsedPendingValidation now)

theorem Effect.of_sameCore {c : Call} (h : SameCore s t) : Effect s t c :=
  .quiet h.agents h.certificates (h.outbox ▸ .refl s.outbox)

/-- The agent for which a call stores a certificate. -/
def Call.certifies : Call → Option String
  | .commitACME reg _ _ | .commitIdentityCSR reg _ _ _ _ => some reg.agentID
  | _ => none

/-- A step withdraws certificates, or stores one for the agent that it certifies. -/
theorem Effect.certificates {c : Call} (h : Effect s t c) :
    (∃ selects, t.certificates = s.certificates.update selects withdrawnRow) ∨
      ∃ agentID cert, c.certifies = some agentID ∧ t.certificates = s.certificates.insert ⟨agentID, cert⟩ := by
  have hkept (hsame : t.certificates = s.certificates) :
      ∃ selects, t.certificates = s.certificates.update selects withdrawnRow := by
    refine ⟨fun _ _ => false, ?_⟩
    rw [hsame, update_eq_self nofun]
  cases h with
  | quiet _ hsame | sent _ hsame | registered _ _ hsame | lapsed _ hsame => exact .inl (hkept hsame)
  | saved _ hresult => exact .inl (hkept (hresult ▸ rfl))
  | advanced _ _ hcertificates =>
    rcases hcertificates with hsame | ⟨cert, hstored⟩
    · exact .inl (hkept hsame)
    · exact .inr ⟨_, cert, rfl, hstored⟩
  | activated _ _ _ _ _ hwithdrawn =>
    simp only [cancelAll] at hwithdrawn
    exact .inl ⟨_, hwithdrawn⟩
  | revoked _ _ _ _ hwithdrawn => exact .inl ⟨_, hwithdrawn⟩
  | cancelled _ hresult | swept hresult => exact .inl ⟨fun id _ => isListedValid _ id, by rw [hresult]; rfl⟩
  | rotated _ _ _ _ hstored => exact .inr ⟨_, _, rfl, hstored⟩

/-! ### Inversion of the transactions -/

theorem register_effect (h : register reg s = .ok (r, t)) (hid : reg.id = 0) :
    Effect s t (.register reg) := by
  obtain ⟨stored, v, hsave, hrest⟩ := run_bind_eq_ok_iff.mp h
  have hcore : SameCore v t := by
    refine Keeps.bind SameCore.trans (saveEndpoints_sameCore _ _) (fun _ => ?_) _ _ _ hrest
    refine .bind SameCore.trans (.forEach SameCore.refl SameCore.trans fun csr _ => saveCSR_sameCore _ csr) ?_
    intro _
    refine .bind SameCore.trans (.forEach SameCore.refl SameCore.trans fun csr _ => saveCSR_sameCore _ csr) ?_
    intro _
    refine .bind SameCore.trans (.forEach SameCore.refl SameCore.trans fun cert _ => saveByoc_sameCore _ cert) ?_
    intro _
    exact .pure SameCore.refl stored
  obtain ⟨hfresh, rfl, _⟩ := saveAgent_new hsave hid
  exact .registered hfresh hcore.agents hcore.certificates hcore.outbox

/-- The signed identity request of `VerifyACME`, with its certificate. -/
theorem saveIdentity_stored {agentID : String} {signed : AgentCSR} {stored : StoredCertificate}
    (h : (do saveCSR agentID signed; saveIdentityCertificate agentID stored : Tx Store Error Unit) s = .ok (u, t)) :
    t.agents = s.agents ∧ t.certificates = s.certificates.insert ⟨agentID, stored⟩ ∧ t.outbox = s.outbox := by
  obtain ⟨_, v, hcsr, hcert⟩ := run_bind_eq_ok_iff.mp h
  have hcore := saveCSR_sameCore _ _ _ _ _ hcsr
  rw [saveIdentityCertificate_stored hcert]
  exact ⟨hcore.agents, by rw [hcore.certificates], hcore.outbox⟩

theorem commitACME_stored {identity : Option (AgentCSR × StoredCertificate)}
    {server : Option (ByocServerCertificate × AgentCSR)}
    (h : commitACME reg identity server s = .ok (u, t)) (hid : reg.id ≠ 0) :
    Admitted reg s ∧ t.agents = (putAgent reg s).agents ∧ (t.certificates = s.certificates ∨
      ∃ stored, t.certificates = s.certificates.insert ⟨reg.agentID, stored⟩) ∧ t.outbox = s.outbox := by
  obtain ⟨_, v, hidentity, h⟩ := run_bind_eq_ok_iff.mp h
  obtain ⟨_, w, hserver, hsave⟩ := run_bind_eq_ok_iff.mp h
  have hv : v.agents = s.agents ∧ (v.certificates = s.certificates ∨
      ∃ stored, v.certificates = s.certificates.insert ⟨reg.agentID, stored⟩) ∧ v.outbox = s.outbox := by
    rcases run_optional hidentity with ⟨_, rfl⟩ | ⟨signed, _, hstep⟩
    · exact ⟨rfl, .inl rfl, rfl⟩
    · obtain ⟨hagents, hcertificates, houtbox⟩ := saveIdentity_stored hstep
      exact ⟨hagents, .inr ⟨_, hcertificates⟩, houtbox⟩
  have hw : SameCore v w := by
    refine Keeps.forEach SameCore.refl SameCore.trans (fun issued _ => ?_) _ _ _ hserver
    exact .bind SameCore.trans (saveByoc_sameCore _ _) fun _ => saveCSR_sameCore _ _
  obtain ⟨r, hsave⟩ := run_discard_eq_ok_iff.mp hsave
  obtain ⟨_, rfl, hadmitted⟩ := saveAgent_stored hsave hid
  have hagents : w.agents = s.agents := hw.agents.trans hv.1
  refine ⟨?_, ?_, ?_, hw.outbox.trans hv.2.2⟩
  · rw [hagents] at hadmitted
    exact hadmitted
  · simp only [putAgent, hagents]
  · change w.certificates = _ ∨ ∃ stored, w.certificates = _
    rw [hw.certificates]
    exact hv.2.1

theorem commitACME_effect {identity : Option (AgentCSR × StoredCertificate)}
    {server : Option (ByocServerCertificate × AgentCSR)}
    (h : commitACME reg identity server s = .ok (u, t)) (hid : reg.id ≠ 0) :
    Effect s t (.commitACME reg identity server) := by
  obtain ⟨hadmitted, hagents, hcertificates, houtbox⟩ := commitACME_stored h hid
  exact .advanced hadmitted hagents hcertificates houtbox

theorem commitActivation_effect {sealed : SealedActivation}
    (h : commitActivation ambient reg sealed s = .ok (u, t)) (hinv : Inv s) (hknown : Known reg s) :
    Effect s t (.commitActivation reg sealed) := by
  obtain ⟨current, row, _, hrow, hdomain, hagent, h⟩ := findByAgentID_bind h
  obtain ⟨hwaiting, h⟩ := run_require_bind.mp h
  replace h := run_reads_bind.mp h
  obtain ⟨_, w, hloop, h⟩ := run_bind_eq_ok_iff.mp h
  have hcur : ∀ r ∈ s.agentsByHost reg.fqdn, IsCurrent r s := by
    intro r hr
    obtain ⟨row, hrow, hdomain, _⟩ := mem_agentsByHost.mp hr
    exact .of_stored hrow hdomain
  obtain ⟨hexclusive, rfl⟩ := settleRivals_eq hcur (agentsByHost_distinct s reg.fqdn) hloop
  obtain ⟨r, _, hsave, hseal⟩ := run_discard_bind.mp h
  obtain ⟨_, rfl, _⟩ := saveAgent_stored hsave hknown.id_ne_zero
  simp only [recordSealed, run_bind_eq_ok_iff, run_require_eq_ok_iff, run_writes_eq_ok_iff] at hseal
  obtain ⟨_, _, ⟨hlogged, rfl⟩, rfl⟩ := hseal
  -- the row that was read again is the one under the key of the copy
  obtain ⟨own, hown, hownAgent, _⟩ := hknown
  obtain ⟨_, rfl⟩ := hinv.unique hrow hown (hagent.trans hownAgent.symm)
  have hstatus : row.status = .pendingDNS := by
    rw [← hwaiting, ← hdomain]
    rfl
  exact .activated hown hstatus hexclusive hlogged rfl rfl ⟨ambient.now, rfl⟩

/-- The cancellation of everything under way only touches rows of the outbox, of the three tables. -/
theorem cancelAgentModifications_stored {agentID : String}
    (h : cancelAgentModifications ambient agentID now s = .ok (u, t)) :
    t.agents = s.agents ∧ t.certificates = s.certificates ∧
      t.outbox = Outbox.cancelPending s.outbox ambient.now agentID := by
  obtain ⟨_, v, hcancel, hrest⟩ := run_bind_eq_ok_iff.mp h
  have hcore : SameCore v t := by
    refine Keeps.bind SameCore.trans (cancelRenewalForRevocation_sameCore _ _) (fun _ => ?_) _ _ _ hrest
    refine .bind SameCore.trans (.reads SameCore.refl _) fun _ => ?_
    refine .bind SameCore.trans (rejectPendingCSRs_sameCore _ _ _ _) fun _ => ?_
    exact .bind SameCore.trans (.reads SameCore.refl _) fun _ => rejectPendingCSRs_sameCore _ _ _ _
  obtain rfl := run_writes_eq_ok_iff.mp hcancel
  exact ⟨hcore.agents, hcore.certificates, hcore.outbox⟩

/-- A revocation that commits finds the registration revoked already, or revokes it, withdraws its certificates,
cancels its pending deliveries and announces the revocation. -/
theorem commitRevocation_stored {reason : RevocationReason}
    (h : commitRevocation ambient reg certs reason lane now s = .ok (r, t)) :
    (Revoked reg.agentID s ∧ t = s) ∨ ∃ id row payload, (id, row) ∈ s.agents.rows ∧ row.agentID = reg.agentID ∧
        .revoked ∈ row.status.validTransitions ∧ t.agents = s.agents.update (fun i _ => i == id) revokedRow ∧
        t.certificates = s.certificates.update
          (fun _ cert => cert.certificate.status == .valid && cert.agentID == reg.agentID) withdrawnRow ∧
        t.outbox = Outbox.enqueue (Outbox.cancelPending s.outbox ambient.now reg.agentID) ambient.now .agentRevoked
          reg.agentID lane payload now := by
  obtain ⟨current, row, hread, hrow, hdomain, hagent, h⟩ := findByAgentID_bind h
  have hstatus : row.status = current.status := by
    rw [← hdomain]
    rfl
  rcases run_ite_eq_ok_iff.mp h with ⟨hrevoked, h⟩ | ⟨_, h⟩
  · obtain rfl := (run_pure_eq_ok_iff.mp h).2
    exact .inl ⟨⟨current.id, row, hrow, hagent, hstatus.trans hrevoked⟩, rfl⟩
  right
  obtain ⟨revoked, hrevoked, h⟩ := run_ofExcept_bind.mp h
  obtain ⟨_, _, hlegal, rfl⟩ := AgentRegistration.revoke_eq_ok_iff.mp hrevoked
  replace h := run_reads_bind.mp h
  obtain ⟨_, h⟩ := run_require_bind.mp h
  obtain ⟨_, v, hcancel, h⟩ := run_bind_eq_ok_iff.mp h
  obtain ⟨hagents, hcertificates, houtbox⟩ := cancelAgentModifications_stored hcancel
  obtain ⟨_, _, hsave, h⟩ := run_discard_bind.mp h
  -- endpoints and server certificate are no columns of the row, so the copy is still up to date
  have hcur : IsCurrent { current with endpoints := reg.endpoints, serverCert := reg.serverCert } v := hread.congr hagents
  obtain ⟨_, rfl, _⟩ := saveAgent_stored hsave hcur.id_ne_zero
  obtain ⟨_, _, hcerts, h⟩ := run_bind_eq_ok_iff.mp h
  rw [putAgent_revoked hcur, revokeCertificates_eq] at hcerts
  obtain rfl := (Prod.mk.inj (ok.inj hcerts)).2
  obtain ⟨payload, _, h⟩ := run_ofExcept_bind.mp h
  replace h := run_writes_bind.mp h
  obtain rfl := (run_pure_eq_ok_iff.mp h).2
  have hcurrent : current.agentID = reg.agentID := by
    rw [← hdomain]
    exact hagent
  refine ⟨current.id, row, payload, hrow, hagent, hstatus ▸ hlegal, ?_, ?_, ?_⟩
  · simp only [withdraw, hagents]
  · simp only [withdraw, hcertificates, update_certificatesOf]
  · simp only [withdraw, houtbox, hcurrent]

/-- A revocation that commits leaves the registration revoked, also when it was so already. -/
theorem commitRevocation_effect {reason : RevocationReason}
    (h : commitRevocation ambient reg certs reason lane now s = .ok (r, t)) :
    Effect s t (.commitRevocation reg certs reason lane now) ∧ Revoked reg.agentID t := by
  rcases commitRevocation_stored h with
    ⟨hrevoked, rfl⟩ | ⟨id, row, payload, hrow, hagent, hlegal, hagents, hcertificates, houtbox⟩
  · exact ⟨.of_sameCore (.refl _), hrevoked⟩
  · refine ⟨.revoked hrow hagent hlegal hagents hcertificates
      ⟨_, Outbox.steady_cancelPending ambient.now reg.agentID, ambient.now, payload, houtbox⟩, ?_⟩
    refine ⟨id, revokedRow row, ?_, hagent, rfl⟩
    rw [hagents]
    exact mem_update.mpr ⟨row, hrow, by simp⟩

theorem commitCancellation_effect (h : commitCancellation reg certs s = .ok (u, t)) (hid : reg.id ≠ 0) :
    Effect s t (.commitCancellation reg certs) := by
  obtain ⟨_, _, hsave, hcerts⟩ := run_discard_bind.mp h
  obtain ⟨_, rfl, hadmitted⟩ := saveAgent_stored hsave hid
  rw [revokeCertificates_eq] at hcerts
  exact .cancelled hadmitted (Prod.mk.inj (ok.inj hcerts)).2.symm

/-- A renewal event is one more row of the outbox. -/
theorem enqueueCertificateRenewal_stored (h : enqueueCertificateRenewal ambient reg dnsRecords lane s = .ok (u, t)) :
    t.agents = s.agents ∧ t.certificates = s.certificates ∧ Outbox.Steady s.outbox t.outbox := by
  simp only [enqueueCertificateRenewal, findIdentityCertificatesByAgent, findByocByAgentID, enqueue,
    run_bind_eq_ok_iff, run_reads_eq_ok_iff, run_ofExcept_eq_ok_iff, run_writes_eq_ok_iff] at h
  obtain ⟨_, _, ⟨_, rfl⟩, _, _, ⟨_, rfl⟩, payload, _, ⟨_, rfl⟩, rfl⟩ := h
  exact ⟨rfl, rfl, Outbox.steady_enqueue_renewed _ _ _ _ _⟩

theorem commitIdentityCSR_effect {signed : AgentCSR} {cert : StoredCertificate}
    (h : commitIdentityCSR ambient reg signed cert dnsRecords lane s = .ok (u, t)) :
    Effect s t (.commitIdentityCSR reg signed cert dnsRecords lane) := by
  obtain ⟨current, row, hread, hrow, hdomain, hagent, h⟩ := findByAgentID_bind h
  obtain ⟨hactive, h⟩ := run_require_bind.mp h
  obtain ⟨_, v, hsave, h⟩ := run_discard_bind.mp h
  obtain rfl := saveAgent_current hsave hread
  obtain ⟨_, v, hcsr, h⟩ := run_bind_eq_ok_iff.mp h
  obtain ⟨_, w, hcert, h⟩ := run_bind_eq_ok_iff.mp h
  have hcore := saveCSR_sameCore _ _ _ _ _ hcsr
  obtain rfl := saveIdentityCertificate_stored hcert
  obtain ⟨hagents, hcertificates, houtbox⟩ := enqueueCertificateRenewal_stored h
  have hstatus : row.status = .active := by
    rw [← hactive, ← hdomain]
    rfl
  refine .rotated hrow hagent hstatus (hagents.trans hcore.agents) ?_ ?_
  · rw [hcertificates, hcore.certificates]
  · rw [← hcore.outbox]
    exact houtbox

theorem commitServerCSR_sameCore (agentID : String) (csr : AgentCSR) :
    Keeps SameCore (commitServerCSR agentID csr) := by
  intro s _ t h
  obtain ⟨current, _, hread, _, _, _, h⟩ := findByAgentID_bind h
  obtain ⟨_, h⟩ := run_require_bind.mp h
  obtain ⟨_, v, hsave, h⟩ := run_discard_bind.mp h
  obtain rfl := saveAgent_current hsave hread
  exact saveCSR_sameCore _ _ _ _ _ h

theorem submitRenewal_sameCore (agentID : String) (csr : Option AgentCSR) (renewal : ServerCertificateRenewal) :
    Keeps SameCore (submitRenewal agentID csr renewal) := by
  intro s _ t h
  obtain ⟨current, _, hread, _, _, _, h⟩ := findByAgentID_bind h
  obtain ⟨_, h⟩ := run_require_bind.mp h
  replace h := run_reads_bind.mp h
  obtain ⟨_, h⟩ := run_require_bind.mp h
  obtain ⟨_, v, hcsr, h⟩ := run_bind_eq_ok_iff.mp h
  have hcore : SameCore s v := by
    rcases run_optional hcsr with ⟨_, rfl⟩ | ⟨submitted, _, hstep⟩
    · exact .refl s
    · obtain ⟨_, w, hsave, hstep⟩ := run_discard_bind.mp hstep
      obtain rfl := saveAgent_current hsave hread
      exact saveCSR_sameCore _ _ _ _ _ hstep
  exact .trans _ _ _ hcore (saveRenewal_sameCore _ _ _ _ h)

theorem cancelRenewal_sameCore (ambient : Ambient) (agentID : String) (renewalID : Nat) :
    Keeps SameCore (cancelRenewal ambient agentID renewalID) := by
  have hone {α : Type} (found : Store → Option α) : Keeps SameCore (one found) :=
    .of_unchanged SameCore.refl fun _ _ _ h => (one_unchanged h).1
  refine .bind SameCore.trans (hone _) fun current => ?_
  refine .bind SameCore.trans (.require SameCore.refl _ _) fun _ => ?_
  refine .bind SameCore.trans (.require SameCore.refl _ _) fun _ => ?_
  refine .bind SameCore.trans (.ite (.pure SameCore.refl ()) ?_) fun _ => ?_
  · refine .bind SameCore.trans (hone _) fun csr => .ite (.pure SameCore.refl ()) ?_
    exact .bind SameCore.trans (.ofExcept SameCore.refl _) fun rejected => saveCSR_sameCore _ _
  · intro s _ t h
    obtain rfl := run_writes_eq_ok_iff.mp h
    exact ⟨rfl, rfl, rfl⟩

theorem commitRenewal_effect {renewal : ServerCertificateRenewal}
    {cert : ByocServerCertificate} {signed : Option AgentCSR}
    (h : commitRenewal ambient reg renewal cert signed dnsRecords lane s = .ok (u, t)) :
    Effect s t (.commitRenewal reg renewal cert signed dnsRecords lane) := by
  obtain ⟨current, _, hread, _, _, _, h⟩ := findByAgentID_bind h
  obtain ⟨_, h⟩ := run_require_bind.mp h
  obtain ⟨_, _, hpending, h⟩ := run_bind_eq_ok_iff.mp h
  obtain ⟨rfl, _⟩ := one_unchanged hpending
  obtain ⟨_, h⟩ := run_require_bind.mp h
  obtain ⟨_, v, hbyoc, h⟩ := run_bind_eq_ok_iff.mp h
  obtain ⟨_, w, hcsr, h⟩ := run_bind_eq_ok_iff.mp h
  obtain ⟨_, x, hrenewal, h⟩ := run_bind_eq_ok_iff.mp h
  have hv := saveByoc_sameCore _ _ _ _ _ hbyoc
  have hw : SameCore v w := by
    rcases run_optional hcsr with ⟨_, rfl⟩ | ⟨csr, _, hstep⟩
    · exact .refl v
    · obtain ⟨_, v', hsaved, hstep⟩ := run_bind_eq_ok_iff.mp hstep
      obtain ⟨_, hsave⟩ := run_discard_eq_ok_iff.mp hstep
      have hv' := saveCSR_sameCore _ _ _ _ _ hsaved
      obtain rfl := saveAgent_current hsave (hread.congr (hv'.agents.trans hv.agents))
      exact hv'
  have hcore : SameCore s x :=
    .trans _ _ _ (.trans _ _ _ hv hw) (saveRenewal_sameCore _ _ _ _ hrenewal)
  obtain ⟨hagents, hcertificates, houtbox⟩ := enqueueCertificateRenewal_stored h
  refine .quiet (hagents.trans hcore.agents) (hcertificates.trans hcore.certificates) ?_
  rw [← hcore.outbox]
  exact houtbox

/-! ### Rows of the outbox -/

/-- No step takes back a row of the outbox, nor parks or cancels a revocation. -/
theorem Effect.outbox_kept {c : Call} (h : Effect s t c) {k : Nat} {old : OutboxRow} (hold : (k, old) ∈ s.outbox.rows) :
    ∃ new, (k, new) ∈ t.outbox.rows ∧ Outbox.Succeeds old new := by
  have hsame (houtbox : t.outbox = s.outbox) : ∃ new, (k, new) ∈ t.outbox.rows ∧ Outbox.Succeeds old new :=
    ⟨old, houtbox ▸ hold, .refl old⟩
  cases h with
  | quiet _ _ houtbox | rotated _ _ _ _ _ houtbox => exact houtbox.kept k old hold
  | sent _ _ _ houtbox =>
    obtain ⟨now, houtbox⟩ := houtbox
    rw [houtbox]
    exact (Outbox.continues_markSent _ _ _ _).kept k old hold
  | registered _ _ _ houtbox | advanced _ _ _ houtbox | lapsed _ _ houtbox => exact hsame houtbox
  | saved _ hresult | cancelled _ hresult | swept hresult => exact hsame (hresult ▸ rfl)
  | activated _ _ _ _ _ _ houtbox =>
    obtain ⟨now, houtbox⟩ := houtbox
    rw [houtbox]
    exact Outbox.kept_insert _ hold
  | revoked _ _ _ _ _ houtbox =>
    obtain ⟨fenced, hfenced, _, _, houtbox⟩ := houtbox
    obtain ⟨new, hnew, hto⟩ := hfenced.kept k old hold
    rw [houtbox]
    exact ⟨new, mem_insert.mpr (.inl hnew), hto⟩

/-- A step that delivers a row: a worker's acknowledged delivery of a stored row, or an activation whose event
was sealed inline, with a row of its own. -/
inductive Sends (s : Store) (k : Nat) (row : OutboxRow) : Call → Prop
  | acknowledged {token logID old} (stored : (k, old) ∈ s.outbox.rows) (logged : row.logID = some logID)
      (named : logID ≠ "") : Sends s k row (.delivery (.markSent k token logID))
  | sealed {reg sealed : _} (fresh : k = s.outbox.next) (logged : row.logID = some sealed.logID) (named : sealed.logID ≠ "") :
      Sends s k row (.commitActivation reg sealed)

/-- Only those two steps deliver rows. -/
theorem Effect.sent_by {c : Call} (h : Effect s t c) {k : Nat} {row : OutboxRow} (hrow : (k, row) ∈ t.outbox.rows)
    (hsent : row.sentAt.isSome = true) : (k, row) ∈ s.outbox.rows ∨ Sends s k row c := by
  have hsame (houtbox : t.outbox = s.outbox) : (k, row) ∈ s.outbox.rows ∨ Sends s k row c :=
    .inl (houtbox ▸ hrow)
  cases h with
  | quiet _ _ houtbox | rotated _ _ _ _ _ houtbox => exact .inl (houtbox.noneSent k row hrow hsent)
  | sent _ _ hnamed houtbox =>
    obtain ⟨now, houtbox⟩ := houtbox
    rw [houtbox] at hrow
    rcases Outbox.mem_of_markSent hrow hsent with hold | ⟨rfl, hlogged, old, hold⟩
    · exact .inl hold
    · exact .inr (.acknowledged hold hlogged hnamed)
  | registered _ _ _ houtbox | advanced _ _ _ houtbox | lapsed _ _ houtbox => exact hsame houtbox
  | saved _ hresult | cancelled _ hresult | swept hresult => exact hsame (hresult ▸ rfl)
  | activated _ _ _ hnamed _ _ houtbox =>
    obtain ⟨now, houtbox⟩ := houtbox
    rw [houtbox] at hrow
    rcases mem_insert.mp hrow with hold | hnew
    · exact .inl hold
    · obtain ⟨rfl, rfl⟩ := Prod.mk.inj hnew
      exact .inr (.sealed rfl rfl hnamed)
  | revoked _ _ _ _ _ houtbox =>
    obtain ⟨fenced, hfenced, _, _, houtbox⟩ := houtbox
    rw [houtbox] at hrow
    exact .inl (hfenced.noneSent k row (Outbox.noneSent_insert rfl hrow hsent) hsent)

/-! ### Every call has an effect -/

/-- A read leaves the tables as they are. -/
theorem Read.exec_unchanged {q : Read} {a : q.Result} (h : q.exec now s = .ok (a, t)) : s = t := by
  cases q with
  | findByAgentID | findEndpoints | findCSRByID | findLatestValidByAgentID | findRenewalByAgentID
  | findPendingRenewal => exact (one_unchanged h).1
  | existsByAnsName | findAllByAgentHost | findIdentityCertificatesByAgent | findLatestPendingCSRByType
  | findByocByAgentID | listPendingExpired | loadActivationSeal | ready =>
    exact (Prod.mk.inj (ok.inj h)).2

/-- A claim that is taken up with its token and its lease writes nothing but the outbox. -/
theorem acquire_stored {id attempts : Nat} {token : String} {lease : Time} {reserved : Bool}
    (h : acquire now id attempts token lease s = .ok (reserved, t)) : (token ≠ "" ∧ 0 < lease) ∧
      (Outbox.acquire s.outbox now id attempts token lease).1 = reserved ∧
      t = { s with outbox := (Outbox.acquire s.outbox now id attempts token lease).2 } := by
  simp only [acquire, run_bind_eq_ok_iff, run_get_eq_ok_iff, run_require_eq_ok_iff, run_set_eq_ok_iff,
    run_pure_eq_ok_iff] at h
  obtain ⟨_, _, ⟨hvalid, rfl⟩, _, _, ⟨rfl, rfl⟩, _, _, rfl, hreserved, rfl⟩ := h
  exact ⟨hvalid, hreserved, rfl⟩

/-- An update under a claim that commits writes nothing but the outbox. -/
theorem underClaim_stored {holds : Nat → OutboxRow → Bool} {f : Table OutboxRow → Table OutboxRow}
    (h : underClaim holds f s = .ok (u, t)) : t = { s with outbox := f s.outbox } := by
  simp only [underClaim, run_bind_eq_ok_iff, run_get_eq_ok_iff, run_require_eq_ok_iff,
    run_set_eq_ok_iff] at h
  obtain ⟨_, _, ⟨rfl, rfl⟩, _, _, ⟨_, rfl⟩, rfl⟩ := h
  rfl

theorem Delivery.effect {d : Delivery} {a : d.Result} (hpre : Pre (.delivery d) s)
    (h : d.exec now s = .ok (a, t)) : Effect s t (.delivery d) := by
  cases d with
  | acquire =>
    obtain ⟨_, _, rfl⟩ := acquire_stored h
    exact .quiet rfl rfl (Outbox.steady_acquire _ _ _ _ _)
  | markSent =>
    change Store.markSent now _ _ _ s = _ at h
    rw [underClaim_stored h]
    exact .sent rfl rfl hpre ⟨now, rfl⟩
  | markFailed =>
    change Store.markFailed now _ _ _ _ _ _ s = _ at h
    rw [underClaim_stored h]
    exact .quiet rfl rfl (Outbox.steady_markFailed _ _ _ _ _ _ _)
  | markDead =>
    change Store.markDead now _ _ _ s = _ at h
    rw [underClaim_stored h]
    exact .quiet rfl rfl (Outbox.steady_markDead _ _ _ _)

theorem expireLapsed_effect {count : Nat} (h : expireLapsedPendingValidation now s = .ok (count, t)) :
    Effect s t (.expireLapsedPendingValidation now) := by
  simp only [expireLapsedPendingValidation, run_bind_eq_ok_iff, run_get_eq_ok_iff, run_set_eq_ok_iff,
    run_pure_eq_ok_iff] at h
  obtain ⟨_, _, ⟨rfl, rfl⟩, _, _, rfl, _, rfl⟩ := h
  exact .lapsed rfl rfl rfl

/-- A call that is made under its precondition and commits has one of the effects. -/
theorem effect_of_exec {c : Call} {a : c.Reply} (hinv : Inv s) (hpre : Pre c s)
    (h : c.exec ambient s = .ok (a, t)) : Effect s t c := by
  cases c with
  | read q => exact Read.exec_unchanged h ▸ .of_sameCore (.refl s)
  | saveAgent reg =>
    obtain ⟨_, hresult, hadmitted⟩ := saveAgent_stored h hpre.1.id_ne_zero
    exact .saved hadmitted hresult
  | saveCSR agentID csr => exact .of_sameCore (saveCSR_sameCore _ _ _ _ _ h)
  | saveRenewal renewal => exact .of_sameCore (saveRenewal_sameCore _ _ _ _ h)
  | prepareActivationSeal => exact .of_sameCore (prepareActivationSeal_sameCore _ _ _ _ _ _ h)
  | expireLapsedPendingValidation now => exact expireLapsed_effect h
  | delivery d => exact Delivery.effect hpre h
  | register reg => exact register_effect h hpre.1
  | commitACME reg identity server => exact commitACME_effect h hpre.1.id_ne_zero
  | commitActivation reg sealed => exact commitActivation_effect h hinv hpre.1
  | commitRevocation => exact (commitRevocation_effect h).1
  | commitCancellation reg certs => exact commitCancellation_effect h hpre.1.id_ne_zero
  | sweepCertificates certs =>
    have hsweep := (revokeCertificates_eq certs s).symm.trans h
    exact .swept (Prod.mk.inj (ok.inj hsweep)).2.symm
  | commitIdentityCSR => exact commitIdentityCSR_effect h
  | commitServerCSR => exact .of_sameCore (commitServerCSR_sameCore _ _ _ _ _ h)
  | submitRenewal => exact .of_sameCore (submitRenewal_sameCore _ _ _ _ _ _ h)
  | cancelRenewal => exact .of_sameCore (cancelRenewal_sameCore _ _ _ _ _ _ h)
  | commitRenewal => exact commitRenewal_effect h

end AgentNameService.Registration
