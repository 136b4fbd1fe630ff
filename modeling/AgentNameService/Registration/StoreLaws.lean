/-
Purpose: What each store method does when it succeeds, one law per method, so that the transactions can be
  read off without unfolding the statements.  Three tables carry the properties of interest: registrations,
  identity certificates and the outbox; every other method leaves these three alone.
Source: internal/adapter/store/sqlite
Trusted boundary: none
-/
import AgentNameService.Registration.Transactions

namespace AgentNameService.Registration

open List Tx Table Transactions

namespace Store

variable {s t : Store}

/-! ### Methods that leave the three tables alone -/

/-- Registrations, identity certificates and the outbox are untouched. -/
structure SameCore (s t : Store) : Prop where
  agents : t.agents = s.agents
  certificates : t.certificates = s.certificates
  outbox : t.outbox = s.outbox

namespace SameCore

theorem refl (s : Store) : SameCore s s := ⟨rfl, rfl, rfl⟩

theorem trans (s t u : Store) (h : SameCore s t) (h' : SameCore t u) : SameCore s u :=
  ⟨h'.agents.trans h.agents, h'.certificates.trans h.certificates, h'.outbox.trans h.outbox⟩

end SameCore

/-- A query does not change the tables. -/
theorem one_unchanged {α : Type} {found : Store → Option α} {a : α} (h : one found s = .ok (a, t)) :
    s = t ∧ found s = some a := by
  unfold one at h
  simp only [run_bind_eq_ok_iff, run_reads_eq_ok_iff] at h
  obtain ⟨result, u, ⟨hfound, rfl⟩, h⟩ := h
  cases result with
  | none => simp at h
  | some b =>
    simp only [run_pure_eq_ok_iff] at h
    obtain ⟨rfl, rfl⟩ := h
    exact ⟨rfl, hfound⟩

theorem saveEndpoints_sameCore (agentID : String) (endpoints : List String) :
    Keeps SameCore (saveEndpoints agentID endpoints) := by
  intro s _ t h
  simp only [saveEndpoints, run_bind_eq_ok_iff, run_get_eq_ok_iff, run_ite_eq_ok_iff,
    run_set_eq_ok_iff] at h
  obtain ⟨_, _, ⟨rfl, rfl⟩, ⟨_, rfl⟩ | ⟨_, rfl⟩⟩ := h <;> exact ⟨rfl, rfl, rfl⟩

theorem saveCSR_sameCore (agentID : String) (csr : AgentCSR) : Keeps SameCore (saveCSR agentID csr) := by
  intro s _ t h
  simp only [saveCSR, run_bind_eq_ok_iff, run_get_eq_ok_iff, run_ite_eq_ok_iff,
    run_set_eq_ok_iff, run_require_eq_ok_iff] at h
  obtain ⟨_, _, ⟨rfl, rfl⟩, ⟨_, rfl⟩ | ⟨_, _, _, ⟨_, rfl⟩, rfl⟩⟩ := h <;> exact ⟨rfl, rfl, rfl⟩

theorem saveByoc_sameCore (agentID : String) (cert : ByocServerCertificate) :
    Keeps SameCore (saveByoc agentID cert) := by
  intro s _ t h
  simp only [saveByoc, run_bind_eq_ok_iff, run_get_eq_ok_iff, run_set_eq_ok_iff,
    run_require_eq_ok_iff] at h
  obtain ⟨_, _, ⟨rfl, rfl⟩, _, _, ⟨_, rfl⟩, rfl⟩ := h
  exact ⟨rfl, rfl, rfl⟩

theorem saveRenewal_sameCore (r : ServerCertificateRenewal) : Keeps SameCore (saveRenewal r) := by
  intro s _ t h
  simp only [saveRenewal, run_bind_eq_ok_iff, run_get_eq_ok_iff, run_ite_eq_ok_iff,
    run_set_eq_ok_iff, run_require_eq_ok_iff] at h
  obtain ⟨_, _, ⟨rfl, rfl⟩, ⟨_, _, _, ⟨_, rfl⟩, rfl⟩ | ⟨_, _, _, ⟨_, rfl⟩, rfl⟩⟩ := h <;>
    exact ⟨rfl, rfl, rfl⟩

theorem prepareActivationSeal_sameCore (agentID : String) (lane : Lane) (payload : OutboxPayload) :
    Keeps SameCore (prepareActivationSeal agentID lane payload) := by
  intro s _ t h
  simp only [prepareActivationSeal, electActivationSeal, loadActivationSeal, run_bind_eq_ok_iff,
    run_get_eq_ok_iff, run_ite_eq_ok_iff, run_set_eq_ok_iff, run_pure_eq_ok_iff,
    run_reads_eq_ok_iff] at h
  obtain ⟨_, _, ⟨_, _, ⟨rfl, rfl⟩, ⟨_, _, rfl⟩ | ⟨_, rfl⟩⟩, _, rfl⟩ := h <;> exact ⟨rfl, rfl, rfl⟩

theorem rejectPendingCSRs_sameCore (agentID : String) (type : CSRType) (now : Time) (turns : Nat) :
    Keeps SameCore (rejectPendingCSRs agentID type now turns) := by
  induction turns with
  | zero => exact .pure SameCore.refl ()
  | succ turns ih =>
    refine .bind SameCore.trans (.reads SameCore.refl _) ?_
    intro found
    cases found with
    | none => exact .pure SameCore.refl ()
    | some csr =>
      refine .bind SameCore.trans (.ofExcept SameCore.refl _) ?_
      intro rejected
      exact .bind SameCore.trans (saveCSR_sameCore agentID rejected) fun _ => ih

theorem cancelRenewalForRevocation_sameCore (agentID : String) (now : Time) :
    Keeps SameCore (cancelRenewalForRevocation agentID now) := by
  refine .bind SameCore.trans (.reads SameCore.refl _) ?_
  intro found
  cases found with
  | none => exact .pure SameCore.refl ()
  | some pending =>
    refine .bind SameCore.trans (.ofExcept SameCore.refl _) ?_
    intro failed
    exact saveRenewal_sameCore failed

/-! ### Methods that only need a stored agent -/

theorem hasAgent_of_mem {id : Nat} {row : AgentRow} (hrow : (id, row) ∈ s.agents.rows) :
    s.hasAgent row.agentID = true := by
  unfold hasAgent
  exact any_eq_true.mpr ⟨(id, row), hrow, beq_self_eq_true _⟩

theorem hasAgent_congr {agentID : String} (h : t.agents = s.agents) : t.hasAgent agentID = s.hasAgent agentID := by
  unfold hasAgent
  rw [h]

section

variable {agentID : String}

theorem saveCSR_succeeds (h : s.hasAgent agentID = true) (csr : AgentCSR) :
    ∃ t, saveCSR agentID csr s = .ok ((), t) := by
  simp only [saveCSR, run_bind_eq_ok_iff, run_get_eq_ok_iff, run_ite_eq_ok_iff, run_set_eq_ok_iff,
    run_require_eq_ok_iff]
  by_cases hcsr : (s.csrs.rows.any (·.2.csr.csrID == csr.csrID)) = true
  · exact ⟨_, _, _, ⟨rfl, rfl⟩, .inl ⟨hcsr, rfl⟩⟩
  · exact ⟨_, _, _, ⟨rfl, rfl⟩, .inr ⟨hcsr, (), _, ⟨h, rfl⟩, rfl⟩⟩

theorem saveIdentityCertificate_succeeds (h : s.hasAgent agentID = true) (cert : StoredCertificate) :
    ∃ t, saveIdentityCertificate agentID cert s = .ok ((), t) := by
  simp only [saveIdentityCertificate, run_bind_eq_ok_iff, run_get_eq_ok_iff, run_require_eq_ok_iff,
    run_set_eq_ok_iff]
  exact ⟨_, _, _, ⟨rfl, rfl⟩, (), _, ⟨h, rfl⟩, rfl⟩

theorem saveByoc_succeeds (h : s.hasAgent agentID = true) (cert : ByocServerCertificate) :
    ∃ t, saveByoc agentID cert s = .ok ((), t) := by
  simp only [saveByoc, run_bind_eq_ok_iff, run_get_eq_ok_iff, run_require_eq_ok_iff,
    run_set_eq_ok_iff]
  exact ⟨_, _, _, ⟨rfl, rfl⟩, (), _, ⟨h, rfl⟩, rfl⟩

end

/-! ### Registrations -/

/-- The tables after `Save` has overwritten a stored registration. -/
def putAgent (reg : AgentRegistration) (s : Store) : Store :=
  { s with agents := s.agents.update (fun id _ => id == reg.id) (AgentRow.overwrite reg) }

variable {reg r : AgentRegistration} {id : Nat} {row row' : AgentRow}

@[simp] theorem mem_putAgent : (id, row') ∈ (putAgent reg s).agents.rows ↔
    ∃ row, (id, row) ∈ s.agents.rows ∧ row' = if id = reg.id then row.overwrite reg else row := by
  simp [putAgent]

/-- `Save` on a stored registration succeeds under its guard and overwrites the one row. -/
theorem saveAgent_stored (h : saveAgent reg s = .ok (r, t)) (hid : reg.id ≠ 0) :
    r = reg ∧ t = putAgent reg s ∧ ∃ row, (reg.id, row) ∈ s.agents.rows ∧
      (row.status = .revoked → reg.status = .revoked) ∧
      (row.status = .deprecated → reg.status = .deprecated ∨ reg.status = .revoked) := by
  simp only [saveAgent, run_bind_eq_ok_iff, run_get_eq_ok_iff, run_ite_eq_ok_iff, hid, false_and,
    false_or, run_set_eq_ok_iff, run_require_eq_ok_iff, run_pure_eq_ok_iff] at h
  obtain ⟨_, _, ⟨rfl, rfl⟩, _, _, _, ⟨hone, rfl⟩, _, _, rfl, rfl, rfl⟩ := h
  obtain ⟨⟨i, row⟩, hselect⟩ := length_eq_one_iff.mp hone
  have hrow : (i, row) ∈ s.agents.select (saveGuard reg) := by
    rw [hselect]
    exact mem_singleton_self _
  obtain ⟨hmem, hguard⟩ := mem_select.mp hrow
  simp only [saveGuard, Bool.and_eq_true, beq_iff_eq, Bool.or_eq_true, bne_iff_ne] at hguard
  obtain ⟨⟨rfl, hrevoked⟩, hdeprecated⟩ := hguard
  refine ⟨rfl, ?_, row, hmem, fun hst => hrevoked.resolve_left (not_not_intro hst),
    fun hst => hdeprecated.resolve_left (not_not_intro hst)⟩
  -- on the one row under the key the guard holds, so it may be dropped from the update
  refine congrArg (fun agents => { s with agents := agents }) (update_congr ?_)
  intro j row' hrow'
  by_cases hj : j = reg.id
  · subst hj
    obtain rfl := mem_unique hmem hrow'
    simp [saveGuard, hrevoked, hdeprecated]
  · simp [saveGuard, hj]

/-- The guard of `Save` is all that can stop an overwrite. -/
theorem saveAgent_succeeds (hmem : (reg.id, row) ∈ s.agents.rows)
    (hguard : saveGuard reg reg.id row = true) : saveAgent reg s = .ok (reg, putAgent reg s) := by
  have hid : reg.id ≠ 0 := Nat.pos_iff_ne_zero.mp (s.agents.bounded _ hmem).1
  have hone : (s.agents.select (saveGuard reg)).length = 1 := by
    rw [select_eq_singleton hmem hguard]
    · rfl
    · intro j row' _ hguard'
      simp only [saveGuard, Bool.and_eq_true, beq_iff_eq] at hguard'
      exact hguard'.1.1
  have hsave : ∃ t, saveAgent reg s = .ok (reg, t) := by
    simp only [saveAgent, run_bind_eq_ok_iff, run_get_eq_ok_iff, run_ite_eq_ok_iff, hid, false_and,
      false_or, run_set_eq_ok_iff, run_require_eq_ok_iff, run_pure_eq_ok_iff]
    exact ⟨_, _, _, ⟨rfl, rfl⟩, not_false, (), _, ⟨hone, rfl⟩, (), _, rfl, trivial, rfl⟩
  obtain ⟨t, hsave⟩ := hsave
  rw [hsave, (saveAgent_stored hsave hid).2.1]

/-- `Save` on a new registration inserts it, if agent id and name are free. -/
theorem saveAgent_new (h : saveAgent reg s = .ok (r, t)) (hid : reg.id = 0) :
    s.hasAgent reg.agentID = false ∧ t = { s with agents := s.agents.insert (AgentRow.ofDomain reg) } ∧
      r = { reg with id := s.agents.next } := by
  simp only [saveAgent, run_bind_eq_ok_iff, run_get_eq_ok_iff, run_ite_eq_ok_iff, hid, true_and,
    not_true_eq_false, false_and, or_false, run_set_eq_ok_iff, run_require_eq_ok_iff,
    run_pure_eq_ok_iff] at h
  obtain ⟨_, _, ⟨rfl, rfl⟩, _, _, ⟨hagent, rfl⟩, _, _, ⟨_, rfl⟩, _, _, rfl, rfl, rfl⟩ := h
  exact ⟨hagent, rfl, rfl⟩

/-- Saving what is stored changes nothing. -/
theorem putAgent_eq_self (hmem : (reg.id, row) ∈ s.agents.rows) (hsame : row.overwrite reg = row) :
    putAgent reg s = s := by
  have hagents : s.agents.update (fun i _ => i == reg.id) (AgentRow.overwrite reg) = s.agents := by
    apply update_eq_self
    intro i a ha hi
    obtain rfl := beq_iff_eq.mp hi
    obtain rfl := mem_unique hmem ha
    exact hsame
  unfold putAgent
  rw [hagents]

theorem agentByID_stored {agentID : String} (h : s.agentByID agentID = some r) :
    ∃ row, (r.id, row) ∈ s.agents.rows ∧ row.toDomain r.id = r ∧ row.agentID = agentID := by
  obtain ⟨⟨i, row⟩, hfirst, rfl⟩ := Option.map_eq_some_iff.mp h
  obtain ⟨hmem, hsel⟩ := mem_of_first hfirst
  exact ⟨row, hmem, rfl, beq_iff_eq.mp hsel⟩

/-- `FindByAgentID` returns a copy of a stored row. -/
theorem findByAgentID_stored {agentID : String} (h : findByAgentID agentID s = .ok (r, t)) :
    s = t ∧ ∃ row, (r.id, row) ∈ s.agents.rows ∧ row.toDomain r.id = r ∧ row.agentID = agentID := by
  obtain ⟨hsame, hfound⟩ := one_unchanged h
  exact ⟨hsame, agentByID_stored hfound⟩

/-- `FindAllByAgentHost` returns copies of exactly the rows on the host. -/
theorem mem_agentsByHost {host : String} : r ∈ s.agentsByHost host ↔
    ∃ row, (r.id, row) ∈ s.agents.rows ∧ row.toDomain r.id = r ∧ row.ansName.fqdn = host := by
  unfold agentsByHost
  rw [mem_reverse, mem_map]
  constructor
  · rintro ⟨⟨i, row⟩, hrow, rfl⟩
    obtain ⟨hmem, hhost⟩ := mem_select.mp hrow
    exact ⟨row, hmem, rfl, beq_iff_eq.mp hhost⟩
  · rintro ⟨row, hmem, heq, hhost⟩
    exact ⟨(r.id, row), mem_select.mpr ⟨hmem, beq_iff_eq.mpr hhost⟩, heq⟩

/-- No row is returned twice. -/
theorem agentsByHost_distinct (s : Store) (host : String) :
    (s.agentsByHost host).Pairwise fun r r' => r.id ≠ r'.id := by
  unfold agentsByHost
  rw [pairwise_reverse, pairwise_map]
  have hkeys : (s.agents.rows.map Prod.fst).Pairwise (· ≠ ·) := s.agents.increasing.imp Nat.ne_of_lt
  rw [pairwise_map] at hkeys
  refine (hkeys.sublist filter_sublist).imp ?_
  intro a b hne
  exact fun heq => hne heq.symm

/-- The sweep only takes registrations whose order is still pending. -/
theorem isLapsed_pending {now : Time} (h : isLapsed now id row = true) :
    row.status = .pendingValidation ∧ row.certOrder.state = .pending := by
  simp only [isLapsed, Bool.and_eq_true, Bool.or_eq_true, beq_iff_eq] at h
  obtain ⟨⟨hwaiting, hexpires⟩, hzero | horder⟩ := h
  · -- an order without any data has no deadline that could have passed
    have hnone : row.certOrder.expiresAt = none := by
      simp only [CertificateOrder.isZero, decide_eq_true_eq] at hzero
      exact hzero.2.2.2.1
    rw [hnone] at hexpires
    cases hexpires
  · exact ⟨hwaiting, horder⟩

/-! ### Identity certificates -/

/-- A certificate row after its revocation. -/
def withdrawnRow (row : CertificateRow) : CertificateRow := { row with certificate := row.certificate.revoke }

/-- The certificate under a key is a valid one of a list. -/
def isListedValid (certs : List StoredCertificate) (id : Nat) : Bool :=
  certs.any fun c => c.status == .valid && id == c.internalID

/-- The tables after the valid certificates of a list have been marked revoked. -/
def withdraw (certs : List StoredCertificate) (s : Store) : Store :=
  { s with certificates := s.certificates.update (fun id _ => isListedValid certs id) withdrawnRow }

theorem withdrawnRow_withdrawnRow (row : CertificateRow) : withdrawnRow (withdrawnRow row) = withdrawnRow row :=
  rfl

/-- The loop over the certificates never fails, and its turns amount to one update. -/
theorem revokeCertificates_eq (certs : List StoredCertificate) (s : Store) :
    revokeCertificates certs s = .ok ((), withdraw certs s) := by
  induction certs generalizing s with
  | nil =>
    have hnone : withdraw [] s = s := by
      unfold withdraw
      rw [update_eq_self]
      simp [isListedValid]
    rw [hnone]
    rfl
  | cons c rest ih =>
    by_cases hvalid : c.status = .valid
    · have hstep : revokeCertificates (c :: rest) s = revokeCertificates rest
          { s with certificates := s.certificates.update (fun id _ => id == c.internalID) withdrawnRow } := by
        simp only [revokeCertificates, forEach, hvalid, if_true]
        rfl
      rw [hstep, ih]
      simp only [withdraw]
      rw [update_update withdrawnRow_withdrawnRow]
      simp [isListedValid, hvalid]
    · have hstep : revokeCertificates (c :: rest) s = revokeCertificates rest s := by
        simp only [revokeCertificates, forEach, hvalid, if_false]
        rfl
      rw [hstep, ih]
      simp [withdraw, isListedValid, beq_false_of_ne hvalid]

variable {cert : CertificateRow} {u : Unit}

/-- The list that `FindIdentityCertificatesByAgent` returns names exactly the agent's valid certificates. -/
theorem isListedValid_certificatesOf {agentID : String} (hcert : (id, cert) ∈ s.certificates.rows) :
    isListedValid (s.certificatesOf agentID) id = true ↔ cert.agentID = agentID ∧ cert.certificate.status = .valid := by
  unfold isListedValid certificatesOf
  simp only [any_eq_true, mem_reverse, mem_map, Bool.and_eq_true, beq_iff_eq]
  constructor
  · rintro ⟨c, ⟨⟨j, row⟩, hrow, rfl⟩, hvalid, rfl⟩
    obtain ⟨hmem, hagent⟩ := mem_select.mp hrow
    obtain rfl := mem_unique hcert hmem
    exact ⟨beq_iff_eq.mp hagent, hvalid⟩
  · rintro ⟨hagent, hvalid⟩
    exact ⟨_, ⟨(id, cert), mem_select.mpr ⟨hcert, beq_iff_eq.mpr hagent⟩, rfl⟩, hvalid, rfl⟩

/-- `SaveIdentityCertificate` inserts one row. -/
theorem saveIdentityCertificate_stored {agentID : String} {stored : StoredCertificate}
    (h : saveIdentityCertificate agentID stored s = .ok (u, t)) :
    t = { s with certificates := s.certificates.insert { agentID, certificate := stored } } := by
  simp only [saveIdentityCertificate, run_bind_eq_ok_iff, run_get_eq_ok_iff, run_require_eq_ok_iff,
    run_set_eq_ok_iff] at h
  obtain ⟨_, _, ⟨rfl, rfl⟩, _, _, ⟨_, rfl⟩, rfl⟩ := h
  rfl

/-! ### Signing requests, server certificates and renewals -/

/-- `SaveCSR` updates the request under its id, or inserts it. -/
theorem saveCSR_stored {agentID : String} {csr : AgentCSR} (h : saveCSR agentID csr s = .ok (u, t)) :
    (t = { s with csrs := s.csrs.update (fun _ row => row.csr.csrID == csr.csrID) (CSRRow.overwrite csr) } ∧
      ∃ id row, (id, row) ∈ s.csrs.rows ∧ row.csr.csrID = csr.csrID) ∨
    (t = { s with csrs := s.csrs.insert { agentID, csr } } ∧
      ∀ id row, (id, row) ∈ s.csrs.rows → row.csr.csrID ≠ csr.csrID) := by
  simp only [saveCSR, run_bind_eq_ok_iff, run_get_eq_ok_iff, run_ite_eq_ok_iff, run_set_eq_ok_iff,
    run_require_eq_ok_iff] at h
  obtain ⟨_, _, ⟨rfl, rfl⟩, ⟨hany, rfl⟩ | ⟨hnone, _, _, ⟨_, rfl⟩, rfl⟩⟩ := h
  · left
    obtain ⟨⟨id, row⟩, hrow, hcsr⟩ := any_eq_true.mp hany
    exact ⟨rfl, id, row, hrow, beq_iff_eq.mp hcsr⟩
  · right
    refine ⟨rfl, ?_⟩
    intro id row hrow hcsr
    exact hnone (any_eq_true.mpr ⟨(id, row), hrow, beq_iff_eq.mpr hcsr⟩)

/-- `Save` on a server certificate inserts one row. -/
theorem saveByoc_stored {agentID : String} {cert : ByocServerCertificate}
    (h : saveByoc agentID cert s = .ok (u, t)) :
    t = { s with byoc := s.byoc.insert { agentID, certificate := cert } } := by
  simp only [saveByoc, run_bind_eq_ok_iff, run_get_eq_ok_iff, run_set_eq_ok_iff,
    run_require_eq_ok_iff] at h
  obtain ⟨_, _, ⟨rfl, rfl⟩, _, _, ⟨_, rfl⟩, rfl⟩ := h
  rfl

/-- The tables after `Save` has overwritten a stored renewal. -/
def putRenewal (r : ServerCertificateRenewal) (s : Store) : Store :=
  { s with renewals := s.renewals.update (isOpenRenewal r.id) (overwriteRenewal r) }

/-- `Save` on a renewal inserts a new one, or overwrites one that is not completed. -/
theorem saveRenewal_stored {r : ServerCertificateRenewal} (h : saveRenewal r s = .ok (u, t)) :
    (r.id = 0 ∧ t = { s with renewals := s.renewals.insert r }) ∨
    (t = putRenewal r s ∧ ∃ row, (r.id, row) ∈ s.renewals.rows ∧ row.completedAt = none) := by
  simp only [saveRenewal, run_bind_eq_ok_iff, run_get_eq_ok_iff, run_ite_eq_ok_iff,
    run_set_eq_ok_iff, run_require_eq_ok_iff] at h
  obtain ⟨_, _, ⟨rfl, rfl⟩, ⟨hid, _, _, ⟨_, rfl⟩, rfl⟩ | ⟨_, _, _, ⟨hone, rfl⟩, rfl⟩⟩ := h
  · exact .inl ⟨hid, rfl⟩
  · right
    obtain ⟨⟨i, row⟩, hselect⟩ := length_eq_one_iff.mp hone
    have hrow : (i, row) ∈ s.renewals.select (isOpenRenewal r.id) := by
      rw [hselect]
      exact mem_singleton_self _
    obtain ⟨hmem, hopen⟩ := mem_select.mp hrow
    simp only [isOpenRenewal, Bool.and_eq_true, beq_iff_eq, Option.isNone_iff_eq_none] at hopen
    obtain ⟨rfl, hopen⟩ := hopen
    exact ⟨rfl, row, hmem, hopen⟩

end Store

end AgentNameService.Registration
