/-
Purpose: Whether a revoked registration keeps a valid identity certificate.  It does not, as long as each
  cancellation of a pending registration commits with a certificate list that is still complete; the list is
  read before the transaction and not again, so a `VerifyACME` that commits in between leaves a certificate
  behind.
Source: internal/ra/service/{lifecycle,registration,revocation}.go
Trusted boundary: none
-/
import AgentNameService.Registration.Lifecycle

namespace AgentNameService.Registration

open Interleaving Store List Table

variable {s t : Store} {c : Call} {id : Nat} {row row' : AgentRow} {agentID : String} {reg : AgentRegistration}

/-- No identity certificate of the agent is valid. -/
def NoValid (agentID : String) (s : Store) : Prop :=
  ∀ k cert, (k, cert) ∈ s.certificates.rows → cert.agentID = agentID → cert.certificate.status ≠ .valid

/-- No revoked registration has a valid certificate. -/
def Withdrawn (s : Store) : Prop :=
  ∀ id row, (id, row) ∈ s.agents.rows → row.status = .revoked → NoValid row.agentID s

/-- The certificate list of a cancellation names every certificate of the agent that is valid now. -/
def CoversCertificates : Call → Store → Prop
  | .commitCancellation reg certs, s => ∀ stored ∈ s.certificates.rows, stored.2.agentID = reg.agentID →
      stored.2.certificate.status = .valid → isListedValid certs stored.1 = true
  | _, _ => True

instance (c : Call) (s : Store) : Decidable (CoversCertificates c s) :=
  match c with
  | .commitCancellation .. => inferInstanceAs (Decidable (∀ stored ∈ s.certificates.rows, _))
  | .read _ | .saveAgent _ | .saveCSR .. | .saveRenewal _ | .prepareActivationSeal ..
  | .expireLapsedPendingValidation _ | .delivery _ | .register _ | .commitACME .. | .commitActivation ..
  | .commitRevocation .. | .sweepCertificates _ | .commitIdentityCSR .. | .commitServerCSR ..
  | .submitRenewal .. | .cancelRenewal .. | .commitRenewal .. => .isTrue trivial

/-! ### Certificates that a step leaves valid -/

/-- Marking certificates makes none valid. -/
theorem valid_before_update {u : Table CertificateRow} {selects : Nat → CertificateRow → Bool} {k : Nat}
    {cert : CertificateRow} (h : (k, cert) ∈ (u.update selects withdrawnRow).rows)
    (hvalid : cert.certificate.status = .valid) : (k, cert) ∈ u.rows ∧ selects k cert = false := by
  obtain ⟨old, hold, heq⟩ := mem_update.mp h
  by_cases hsel : selects k old = true
  · rw [if_pos hsel] at heq
    rw [heq] at hvalid
    cases hvalid
  · rw [if_neg hsel] at heq
    rw [heq]
    exact ⟨hold, Bool.eq_false_iff.mpr hsel⟩

/-- A certificate that is valid after a step was valid before it, or was issued for a registration that is
not revoked. -/
theorem Effect.valid_before (h : Effect s t c) (hpre : Pre c s) {k : Nat} {cert : CertificateRow}
    (hcert : (k, cert) ∈ t.certificates.rows) (hvalid : cert.certificate.status = .valid) :
    (k, cert) ∈ s.certificates.rows ∨
      ∃ id row, (id, row) ∈ t.agents.rows ∧ row.agentID = cert.agentID ∧ row.status ≠ .revoked := by
  cases h with
  | quiet _ hcertificates | sent _ hcertificates | registered _ _ hcertificates | lapsed _ hcertificates =>
    exact .inl (hcertificates ▸ hcert)
  | saved _ hresult =>
    subst hresult
    exact .inl hcert
  | @advanced reg _ _ hadmitted hagents hcertificates =>
    rcases hcertificates with hsame | ⟨stored, hnew⟩
    · exact .inl (hsame ▸ hcert)
    · rw [hnew, mem_insert] at hcert
      rcases hcert with hold | heq
      · exact .inl hold
      · right
        obtain ⟨⟨own, hown, hagent, _⟩, hstatus, _⟩ := hpre
        refine ⟨reg.id, own.overwrite reg, ?_, ?_, ?_⟩
        · exact (rewrites_putAgent hagents _ _).mpr ⟨own, hown, by simp⟩
        · rw [(Prod.mk.inj heq).2]
          exact hagent
        · change reg.status ≠ .revoked
          simp [hstatus]
  | activated _ _ _ _ _ hcertificates | revoked _ _ _ _ hcertificates =>
    rw [hcertificates] at hcert
    exact .inl (valid_before_update hcert hvalid).1
  | cancelled _ hresult | swept hresult =>
    subst hresult
    exact .inl (valid_before_update hcert hvalid).1
  | rotated hstored hagent hactive hagents hcertificates =>
    rw [hcertificates, mem_insert] at hcert
    rcases hcert with hold | heq
    · exact .inl hold
    · right
      refine ⟨_, _, hagents ▸ hstored, ?_, by simp [hactive]⟩
      rw [(Prod.mk.inj heq).2]
      exact hagent

/-! ### Registrations that a step revokes -/

/-- A step that revokes a registration leaves none of its certificates valid. -/
theorem Effect.withdraws (h : Effect s t c) (hpre : Pre c s) (hcovers : CoversCertificates c s)
    (hchanged : t.agents ≠ s.agents) (hby : Revokes s agentID c) : NoValid agentID t := by
  intro k cert hcert hagent hvalid
  cases hby with
  | loser hloses hloser =>
    cases h with
    | quiet hagents => exact hchanged hagents
    | activated _ _ _ _ _ hcertificates =>
      rw [hcertificates] at hcert
      have hspared := (valid_before_update hcert hvalid).2
      have hlost : ((losers _ s).any fun r => cert.agentID == r.agentID) = true :=
        any_eq_true.mpr ⟨_, hloses, beq_iff_eq.mpr (hagent.trans hloser.symm)⟩
      rw [hvalid, hlost] at hspared
      cases hspared
  | live hlive =>
    cases h with
    | quiet hagents => exact hchanged hagents
    | revoked _ _ _ _ hcertificates =>
      rw [hcertificates] at hcert
      have hspared := (valid_before_update hcert hvalid).2
      rw [hvalid, hagent, hlive] at hspared
      simp at hspared
  | pending hstored hpending =>
    cases h with
    | quiet hagents => exact hchanged hagents
    | cancelled _ hresult =>
      subst hresult
      obtain ⟨hold, hspared⟩ := valid_before_update hcert hvalid
      obtain ⟨⟨own, hown, hownAgent, _⟩, _⟩ := hpre
      obtain rfl := mem_unique hstored hown
      have hlisted := hcovers (k, cert) hold (hagent.trans (hpending.symm.trans hownAgent)) hvalid
      rw [hlisted] at hspared
      cases hspared

theorem Effect.withdrawn (h : Effect s t c) (hinv : Inv s) (hpre : Pre c s) (hcovers : CoversCertificates c s)
    (hs : Withdrawn s) : Withdrawn t := by
  intro id row' hrow' hrevoked
  rcases h.revoked_by hpre hrow' hrevoked with ⟨row, hrow, hagent, hold⟩ | ⟨hchanged, hby⟩
  · intro k cert hcert hcertAgent hvalid
    rcases h.valid_before hpre hcert hvalid with hbefore | ⟨j, other, hother, hotherAgent, hlive⟩
    · exact hs id row hrow hold k cert hbefore (hcertAgent.trans hagent.symm) hvalid
    · -- a new certificate belongs to a registration that is not revoked
      obtain ⟨_, rfl⟩ := (h.keeps hinv hpre).1.unique hrow' hother (hcertAgent.symm.trans hotherAgent.symm)
      exact hlive hrevoked
  · exact h.withdraws hpre hcovers hchanged hby

/-! ### Every run -/

theorem withdrawn_of_coversCertificates (w : Wiring) {p : Pool (service w)}
    (hreachable : Reachable (service w) CoversCertificates p) : Withdrawn p.state :=
  (governs w).invariant (by simp [Withdrawn, Store.empty])
    (fun _ _ _ _ _ hinv hpre hcovers hs hexec =>
      (effect_of_exec hinv hpre hexec).withdrawn hinv hpre hcovers hs) hreachable

/-- In every run in which each cancellation commits with a complete certificate list: once a `Revoke` has
succeeded for an agent, in that state and in every later one, no identity certificate of the agent is valid. -/
theorem revoke_leaves_no_valid (w : Wiring) {p : Pool (service w)}
    (hreachable : Reachable (service w) CoversCertificates p) {agentID : String} {reason : RevocationReason}
    {lane : Lane} {out : Outcome} (hdone : (.revoke agentID reason lane, .ret (.ok out)) ∈ p.threads) :
    NoValid agentID p.state := by
  obtain ⟨id, row, hrow, hagent, hrevoked⟩ : Revoked agentID p.state := (governs w).post hreachable hdone
  exact hagent ▸ withdrawn_of_coversCertificates w hreachable id row hrow hrevoked

/-- The operation of a thread that has succeeded. -/
def succeeded (p : Pool (service {})) (thread : Nat) : Option Op :=
  match p.threads[thread]? with
  | some (op, .ret (.ok _)) => some op
  | _ => none

theorem mem_of_succeeded {p : Pool (service {})} {thread : Nat} {op : Op} (h : succeeded p thread = some op) :
    ∃ out, (op, .ret (.ok out)) ∈ p.threads := by
  unfold succeeded at h
  split at h
  · rename_i out hthread
    cases h
    exact ⟨out, mem_of_getElem? hthread⟩
  · cases h

/-- A registration that is validated and then cancelled. -/
def withdrawnPool : Pool (service {}) :=
  let step := advanceWhile fun c s => decide (CoversCertificates c s)
  let registered := step ((Pool.start (service {})).spawn (.registerAgent sampleRequest)) 0 20
  let validated := step (registered.spawn (.verifyACME "agent-1")) 1 20
  step (validated.spawn (.revoke "agent-1" .keyCompromise .v2)) 2 20

theorem withdrawnPool_reachable : Reachable (service {}) CoversCertificates withdrawnPool := by
  have hstep {p : Pool (service {})} (h : Reachable (service {}) CoversCertificates p) (thread moves : Nat) :
      Reachable (service {}) CoversCertificates
        (advanceWhile (fun c s => decide (CoversCertificates c s)) p thread moves) :=
    h.driveWhile (fun _ _ hadmitted => of_decide_eq_true hadmitted) _ _ _ _
  have hregistered := hstep (Reachable.start.spawn (Op.registerAgent sampleRequest)) 0 20
  have hvalidated := hstep (hregistered.spawn (.verifyACME "agent-1")) 1 20
  exact hstep (hvalidated.spawn (.revoke "agent-1" .keyCompromise .v2)) 2 20

set_option maxRecDepth 20000 in
theorem withdrawnPool_succeeded :
    succeeded withdrawnPool 2 = some (.revoke "agent-1" .keyCompromise .v2) := by decide +kernel

set_option maxRecDepth 20000 in
/-- A cancellation with nothing in between withdraws the certificate that was issued. -/
theorem revoke_leaves_no_valid_withdrawn : withdrawnPool.state.certificates.rows.length = 1 ∧
    NoValid "agent-1" withdrawnPool.state := by
  obtain ⟨out, hdone⟩ := mem_of_succeeded withdrawnPool_succeeded
  exact ⟨by decide +kernel, revoke_leaves_no_valid {} withdrawnPool_reachable hdone⟩

/-! ### The race -/

/-- A first `VerifyACME` has its certificate and is about to commit, a second one commits, `cancelPending` reads
the certificates, the first one commits, and the cancellation commits. -/
def leftoverPool : Pool (service {}) :=
  let acme := advance (registeredPool.spawn (.verifyACME "agent-1")) 1 8
  let validated := advance (acme.spawn (.verifyACME "agent-1")) 2 20
  let cancelling := advance (validated.spawn (.revoke "agent-1" .keyCompromise .v2)) 3 6
  advance (advance cancelling 1 5) 3 10

theorem leftoverPool_reached : Reached (service {}) leftoverPool := by
  have hacme := advance_reached (registeredPool_reached.spawn (.verifyACME "agent-1")) 1 8
  have hvalidated := advance_reached (hacme.spawn (.verifyACME "agent-1")) 2 20
  have hcancelling := advance_reached (hvalidated.spawn (.revoke "agent-1" .keyCompromise .v2)) 3 6
  exact advance_reached (advance_reached hcancelling 1 5) 3 10

set_option maxRecDepth 20000 in
theorem leftoverPool_certificates : succeeded leftoverPool 3 = some (.revoke "agent-1" .keyCompromise .v2) ∧
    leftoverPool.state.certificates.rows.map (fun row => (row.2.agentID, row.2.certificate.status)) =
      [("agent-1", .revoked), ("agent-1", .valid)] := by decide +kernel

/-- The `Revoke` call succeeds, and a certificate of the agent stays valid. -/
theorem revoked_with_valid_certificate : ∃ (p : Pool (service {})) (out : Outcome),
    Reached (service {}) p ∧ (.revoke "agent-1" .keyCompromise .v2, .ret (.ok out)) ∈ p.threads ∧
      ¬ NoValid "agent-1" p.state := by
  obtain ⟨hsucceeded, hcertificates⟩ := leftoverPool_certificates
  obtain ⟨out, hdone⟩ := mem_of_succeeded hsucceeded
  refine ⟨leftoverPool, out, leftoverPool_reached, hdone, ?_⟩
  intro hnone
  have hmem : ("agent-1", CertificateStatus.valid) ∈
      leftoverPool.state.certificates.rows.map fun row => (row.2.agentID, row.2.certificate.status) := by
    rw [hcertificates]
    simp
  obtain ⟨⟨k, cert⟩, hcert, heq⟩ := mem_map.mp hmem
  exact hnone k cert hcert (Prod.mk.inj heq).1 (Prod.mk.inj heq).2

end AgentNameService.Registration
