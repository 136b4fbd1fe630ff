/-
Purpose: Which steps of the service respect the status machine of a registration.  All but one kind do, in
  every interleaving: the exception is `VerifyACME`, which saves the copy it read before it asked the
  authorities, and whose save the store lets through on a row that has been activated or has expired since.
Source: internal/ra/service/lifecycle.go, internal/domain/status.go, internal/adapter/store/sqlite/agent.go
Trusted boundary: none
-/
import AgentNameService.Registration.Conduct

namespace AgentNameService.Registration

open Interleaving Store Table Tx List

variable {s t : Store} {reg : AgentRegistration} {c : Call} {id : Nat} {row row' : AgentRow}

/-- Every stored status that changes takes a transition of the status machine. -/
def Legal (s t : Store) : Prop :=
  ∀ id row row', (id, row) ∈ s.agents.rows → (id, row') ∈ t.agents.rows → row'.status ≠ row.status →
    row'.status ∈ row.status.validTransitions

/-- A save of `VerifyACME` on a row that has moved on: the copy that waits for its records meets an active or
an expired row, or the copy that records the state of the order meets a row past domain validation. -/
def StaleSave : Call → Store → Prop
  | .commitACME reg _ _, s =>
    ∃ row, (reg.id, row) ∈ s.agents.rows ∧ (row.status = .active ∨ row.status = .expired)
  | .saveAgent reg, s => ∃ row, (reg.id, row) ∈ s.agents.rows ∧
      (row.status = .pendingDNS ∨ row.status = .active ∨ row.status = .expired)
  | _, _ => False

/-! ### Steps that are not stale -/

/-- A copy that waits for domain validation changes no status unless it is stale. -/
theorem pendingValidation_same (hsound : row.Sound) (hrevoked : row.status ≠ .revoked)
    (hdeprecated : row.status ≠ .deprecated)
    (hfresh : ¬ (row.status = .pendingDNS ∨ row.status = .active ∨ row.status = .expired)) :
    row.status = .pendingValidation := by
  have hfailed := hsound.notFailed
  cases hstatus : row.status <;> simp_all

/-- A copy that waits for its records may be saved on any row but an active or an expired one. -/
theorem pendingDNS_legal (hsound : row.Sound) (hrevoked : row.status ≠ .revoked)
    (hdeprecated : row.status ≠ .deprecated) (hfresh : ¬ (row.status = .active ∨ row.status = .expired))
    (hchanges : .pendingDNS ≠ row.status) : .pendingDNS ∈ row.status.validTransitions := by
  have hfailed := hsound.notFailed
  cases hstatus : row.status <;> simp_all [RegistrationStatus.validTransitions]

/-- A cancelled copy may be saved wherever the order has been settled. -/
theorem revoked_legal (hsound : row.Sound) (hsettled : row.certOrder.state ≠ .pending)
    (hchanges : .revoked ≠ row.status) : .revoked ∈ row.status.validTransitions := by
  have hfailed := hsound.notFailed
  have hexpired : row.status ≠ .expired := fun h => hsettled (hsound.expired h)
  cases hstatus : row.status <;> simp_all [RegistrationStatus.validTransitions]

/-- The guard of `Save` stops every copy but a revoked one on a revoked or a deprecated row. -/
theorem admitted_on {status : RegistrationStatus} (hlive : row.status = .revoked → status = .revoked)
    (hdeprecated : row.status = .deprecated → status = .deprecated ∨ status = .revoked)
    (hstatus : status.isPending = true) : row.status ≠ .revoked ∧ row.status ≠ .deprecated := by
  constructor
  · intro h
    rw [hlive h] at hstatus
    cases hstatus
  · intro h
    rcases hdeprecated h with h' | h' <;> · rw [h'] at hstatus; cases hstatus

theorem Change.legal (h : Change s id row c row') (hrow : (id, row) ∈ s.agents.rows) (hinv : Inv s)
    (hpre : Pre c s) (hstale : ¬ StaleSave c s) (hchanges : row'.status ≠ row.status) :
    row'.status ∈ row.status.validTransitions := by
  have hsound := hinv.sound id row hrow
  cases h with
  | same => exact absurd rfl hchanges
  | @saved reg hkey hlive hdeprecated =>
    subst hkey
    have hstatus : reg.status = .pendingValidation := hpre.2.1
    obtain ⟨hnr, hnd⟩ := admitted_on hlive hdeprecated (by rw [hstatus]; rfl)
    have hsame := pendingValidation_same hsound hnr hnd fun h => hstale ⟨row, hrow, h⟩
    exact absurd (hstatus.trans hsame.symm) hchanges
  | @advanced reg _ _ hkey hlive hdeprecated =>
    subst hkey
    have hstatus : reg.status = .pendingDNS := hpre.2.1
    obtain ⟨hnr, hnd⟩ := admitted_on hlive hdeprecated (by rw [hstatus]; rfl)
    change reg.status ≠ row.status at hchanges
    change reg.status ∈ _
    rw [hstatus] at hchanges ⊢
    exact pendingDNS_legal hsound hnr hnd (fun h => hstale ⟨row, hrow, h⟩) hchanges
  | @activated reg _ hkey hwaiting =>
    have hstatus : reg.status = .active := hpre.2.1
    change reg.status ∈ _
    rw [hstatus, hwaiting]
    decide
  | outrun _ _ _ hpending =>
    cases hstatus : row.status <;> simp_all [RegistrationStatus.isPending, RegistrationStatus.validTransitions,
      revokedRow]
  | revoked _ hlegal => exact hlegal
  | @cancelled reg _ hkey =>
    subst hkey
    obtain ⟨_, hstatus, _, own, hown, hsettled⟩ := hpre
    obtain rfl := mem_unique hrow hown
    change reg.status ≠ row.status at hchanges
    change reg.status ∈ _
    rw [hstatus] at hchanges ⊢
    exact revoked_legal hsound hsettled hchanges
  | lapsed hwaiting =>
    change RegistrationStatus.expired ∈ _
    rw [hwaiting]
    decide

/-- A step that is not stale only takes transitions of the status machine. -/
theorem Effect.legal (h : Effect s t c) (hinv : Inv s) (hpre : Pre c s) (hstale : ¬ StaleSave c s) : Legal s t := by
  intro id row row' hrow hrow' hchanges
  rcases h.changes with ⟨reg, rfl, _, hagents⟩ | ⟨g, hg, hchange⟩
  · rw [hagents, mem_insert] at hrow'
    rcases hrow' with hold | hnew
    · rw [mem_unique hrow hold] at hchanges
      exact absurd rfl hchanges
    · rw [(Prod.mk.inj hnew).1] at hrow
      exact absurd hrow not_mem_next
  · obtain ⟨old, hold, rfl⟩ := (hg id row').mp hrow'
    obtain rfl := mem_unique hrow hold
    exact (hchange id row hrow).legal hrow hinv hpre hstale hchanges

/-! ### Stale saves -/

section

variable (hagent : s.hasAgent reg.agentID = true)

include hagent

theorem saveIdentity_succeeds (identity : Option (AgentCSR × StoredCertificate)) :
    ∃ t, forEach identity.toList (fun issued => do
      saveCSR reg.agentID issued.1
      saveIdentityCertificate reg.agentID issued.2) s = .ok ((), t) ∧ t.agents = s.agents := by
  cases identity with
  | none => exact ⟨s, rfl, rfl⟩
  | some issued =>
    obtain ⟨v, hcsr⟩ := saveCSR_succeeds hagent issued.1
    have hv := (saveCSR_sameCore _ _ _ _ _ hcsr).agents
    obtain ⟨t, hcert⟩ := saveIdentityCertificate_succeeds ((hasAgent_congr hv).trans hagent) issued.2
    refine ⟨t, run_bind_eq_ok_iff.mpr ⟨(), t, run_bind_eq_ok_iff.mpr ⟨(), v, hcsr, hcert⟩, rfl⟩, ?_⟩
    rw [saveIdentityCertificate_stored hcert]
    exact hv

theorem saveServer_succeeds (server : Option (ByocServerCertificate × AgentCSR)) :
    ∃ t, forEach server.toList (fun issued => do
      saveByoc reg.agentID issued.1
      saveCSR reg.agentID issued.2) s = .ok ((), t) ∧ t.agents = s.agents := by
  cases server with
  | none => exact ⟨s, rfl, rfl⟩
  | some issued =>
    obtain ⟨v, hbyoc⟩ := saveByoc_succeeds hagent issued.1
    have hv := (saveByoc_sameCore _ _ _ _ _ hbyoc).agents
    obtain ⟨t, hcsr⟩ := saveCSR_succeeds ((hasAgent_congr hv).trans hagent) issued.2
    refine ⟨t, run_bind_eq_ok_iff.mpr ⟨(), t, run_bind_eq_ok_iff.mpr ⟨(), v, hbyoc, hcsr⟩, rfl⟩, ?_⟩
    exact (saveCSR_sameCore _ _ _ _ _ hcsr).agents.trans hv

end

/-- The transaction of `VerifyACME` commits on every stored registration that `Save` lets through. -/
theorem commitACME_succeeds (identity : Option (AgentCSR × StoredCertificate))
    (server : Option (ByocServerCertificate × AgentCSR)) (hrow : (reg.id, row) ∈ s.agents.rows)
    (hagent : row.agentID = reg.agentID) (hguard : saveGuard reg reg.id row = true) :
    ∃ t, Transactions.commitACME reg identity server s = .ok ((), t) ∧ t.agents = (putAgent reg s).agents := by
  have hstored : s.hasAgent reg.agentID = true := hagent ▸ hasAgent_of_mem hrow
  obtain ⟨v, hidentity, hv⟩ := saveIdentity_succeeds hstored identity
  obtain ⟨w, hserver, hw⟩ := saveServer_succeeds ((hasAgent_congr hv).trans hstored) server
  have hagents : w.agents = s.agents := hw.trans hv
  have hsave := saveAgent_succeeds (hagents ▸ hrow) hguard
  have hlast := run_discard_eq_ok_iff (u := PUnit.unit).mpr ⟨reg, hsave⟩
  refine ⟨putAgent reg w, ?_, by simp only [putAgent, hagents]⟩
  exact run_bind_eq_ok_iff.mpr ⟨(), v, hidentity, run_bind_eq_ok_iff.mpr ⟨(), w, hserver, hlast⟩⟩

/-- A stale save commits and puts a status in place that the status machine does not allow. -/
theorem StaleSave.illegal (hstale : StaleSave c s) (hpre : Pre c s) (ambient : Ambient) :
    ∃ a t, c.exec ambient s = .ok (a, t) ∧ ¬ Legal s t := by
  -- in both cases the row under the key is overwritten with the status of the copy
  have hillegal {reg : AgentRegistration} {row : AgentRow} {t : Store} (hrow : (reg.id, row) ∈ s.agents.rows)
      (hagents : t.agents = (putAgent reg s).agents) (hchanges : reg.status ≠ row.status)
      (hbad : reg.status ∉ row.status.validTransitions) : ¬ Legal s t := by
    intro hlegal
    have hrow' : (reg.id, row.overwrite reg) ∈ t.agents.rows := by
      rw [hagents]
      exact mem_putAgent.mpr ⟨row, hrow, by simp⟩
    exact hbad (hlegal reg.id row _ hrow hrow' hchanges)
  cases c with
  | saveAgent reg =>
    obtain ⟨row, hrow, hmoved⟩ := hstale
    have hstatus : reg.status = .pendingValidation := hpre.2.1
    have hguard : saveGuard reg reg.id row = true := by
      rcases hmoved with h | h | h <;> simp [saveGuard, h]
    refine ⟨reg, _, saveAgent_succeeds hrow hguard, ?_⟩
    apply hillegal hrow rfl <;> rw [hstatus] <;> rcases hmoved with h | h | h <;> rw [h] <;> decide
  | commitACME reg identity server =>
    obtain ⟨row, hrow, hmoved⟩ := hstale
    have hstatus : reg.status = .pendingDNS := hpre.2.1
    obtain ⟨own, hown, hagent, _⟩ := hpre.1
    obtain rfl := mem_unique hrow hown
    have hguard : saveGuard reg reg.id row = true := by
      rcases hmoved with h | h <;> simp [saveGuard, h]
    obtain ⟨t, hexec, hagents⟩ := commitACME_succeeds identity server hrow hagent hguard
    refine ⟨(), t, hexec, ?_⟩
    apply hillegal hrow hagents <;> rw [hstatus] <;> rcases hmoved with h | h <;> rw [h] <;> decide
  | _ => exact hstale.elim

/-! ### Every interleaving -/

/-- In every pool that any schedule reaches, with any answers from outside and any failed calls: a step is
legal for every registration if and only if it is not a stale save. -/
theorem step_legal_iff (w : Wiring) {p q : Pool (service w)} {m : Move (service w)}
    (hreached : Reached (service w) p) (hstep : p.step m = some q) :
    Legal p.state q.state ↔ ∀ c, p.callOf m = some c → ¬ StaleSave c p.state := by
  constructor
  · intro hlegal c hcall hstale
    obtain ⟨input, hcommits⟩ := Pool.step_commits hstep hcall
    obtain ⟨a, t, hexec, hillegal⟩ := hstale.illegal ((governs w).pre_of_callOf hreached hcall) input
    rw [hcommits a t hexec] at hlegal
    exact hillegal hlegal
  · intro hfresh
    rcases (governs w).step_state hreached hstep with hsame | ⟨c, ambient, a, hcall, hinv, hpre, hexec⟩
    · rw [hsame]
      intro id row row' hrow hrow' hchanges
      rw [mem_unique hrow hrow'] at hchanges
      exact absurd rfl hchanges
    · exact (effect_of_exec hinv hpre hexec).legal hinv hpre (hfresh c hcall)

/-! ### The race -/

/-- An outside world in which every check passes and every request is granted; new ids are all the same, and
so are the log ids. -/
def grantingWorld (uuid logID : String) : (q : Query) → q.Answer
  | .clock => (1000 : Nat)
  | .uuid => uuid
  | .challengeTokens => .ok ("dns-token", "http-token")
  | .validateIdentityCSR .. | .validateServerCSR .. => .ok ()
  | .validateServerCertificate leafPEM chainPEM fqdn => .ok
      { leafCertificatePEM := leafPEM, chainCertificatesPEM := chainPEM, subjectCommonName := fqdn,
        validToTimestamp := 100000 }
  | .validateEndpoints .. => .ok ()
  | .createOrder .. => .ok none
  | .finalizeOrder _ => .orderPending
  | .issueIdentityCertificate csrPEM _ => .ok { certPEM := csrPEM, serialNumber := "1" }
  | .serialFromCertPEM _ => .ok "1"
  | .revokeCertificate .. => .ok ()
  | .verifyDNSChallenge .. | .verifyHTTPChallenge .. => .ok true
  | .verifyRecords _ => .ok ⟨[], []⟩
  | .sign _ => .ok ⟨"event", "signature"⟩
  | .sealAgentEvent .. => .ok logID
  | .append .. => .accepted logID

def grantingAmbient : Ambient where
  now := 1000
  clock := 1000
  sign := fun _ => .ok ⟨"event", "signature"⟩

/-- A registration with an identity request and a server certificate of its own. -/
def sampleRequest : RegisterRequest where
  ownerID := "alice"
  ansName := ⟨⟨1, 0, 0⟩, "a.example.com"⟩
  displayName := "A"
  endpoints := ["https://a.example.com"]
  identityCSRPEM := "csr"
  serverCertificatePEM := "cert"

/-- Let a thread of the service run in the granting world, as long as its calls are admitted. -/
def advanceWhile (admits : Call → Store → Bool) (p : Pool (service {})) (thread moves : Nat) : Pool (service {}) :=
  p.driveWhile admits thread grantingAmbient (grantingWorld "agent-1" "log-1") moves

/-- Let a thread of the service run in the granting world. -/
def advance : Pool (service {}) → Nat → Nat → Pool (service {}) := advanceWhile fun _ _ => true

theorem advance_reached {p : Pool (service {})} (h : Reached (service {}) p) (thread moves : Nat) :
    Reached (service {}) (advance p thread moves) :=
  h.drive _ _ _ _

/-- One registration has been made. -/
def registeredPool : Pool (service {}) :=
  advance ((Pool.start (service {})).spawn (.registerAgent sampleRequest)) 0 20

theorem registeredPool_reached : Reached (service {}) registeredPool :=
  advance_reached (Reachable.start.spawn _) _ _

/-- A first `VerifyACME` is about to commit; a second one and `VerifyDNS` have run in the meantime. -/
def overtakenPool : Pool (service {}) :=
  let acme := advance (registeredPool.spawn (.verifyACME "agent-1")) 1 8
  let validated := advance (acme.spawn (.verifyACME "agent-1")) 2 20
  advance (validated.spawn (.verifyDNS "agent-1" .v2)) 3 30

theorem overtakenPool_reached : Reached (service {}) overtakenPool := by
  have hacme := advance_reached (registeredPool_reached.spawn (.verifyACME "agent-1")) 1 8
  have hvalidated := advance_reached (hacme.spawn (.verifyACME "agent-1")) 2 20
  exact advance_reached (hvalidated.spawn (.verifyDNS "agent-1" .v2)) 3 30

def statuses (s : Store) : List (Nat × String × RegistrationStatus) :=
  s.agents.rows.map fun row => (row.1, row.2.agentID, row.2.status)

theorem mem_of_statuses {agentID : String} {status : RegistrationStatus} (h : statuses s = [(id, agentID, status)]) :
    ∃ row, (id, row) ∈ s.agents.rows ∧ row.agentID = agentID ∧ row.status = status := by
  have hmem : (id, agentID, status) ∈ statuses s := by
    rw [h]
    exact mem_singleton_self _
  obtain ⟨⟨i, row⟩, hrow, heq⟩ := mem_map.mp hmem
  simp only [Prod.mk.injEq] at heq
  obtain ⟨rfl, rfl, rfl⟩ := heq
  exact ⟨row, hrow, rfl, rfl⟩

set_option maxRecDepth 20000 in
theorem overtakenPool_active : statuses overtakenPool.state = [(1, "agent-1", .active)] := by decide +kernel

set_option maxRecDepth 20000 in
theorem overtakenPool_commit : (overtakenPool.step (.perform 1 grantingAmbient)).map (statuses ·.state) =
    some [(1, "agent-1", .pendingDNS)] := by decide +kernel

/-- Two overlapping `VerifyACME` calls and a `VerifyDNS`: an active registration falls back to waiting for its
records when the slower `VerifyACME` commits. -/
theorem active_falls_back_to_pendingDNS : ∃ (p q : Pool (service {})) (m : Move (service {})),
    Reached (service {}) p ∧ p.step m = some q ∧ ∃ id row row', (id, row) ∈ p.state.agents.rows ∧
      row.status = .active ∧ (id, row') ∈ q.state.agents.rows ∧ row'.status = .pendingDNS ∧
      row'.status ∉ row.status.validTransitions := by
  obtain ⟨q, hstep, hafter⟩ := Option.map_eq_some_iff.mp overtakenPool_commit
  obtain ⟨row, hrow, _, hactive⟩ := mem_of_statuses overtakenPool_active
  obtain ⟨row', hrow', _, hpending⟩ := mem_of_statuses hafter
  refine ⟨overtakenPool, q, _, overtakenPool_reached, hstep, 1, row, row', hrow, hactive, hrow', hpending, ?_⟩
  rw [hactive, hpending]
  decide

/-- The equivalence at the commit that loses the race. -/
theorem step_legal_iff_overtaken : ∃ q, overtakenPool.step (.perform 1 grantingAmbient) = some q ∧
    (Legal overtakenPool.state q.state ↔ ∀ c, overtakenPool.callOf (.perform 1 grantingAmbient) = some c →
      ¬ StaleSave c overtakenPool.state) := by
  obtain ⟨q, hstep, _⟩ := Option.map_eq_some_iff.mp overtakenPool_commit
  exact ⟨q, hstep, step_legal_iff {} overtakenPool_reached hstep⟩

end AgentNameService.Registration
