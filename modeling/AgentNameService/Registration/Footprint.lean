/-
Purpose: Which ports each operation of the service asks and which writes it makes.  What concerns one port or one
  write, such as the certificate authority or the outbox, then only has to be looked at in the few operations
  that reach it.
Source: internal/ra/service, internal/ra/outbox/worker.go
Trusted boundary: none
-/
import AgentNameService.Foundation.History
import AgentNameService.Registration.Service

namespace AgentNameService.Registration

open Interleaving Prog List Interleaving.Prog

/-! ### Ports -/

/-- The ports of the service, by what they are for. -/
inductive Port where
  | clock
  | ids
  | tokens
  | validator
  | orders
  | finalization
  | identityCA
  | revocation
  | probe
  | records
  | signer
  | sealer
  | log
deriving DecidableEq, Repr

def Query.port : Query → Port
  | .clock => .clock
  | .uuid => .ids
  | .challengeTokens => .tokens
  | .validateIdentityCSR .. | .validateServerCSR .. | .validateServerCertificate .. | .validateEndpoints ..
  | .serialFromCertPEM _ => .validator
  | .createOrder .. => .orders
  | .finalizeOrder _ => .finalization
  | .issueIdentityCertificate .. => .identityCA
  | .revokeCertificate .. => .revocation
  | .verifyDNSChallenge .. | .verifyHTTPChallenge .. => .probe
  | .verifyRecords _ => .records
  | .sign _ => .signer
  | .sealAgentEvent .. => .sealer
  | .append .. => .log

/-- A question to one of a list of ports. -/
def Within (ports : List Port) (q : Query) : Prop := ports.contains q.port = true

/-- A read, or one of the given writes. -/
def Among (writes : Call → Bool) : Call → Prop
  | .read _ => True
  | c => writes c = true

/-- No writes. -/
def noWrites : Call → Bool := fun _ => false

namespace Op

/-- The ports an operation asks. -/
def ports : Op → List Port
  | .registerAgent _ => [.clock, .ids, .tokens, .validator, .orders]
  | .verifyACME _ => [.clock, .probe, .finalization, .validator, .identityCA]
  | .verifyDNS .. => [.clock, .records, .signer, .sealer, .validator, .revocation]
  | .revoke .. => [.clock, .validator, .revocation]
  | .submitIdentityCSR .. => [.clock, .ids, .validator, .records, .identityCA]
  | .submitServerCSR .. => [.clock, .ids, .validator]
  | .submitServerCertRenewal .. => [.clock, .ids, .tokens, .validator, .orders]
  | .verifyRenewalACME .. => [.clock, .probe, .records, .finalization, .validator]
  | .deliver _ => [.ids, .log]
  | .cancelServerCertRenewal _ | .expireAgents _ | .expireRenewals _ => []

/-- The writes an operation makes. -/
def writes : Op → Call → Bool
  | .registerAgent _, .register _ => true
  | .verifyACME _, .saveAgent _ | .verifyACME _, .commitACME .. => true
  | .verifyDNS .., .prepareActivationSeal .. | .verifyDNS .., .commitActivation .. => true
  | .revoke .., .sweepCertificates _ | .revoke .., .commitCancellation .. | .revoke .., .commitRevocation .. => true
  | .submitIdentityCSR .., .commitIdentityCSR .. => true
  | .submitServerCSR .., .commitServerCSR .. => true
  | .submitServerCertRenewal .., .submitRenewal .. => true
  | .cancelServerCertRenewal _, .cancelRenewal .. => true
  | .verifyRenewalACME .., .saveRenewal _ | .verifyRenewalACME .., .commitRenewal .. => true
  | .expireAgents _, .expireLapsedPendingValidation _ => true
  | .expireRenewals _, .saveRenewal _ | .expireRenewals _, .saveCSR .. => true
  | .deliver _, .delivery _ => true
  | _, _ => false

end Op

/-! ### Rules for the steps of a program -/

/-- Whatever the answers, the program only makes the given writes and only asks the given ports. -/
def Reaches (writes : Call → Bool) (ports : List Port) {α : Type} (p : Program α) : Prop :=
  Uses (Among writes) (Within ports) (fun _ => True) p

/-- The program makes the writes and asks the ports of an operation, and no others. -/
def Op.Covers (op : Op) {α : Type} (p : Program α) : Prop := Reaches op.writes op.ports p

/-- The program reaches no more than these, and its results are of a kind. -/
def Yields (writes : Call → Bool) (ports : List Port) {α : Type} (R : α → Prop) (p : Program α) : Prop :=
  Uses (Among writes) (Within ports) R p

section

variable {writes : Call → Bool} {ports : List Port} {α β : Type} {G : α → Prop} {R : β → Prop} {p : Program α}
variable {f : α → Program β} {few : List Port} {condition : Prop}

theorem reaches_pure (a : α) : Reaches writes ports (pure a : Program α) := trivial

theorem reaches_fail (e : Error) : Yields writes ports R (failWith e : Program β) := trivial

theorem reaches_bind (hp : Reaches writes ports p)
    (hf : ∀ a, Reaches writes ports (f a)) : Reaches writes ports (p >>= f) :=
  Uses.bind hp fun a _ => hf a

theorem reaches_done {g : α → β} (hp : Reaches writes ports p) : Reaches writes ports (p >>= fun a => pure (g a)) :=
  reaches_bind hp fun _ => reaches_pure _

theorem yields_bind (hp : Yields writes ports G p)
    (hf : ∀ a, G a → Yields writes ports R (f a)) : Yields writes ports R (p >>= f) :=
  Uses.bind hp hf

theorem reaches_find {r : Read} {f : r.Result → Program β} (hf : ∀ a, Yields writes ports R (f a)) :
    Yields writes ports R (find r >>= f) :=
  Uses.perform trivial hf

theorem reaches_tryFind {r : Read} {f : Except Error r.Result → Program β}
    (hf : ∀ a, Yields writes ports R (f a)) : Yields writes ports R (tryFind r >>= f) :=
  Uses.attempt trivial hf

theorem reaches_run {c : Call} (hc : Among writes c) : Reaches writes ports (run c) := by
  refine ⟨hc, ?_⟩
  intro r
  cases r <;> trivial

theorem reaches_attempt {c : Call} {f : Except Error c.Reply → Program β} (hc : Among writes c)
    (hf : ∀ a, Reaches writes ports (f a)) : Reaches writes ports (attempt c >>= f) :=
  Uses.attempt hc hf

theorem reaches_ask {q : Query} {f : q.Answer → Program β} (hq : Within ports q)
    (hf : ∀ a, Yields writes ports R (f a)) : Yields writes ports R (ask q >>= f) :=
  Uses.query hq hf

theorem reaches_orFail {x : Except Error α} (hf : ∀ a, Reaches writes ports (f a)) :
    Reaches writes ports (orFail x >>= f) :=
  Uses.lift fun a _ => hf a

theorem yields_orFail {x : Except Error α} (hf : ∀ a, x = .ok a → Yields writes ports R (f a)) :
    Yields writes ports R (orFail x >>= f) :=
  Uses.lift hf

theorem reaches_check [Decidable condition] {failure : Error} :
    Reaches writes ports (check condition failure) := by
  unfold check Except.require
  split <;> trivial

theorem reaches_checked [Decidable condition] {failure : Error} {f : Unit → Program β}
    (hf : Yields writes ports R (f ())) : Yields writes ports R (check condition failure >>= f) :=
  Uses.lift fun _ _ => hf

theorem reaches_ite [Decidable condition] {p q : Program β} (hp : Yields writes ports R p)
    (hq : Yields writes ports R q) : Yields writes ports R (if condition then p else q) := by
  split
  · exact hp
  · exact hq

theorem reaches_forEach {items : List β} {step : β → Program Unit} (hstep : ∀ b, Reaches writes ports (step b)) :
    Reaches writes ports (forEach items step) :=
  Uses.forEach fun b _ => hstep b

/-- A part that makes some of the writes and asks some of the ports. -/
theorem yields_within {fewWrites : Call → Bool} (hp : Yields fewWrites few G p)
    (hwrites : ∀ c, fewWrites c = true → writes c = true) (hfew : few.all ports.contains = true) :
    Yields writes ports G p := by
  refine Uses.imp hp ?_ ?_ fun _ h => h
  · intro c hc
    cases c with
    | read => trivial
    | _ => exact hwrites _ hc
  · intro q hq
    exact all_eq_true.mp hfew q.port (contains_iff_mem.mp hq)

/-- A part that only reads and asks some of the ports. -/
theorem yields_part (hp : Yields noWrites few G p) (hfew : few.all ports.contains = true) : Yields writes ports G p :=
  yields_within hp (fun _ hc => absurd hc Bool.false_ne_true) hfew

theorem Yields.reaches (hp : Yields writes ports G p) : Reaches writes ports p :=
  Uses.imp hp (fun _ h => h) (fun _ h => h) fun _ _ => trivial

theorem reaches_within {fewWrites : Call → Bool} (hp : Yields fewWrites few G p)
    (hwrites : ∀ c, fewWrites c = true → writes c = true) (hfew : few.all ports.contains = true) :
    Reaches writes ports p :=
  (yields_within hp hwrites hfew).reaches

theorem reaches_part (hp : Yields noWrites few G p) (hfew : few.all ports.contains = true) : Reaches writes ports p :=
  (yields_part hp hfew).reaches

end

/-! ### The parts -/

variable (w : Wiring) (reg : AgentRegistration)

theorem loadServerCert_reaches (agentID : String) : Reaches noWrites [] (loadServerCert agentID) := by
  apply reaches_tryFind
  intro found
  cases found with
  | error e => exact reaches_ite (reaches_pure _) (reaches_fail e)
  | ok cert => exact reaches_pure _

/-- An order that is created has no proof on record. -/
theorem orderWithOwnerProof_yields (code detail : String) (created : Option CertificateOrder) (deadline : Time) :
    Yields noWrites [.tokens] (fun order => order.verifiedChallenge = none)
      (orderWithOwnerProof code detail created deadline) := by
  cases created with
  | none => trivial
  | some created =>
    apply reaches_checked
    apply reaches_ite
    · refine reaches_ask rfl ?_
      intro tokens
      cases tokens with
      | error e => trivial
      | ok tokens => rfl
    · rfl

theorem ensureHostNotTakenByOther_reaches :
    Reaches noWrites [] (ensureHostNotTakenByOther reg) :=
  reaches_find fun _ => reaches_check

theorem preflightRegistrationConflicts_reaches (name : AnsName) (ownerID : String) :
    Reaches noWrites [] (preflightRegistrationConflicts name ownerID) := by
  apply reaches_find
  intro (taken : Bool)
  apply reaches_checked
  exact reaches_find fun _ => reaches_check

theorem resolveIdentityCSR_reaches (req : RegisterRequest) (now : Time) :
    Reaches noWrites [.validator, .ids] (resolveIdentityCSR req now) := by
  apply reaches_ite (reaches_pure _)
  refine reaches_ask rfl ?_
  intro valid
  cases valid with
  | error text => exact reaches_fail _
  | ok _ => exact reaches_ask rfl fun _ => reaches_pure _

theorem resolveServerCertInput_yields (req : RegisterRequest) (now : Time) :
    Yields noWrites [.validator, .tokens, .orders, .ids] (fun input => input.order.verifiedChallenge = none)
      (resolveServerCertInput w req now) := by
  apply reaches_checked
  apply reaches_ite
  · refine reaches_ask rfl ?_
    intro valid
    cases valid with
    | error text => trivial
    | ok cert =>
      refine reaches_ask rfl ?_
      intro tokens
      cases tokens with
      | error e => trivial
      | ok tokens => rfl
  · apply reaches_checked
    refine reaches_ask rfl ?_
    intro valid
    cases valid with
    | error text => trivial
    | ok _ =>
      refine reaches_ask rfl ?_
      intro created
      cases created with
      | error e => trivial
      | ok created =>
        refine yields_bind (yields_part (orderWithOwnerProof_yields _ _ _ _) rfl) ?_
        intro order hunproven
        exact reaches_ask rfl fun _ => hunproven

theorem verifyChallengeArtifact_reaches (fqdn : String) (ch : Challenge) :
    Reaches noWrites [.probe] (verifyChallengeArtifact w fqdn ch) := by
  unfold verifyChallengeArtifact
  cases ch.type with
  | dns01 | http01 => exact reaches_ite ⟨rfl, fun _ => trivial⟩ (reaches_pure _)
  | other text => exact reaches_pure _

theorem firstPublished_reaches (fqdn : String) (challenges : List Challenge)
    (firstErr : Option Error) : Reaches noWrites [.probe] (firstPublished w fqdn challenges firstErr) := by
  induction challenges generalizing firstErr with
  | nil => exact reaches_pure _
  | cons ch rest ih =>
    apply reaches_bind (verifyChallengeArtifact_reaches w fqdn ch)
    intro outcome
    rcases outcome with e | (_ | _)
    · exact ih _
    · exact ih _
    · exact reaches_pure _

theorem verifyChallengeArtifacts_reaches (fqdn : String) (challenges : List Challenge) :
    Reaches noWrites [.probe] (verifyChallengeArtifacts w fqdn challenges) :=
  reaches_ite (reaches_pure _) (reaches_ite (reaches_pure _) (firstPublished_reaches w fqdn _ _))

/-- The gate only touches the order. -/
theorem gateOrderChallenges_yields (now : Time) :
    Yields noWrites [.probe] (fun gated => ∃ order, gated.1 = { reg with certOrder := order })
      (gateOrderChallenges w reg now) := by
  apply reaches_ite (reaches_fail _)
  apply reaches_ite (reaches_fail _)
  refine reaches_ite ⟨reg.certOrder, rfl⟩ ?_
  apply reaches_ite (reaches_fail _)
  apply reaches_ite (reaches_fail _)
  apply reaches_ite (reaches_fail _)
  apply yields_bind (verifyChallengeArtifacts_reaches w _ _)
  intro found _
  rcases found with ⟨_ | type, _ | e⟩
  · trivial
  · trivial
  · exact ⟨_, rfl⟩
  · exact ⟨_, rfl⟩

theorem AgentCSR.markSigned_eq_ok {csr signed : AgentCSR} {now : Time} (h : csr.markSigned now = .ok signed) :
    signed.status = .signed ∧ signed.csrID = csr.csrID := by
  unfold AgentCSR.markSigned at h
  split at h <;> cases h
  exact ⟨rfl, rfl⟩

/-- What is stored answers the request that is signed. -/
theorem signIdentityCSR_yields (csr : AgentCSR) (now : Time) : Yields noWrites [.identityCA]
      (fun issued => issued.1.status = .signed ∧ issued.1.csrID = csr.csrID ∧ issued.2.csrID = csr.csrID)
      (signIdentityCSR reg csr now) := by
  refine reaches_ask rfl ?_
  intro issued
  cases issued with
  | error text => trivial
  | ok cert =>
    apply yields_orFail
    intro signed hsigned
    obtain ⟨hstatus, hid⟩ := AgentCSR.markSigned_eq_ok hsigned
    exact ⟨hstatus, hid, rfl⟩

theorem hydrateServerCert_yields :
    Yields noWrites [] (fun hydrated => ∃ serverCert, hydrated = { reg with serverCert }) (hydrateServerCert reg) := by
  apply reaches_tryFind
  intro found
  cases found with
  | error e => exact ⟨reg.serverCert, rfl⟩
  | ok certs => exact ⟨_, rfl⟩

theorem revokeIdentityCertsAtCA_reaches (certs : List StoredCertificate) (reason : RevocationReason) :
    Reaches noWrites [.validator, .revocation] (revokeIdentityCertsAtCA certs reason) := by
  apply reaches_forEach
  intro cert
  apply reaches_ite _ (reaches_pure ())
  apply reaches_bind
  · apply reaches_ite (reaches_pure _)
    refine reaches_ask rfl ?_
    intro serial
    cases serial with
    | error text => exact reaches_fail _
    | ok serial => exact reaches_pure _
  intro serial
  refine reaches_ask rfl ?_
  intro outcome
  cases outcome with
  | error text => exact reaches_fail _
  | ok _ => exact reaches_pure _

theorem revokeConflictLoserCertsAtCA_reaches (agentHost winnerOwnerID : String) :
    Reaches noWrites [.validator, .revocation] (revokeConflictLoserCertsAtCA agentHost winnerOwnerID) := by
  apply reaches_find
  intro regs
  apply reaches_forEach
  intro r
  apply reaches_ite (reaches_pure ())
  exact reaches_find fun certs => revokeIdentityCertsAtCA_reaches certs _

/-- What is observed of a registration leaves its identity and its order alone. -/
theorem observeRenewalDNS_yields :
    Yields noWrites [.records] (fun observed => ∃ endpoints serverCert, observed.1 = { reg with endpoints, serverCert })
      (observeRenewalDNS w reg) := by
  apply reaches_find
  intro endpoints
  refine yields_bind (reaches_part (loadServerCert_reaches _) rfl) ?_
  intro serverCert _
  apply reaches_ite
  · refine reaches_ask rfl ?_
    intro report
    cases report with
    | error | ok => exact ⟨endpoints, serverCert, rfl⟩
  · exact ⟨endpoints, serverCert, rfl⟩

/-! ### The operations -/

variable (agentID : String)

theorem registerAgent_reaches (req : RegisterRequest) : (Op.registerAgent req).Covers (registerAgent w req) := by
  refine reaches_ask rfl ?_
  intro now
  refine reaches_bind (reaches_part (preflightRegistrationConflicts_reaches _ _) rfl) ?_
  intro _
  refine reaches_bind (reaches_part (resolveIdentityCSR_reaches req now) rfl) ?_
  intro identityCSR
  refine reaches_bind (reaches_part (resolveServerCertInput_yields w req now) rfl) ?_
  intro input
  refine reaches_ask rfl ?_
  intro agentID
  refine reaches_ask rfl ?_
  intro endpointsValid
  exact reaches_orFail fun _ => reaches_run rfl

theorem finalizeServerOrder_reaches (reg : AgentRegistration) (csr : AgentCSR)
    (verified : List ChallengeType) (now : Time) :
    (Op.verifyACME agentID).Covers (finalizeServerOrder w reg csr verified now) := by
  apply reaches_checked
  refine reaches_ask rfl ?_
  intro outcome
  cases outcome with
  | orderPending => exact reaches_orFail fun _ => reaches_pure _
  | orderFailed =>
    apply reaches_orFail
    intro order
    exact reaches_bind (reaches_run rfl) fun _ => reaches_fail _
  | error e => exact reaches_fail _
  | issued cert =>
    refine reaches_ask rfl ?_
    intro valid
    cases valid with
    | error text => exact reaches_fail _
    | ok cert => exact reaches_orFail fun _ => reaches_pure _

theorem finishACME_reaches (reg : AgentRegistration) (server : Option (ByocServerCertificate × AgentCSR)) (now : Time) :
    (Op.verifyACME agentID).Covers (finishACME reg server now) := by
  apply reaches_find
  intro identityCSR
  apply reaches_bind
  · cases identityCSR with
    | none => exact reaches_pure _
    | some csr => exact reaches_done (reaches_part (signIdentityCSR_yields reg csr now) rfl)
  intro identity
  apply reaches_orFail
  intro order
  apply reaches_orFail
  intro advanced
  exact reaches_done (reaches_run rfl)

theorem verifyACME_reaches : (Op.verifyACME agentID).Covers (verifyACME w agentID) := by
  refine reaches_ask rfl ?_
  intro now
  apply reaches_find
  intro reg
  refine reaches_bind (reaches_part (ensureHostNotTakenByOther_reaches reg) rfl) ?_
  intro _
  apply reaches_ite (reaches_pure _)
  apply reaches_find
  intro endpoints
  refine reaches_bind (reaches_part (gateOrderChallenges_yields w _ now) rfl) ?_
  intro gated
  apply reaches_find
  intro serverCSR
  cases serverCSR with
  | none => exact reaches_done (finishACME_reaches agentID _ _ now)
  | some csr =>
    apply reaches_ite
    · apply reaches_bind (finalizeServerOrder_reaches w agentID _ csr _ now)
      intro outcome
      cases outcome with
      | pending order => exact reaches_done (reaches_run rfl)
      | issued cert signed => exact reaches_done (finishACME_reaches agentID _ _ now)
    · exact reaches_done (finishACME_reaches agentID _ _ now)

/-- The election of the activation evidence. -/
def electsEvidence : Call → Bool
  | .prepareActivationSeal .. => true
  | _ => false

theorem sealActivationEvent_reaches (reg : AgentRegistration) (attested : List String) (lane : Lane)
    (now : Time) : Reaches electsEvidence [.signer, .sealer] (sealActivationEvent w reg attested lane now) := by
  apply reaches_checked
  apply reaches_bind
  · apply reaches_find
    intro prepared
    cases prepared with
    | some evidence => exact reaches_pure _
    | none =>
      apply reaches_find
      intro identityCerts
      apply reaches_find
      intro serverCerts
      refine reaches_ask rfl ?_
      intro signed
      cases signed with
      | error e => exact reaches_fail e
      | ok candidate => exact reaches_run rfl
  intro prepared
  cases prepared with
  | none => exact reaches_fail _
  | some evidence =>
    apply reaches_checked
    apply reaches_checked
    refine reaches_ask rfl ?_
    intro outcome
    cases outcome with
    | error e => exact reaches_fail e
    | ok logID => exact reaches_pure _

theorem verifyDNS_reaches (lane : Lane) : (Op.verifyDNS agentID lane).Covers (verifyDNS w agentID lane) := by
  refine reaches_ask rfl ?_
  intro now
  apply reaches_find
  intro reg
  refine reaches_bind (reaches_part (ensureHostNotTakenByOther_reaches reg) rfl) ?_
  intro _
  apply reaches_ite (reaches_pure _)
  apply reaches_checked
  apply reaches_find
  intro endpoints
  refine reaches_bind (reaches_part (loadServerCert_reaches agentID) rfl) ?_
  intro serverCert
  refine reaches_ask rfl ?_
  intro report
  cases report with
  | error e => exact reaches_fail _
  | ok report =>
    apply reaches_ite (reaches_pure _)
    apply reaches_orFail
    intro activated
    refine reaches_bind (reaches_within (sealActivationEvent_reaches w activated _ lane now) ?_ rfl) ?_
    · intro c hc
      cases c <;> trivial
    intro sealed
    refine reaches_bind (reaches_part (revokeConflictLoserCertsAtCA_reaches _ _) rfl) ?_
    intro _
    exact reaches_done (reaches_run rfl)

theorem revoke_reaches (reason : RevocationReason) (lane : Lane) :
    (Op.revoke agentID reason lane).Covers (revoke agentID reason lane) := by
  refine reaches_ask rfl ?_
  intro now
  apply reaches_find
  intro reg
  apply reaches_tryFind
  intro endpoints
  apply reaches_bind (reaches_part (hydrateServerCert_yields _) rfl)
  intro reg
  apply reaches_ite
  · apply reaches_bind
    · apply reaches_find
      intro certs
      apply reaches_ite _ (reaches_pure ())
      exact reaches_bind (reaches_part (revokeIdentityCertsAtCA_reaches certs _) rfl) fun _ => reaches_run rfl
    intro _
    exact reaches_pure reg
  · apply reaches_ite
    · apply reaches_checked
      apply reaches_orFail
      intro cancelled
      apply reaches_find
      intro certs
      refine reaches_bind (reaches_part (revokeIdentityCertsAtCA_reaches certs reason) rfl) ?_
      intro _
      exact reaches_done (reaches_run rfl)
    · apply reaches_orFail
      intro _
      apply reaches_find
      intro certs
      exact reaches_bind (reaches_part (revokeIdentityCertsAtCA_reaches certs reason) rfl) fun _ => reaches_run rfl

theorem submitIdentityCSR_reaches (agentID csrPEM : String) (lane : Lane) :
    (Op.submitIdentityCSR agentID csrPEM lane).Covers (submitIdentityCSR w agentID csrPEM lane) := by
  refine reaches_ask rfl ?_
  intro now
  apply reaches_find
  intro reg
  apply reaches_checked
  apply reaches_find
  intro (idCerts : List StoredCertificate)
  apply reaches_checked
  refine reaches_ask rfl ?_
  intro valid
  cases valid with
  | error text => exact reaches_fail _
  | ok _ =>
    refine reaches_ask rfl ?_
    intro csrID
    apply reaches_orFail
    intro csr
    refine reaches_bind (reaches_part (observeRenewalDNS_yields w reg) rfl) ?_
    intro observed
    refine reaches_bind (reaches_part (signIdentityCSR_yields observed.1 csr now) rfl) ?_
    intro signed
    exact reaches_done (reaches_run rfl)

theorem submitServerCSR_reaches (agentID csrPEM : String) :
    (Op.submitServerCSR agentID csrPEM).Covers (submitServerCSR agentID csrPEM) := by
  refine reaches_ask rfl ?_
  intro now
  apply reaches_find
  intro reg
  refine reaches_ask rfl ?_
  intro valid
  cases valid with
  | error text => exact reaches_fail _
  | ok _ =>
    refine reaches_ask rfl ?_
    intro csrID
    exact reaches_done (reaches_run rfl)

/-- A renewal that is prepared is new, open and not verified. -/
theorem prepareRenewal_yields (reg : AgentRegistration) (input : SubmitRenewalInput) (now : Time) :
    Yields noWrites [.validator, .orders, .tokens, .ids] (fun prepared => prepared.2.id = 0 ∧
      prepared.2.agentID = reg.agentID ∧ prepared.2.completedAt = none ∧ prepared.2.failureReason = "" ∧
      prepared.2.validation.status ≠ .verified) (prepareRenewal w reg input now) := by
  apply reaches_ite
  · refine reaches_ask rfl ?_
    intro valid
    cases valid with
    | error text => trivial
    | ok _ =>
      apply reaches_checked
      refine reaches_ask rfl ?_
      intro created
      cases created with
      | error e => trivial
      | ok created =>
        refine yields_bind (yields_part (orderWithOwnerProof_yields _ _ _ _) rfl) ?_
        intro order _
        exact reaches_ask rfl fun _ => ⟨rfl, rfl, rfl, rfl, nofun⟩
  · refine reaches_ask rfl ?_
    intro valid
    cases valid with
    | error text => trivial
    | ok _ =>
      refine reaches_ask rfl ?_
      intro tokens
      cases tokens with
      | error e => trivial
      | ok tokens => exact ⟨rfl, rfl, rfl, rfl, nofun⟩

theorem submitServerCertRenewal_reaches (input : SubmitRenewalInput) :
    (Op.submitServerCertRenewal agentID input).Covers (submitServerCertRenewal w agentID input) := by
  refine reaches_ask rfl ?_
  intro now
  apply reaches_find
  intro reg
  apply reaches_checked
  apply reaches_tryFind
  intro pending
  cases pending with
  | ok r => exact reaches_fail _
  | error e =>
    apply reaches_checked
    apply reaches_checked
    refine reaches_bind (reaches_part (prepareRenewal_yields w reg input now) rfl) ?_
    intro prepared
    exact reaches_done (reaches_run rfl)

theorem commitCertificateRenewal_reaches (reg : AgentRegistration) (r : ServerCertificateRenewal)
    (cert : ByocServerCertificate) (signed : Option AgentCSR) (dnsRecords : List String) (lane : Lane) (now : Time) :
    (Op.verifyRenewalACME agentID lane).Covers (commitCertificateRenewal reg r cert signed dnsRecords lane now) := by
  apply reaches_orFail
  intro completed
  exact reaches_done (reaches_run rfl)

theorem finalizeCSRRenewal_reaches (r : ServerCertificateRenewal)
    (verified : List ChallengeType) (lane : Lane) (now : Time) :
    (Op.verifyRenewalACME agentID lane).Covers (finalizeCSRRenewal w agentID r verified lane now) := by
  apply reaches_checked
  apply reaches_find
  intro csr
  apply reaches_find
  intro reg
  refine reaches_bind (reaches_part (observeRenewalDNS_yields w reg) rfl) ?_
  intro observed
  refine reaches_ask rfl ?_
  intro outcome
  cases outcome with
  | orderPending => exact reaches_done (reaches_run rfl)
  | orderFailed =>
    apply reaches_orFail
    intro failed
    exact reaches_bind (reaches_run rfl) fun _ => reaches_fail _
  | error e => exact reaches_fail _
  | issued issued =>
    refine reaches_ask rfl ?_
    intro valid
    cases valid with
    | error text => exact reaches_fail _
    | ok cert =>
      apply reaches_orFail
      intro signed
      exact reaches_done (commitCertificateRenewal_reaches agentID _ _ _ _ _ _ _)

theorem finalizeBYOCRenewal_reaches (reg : AgentRegistration)
    (r : ServerCertificateRenewal) (lane : Lane) (now : Time) :
    (Op.verifyRenewalACME agentID lane).Covers (finalizeBYOCRenewal w reg r lane now) := by
  refine reaches_bind (reaches_part (observeRenewalDNS_yields w reg) rfl) ?_
  intro observed
  refine reaches_ask rfl ?_
  intro valid
  cases valid with
  | error text => exact reaches_fail _
  | ok cert => exact reaches_done (commitCertificateRenewal_reaches agentID _ _ _ _ _ _ _)

theorem verifyRenewalACME_reaches (lane : Lane) :
    (Op.verifyRenewalACME agentID lane).Covers (verifyRenewalACME w agentID lane) := by
  refine reaches_ask rfl ?_
  intro now
  apply reaches_find
  intro r
  apply reaches_checked
  apply reaches_ite
  · apply reaches_checked
    exact finalizeCSRRenewal_reaches w agentID r [] lane now
  · apply reaches_find
    intro reg
    apply reaches_checked
    refine reaches_bind (reaches_part (verifyChallengeArtifacts_reaches w _ _) rfl) ?_
    intro found
    rcases found with ⟨_ | type, _ | e⟩
    · exact reaches_fail _
    · exact reaches_fail _
    all_goals
      apply reaches_orFail
      intro validation
      split
      · exact finalizeBYOCRenewal_reaches w agentID _ _ lane now
      · exact finalizeCSRRenewal_reaches w agentID _ _ lane now

/-- The rejection of a single request. -/
def savesCSR : Call → Bool
  | .saveCSR .. => true
  | _ => false

theorem rejectExpiredCSR_reaches (r : ServerCertificateRenewal) (now : Time) :
    Reaches savesCSR [] (rejectExpiredCSR r now) := by
  apply reaches_ite _ (reaches_pure ())
  apply reaches_tryFind
  intro found
  cases found with
  | error e => exact reaches_pure ()
  | ok csr =>
    dsimp only
    split
    · exact reaches_pure ()
    · exact reaches_attempt rfl fun _ => reaches_pure ()

theorem expireRenewalsOnce_reaches (now : Time) : (Op.expireRenewals now).Covers (expireRenewalsOnce now) := by
  apply reaches_find
  intro expired
  apply reaches_bind _ fun _ => reaches_pure _
  apply reaches_forEach
  intro r
  dsimp only
  split
  · exact reaches_pure ()
  · refine reaches_bind (reaches_run rfl) ?_
    intro _
    apply reaches_within (rejectExpiredCSR_reaches _ now)
    · intro c hc
      cases c <;> first | rfl | exact absurd hc Bool.false_ne_true
    · rfl

theorem process_reaches (batchSize id : Nat) (row : OutboxRow) (token : String) :
    (Op.deliver batchSize).Covers (process id row token) := by
  have hfailure (reason : String) (permanent : Bool) :
      (Op.deliver batchSize).Covers (recordFailure id row token reason permanent) :=
    reaches_attempt rfl fun _ => reaches_pure ()
  have hreject (reason : String) (park : Bool) :
      (Op.deliver batchSize).Covers (reject id row token reason park) :=
    reaches_ite (hfailure _ _) (reaches_attempt rfl fun _ => reaches_pure ())
  apply reaches_ite (hreject _ _)
  refine reaches_ask rfl ?_
  intro outcome
  cases outcome with
  | permanent text => exact hreject _ _
  | transient text => exact hfailure _ _
  | accepted logID => exact reaches_ite (hfailure _ _) (reaches_attempt rfl fun _ => reaches_pure ())

theorem deliver_reaches (batchSize : Nat) : (Op.deliver batchSize).Covers (deliver batchSize) := by
  apply reaches_tryFind
  intro found
  cases found with
  | error e => exact reaches_pure ()
  | ok events =>
    apply reaches_forEach
    intro ev
    refine reaches_ask rfl ?_
    intro token
    refine reaches_attempt rfl ?_
    intro acquired
    rcases acquired with e | (_ | _)
    · exact reaches_pure ()
    · exact reaches_pure ()
    · exact process_reaches batchSize ev.1 ev.2 token

/-- Every operation only makes its writes and only asks its ports. -/
theorem program_reaches (op : Op) : op.Covers (op.program w) := by
  cases op with
  | registerAgent req => exact reaches_done (registerAgent_reaches w req)
  | verifyACME agentID => exact reaches_done (verifyACME_reaches w agentID)
  | verifyDNS agentID lane => exact reaches_done (verifyDNS_reaches w agentID lane)
  | revoke agentID reason lane => exact reaches_done (revoke_reaches agentID reason lane)
  | submitIdentityCSR agentID csrPEM lane =>
    exact reaches_done (submitIdentityCSR_reaches w agentID csrPEM lane)
  | submitServerCSR agentID csrPEM =>
    exact reaches_done (submitServerCSR_reaches agentID csrPEM)
  | submitServerCertRenewal agentID input =>
    exact reaches_done (submitServerCertRenewal_reaches w agentID input)
  | cancelServerCertRenewal agentID =>
    exact reaches_done (reaches_find fun _ => reaches_run rfl)
  | verifyRenewalACME agentID lane =>
    exact reaches_done (verifyRenewalACME_reaches w agentID lane)
  | expireAgents now => exact reaches_done (reaches_run rfl)
  | expireRenewals now => exact reaches_done (expireRenewalsOnce_reaches now)
  | deliver batchSize => exact reaches_done (deliver_reaches batchSize)

end AgentNameService.Registration
