/-
Purpose: No certificate before a proof of domain control.  Whatever the certificate provider answers and however
  the calls interleave, an order is finalized and an identity certificate is signed only after one of the
  challenges stored for the registration or the renewal was confirmed for its host, in the call itself or in an
  earlier call that stored its success.
Source: internal/ra/service/{lifecycle,renewal,order_proof}.go
Trusted boundary: none
-/
import AgentNameService.Registration.Lifecycle
import AgentNameService.Registration.OwnerProof

namespace AgentNameService.Registration

open Interleaving Interleaving.Prog Store List Except Table

/-! ### Steps that need nothing -/

/-- The calls that write orders, renewals or certificates. -/
def Call.guarded : Call → Bool
  | .register _ | .saveAgent _ | .commitACME .. | .commitActivation .. | .commitCancellation ..
  | .commitIdentityCSR .. | .saveRenewal _ | .commitRenewal .. | .submitRenewal .. => true
  | _ => false

/-- The ports that issue certificates. -/
def Port.issues : Port → Bool
  | .finalization | .identityCA => true
  | _ => false

section

variable {w : Wiring} {i : Nat} {op : Op} {scene : Scene (service w)} {α β : Type}
  {Q : β → Scene (service w) → Prop}
variable {now : Time}

theorem callsProven_of_unguarded {c : Call} (h : c.guarded = false) : CallsProven i op c scene := by
  cases c <;> trivial

theorem asksProven_of_port {q : Query} (h : q.port.issues = false) : AsksProven i op q scene := by
  unfold AsksProven
  split <;> trivial

/-- A program that writes no orders, renewals or certificates and asks for no certificate. -/
theorem heeds_unguarded {writes : Call → Bool} {ports : List Port} {R : α → Prop} {p : Program α}
    (h : Yields writes ports R p) (hwrites : ∀ c, writes c = true → c.guarded = false)
    (hports : ports.any Port.issues = false) : p.Heeds (proofWatch w) i op (fun a _ => R a) scene := by
  apply heeds_yields h
  · intro c hc t _ _
    apply callsProven_of_unguarded
    cases c <;> first | rfl | exact hwrites _ hc
  · intro q hq t _
    apply asksProven_of_port
    rw [Within, contains_iff_mem] at hq
    exact Bool.eq_false_iff.mpr (any_eq_false.mp hports _ hq)

/-- A part that writes nothing. -/
theorem heeds_part {ports : List Port} {R : α → Prop} {p : Program α} (h : Yields noWrites ports R p)
    (hports : ports.any Port.issues = false) : p.Heeds (proofWatch w) i op (fun a _ => R a) scene :=
  heeds_unguarded h (fun _ hc => absurd hc Bool.false_ne_true) hports

/-- A question that asks for no certificate. -/
theorem heeds_askOther {q : Query} {f : q.Answer → Program β} (hport : q.port.issues = false)
    (h : ∀ t a, ProofRely scene t → (f a).Heeds (proofWatch w) i op Q t) :
    (ask q >>= f).Heeds (proofWatch w) i op Q scene := by
  refine heeds_ask (fun _ _ _ _ => asksProven_of_port hport) ?_
  intro t a hst _ htu
  exact h _ a (hst.trans htu)

/-! ### Challenges -/

/-- What a confirmed challenge leaves in the history. -/
def ArtifactFound (i : Nat) (op : Op) (fqdn : String) (challenges : List Challenge) (type : ChallengeType)
    (s : Scene (service w)) : Prop :=
  type.isValid = true ∧ ∃ ch ∈ challenges, ∃ probe, ch.probe fqdn = some probe ∧ ConfirmedBy i op probe s.history

theorem verifyChallengeArtifact_heeds (fqdn : String) (ch : Challenge) :
    (verifyChallengeArtifact w fqdn ch).Heeds (proofWatch w) i op
      (fun outcome t => outcome = .ok true → ArtifactFound i op fqdn [ch] ch.type t) scene := by
  unfold verifyChallengeArtifact
  have hentry {t : Scene (service w)} {entry : Entry (service w)} {probe : Probe}
      (hconfirms : confirmation entry = some (i, op, probe)) :
      ConfirmedBy i op probe (t.after t.state entry).history :=
    ⟨entry, mem_append_right _ (mem_singleton_self entry), hconfirms⟩
  cases htype : ch.type with
  | dns01 | http01 =>
    apply heeds_ite
    · intro _ t _ _ _
      refine ⟨asksProven_of_port rfl, ?_⟩
      rintro answer rfl
      exact ⟨rfl, ch, mem_singleton_self ch, _, by simp only [Challenge.probe, htype], hentry rfl⟩
    · intro _ hfalse
      cases hfalse
  | other text =>
    intro hfalse
    cases hfalse

theorem firstPublished_heeds (fqdn : String) (challenges : List Challenge) (firstErr : Option Error) :
    (firstPublished w fqdn challenges firstErr).Heeds (proofWatch w) i op
      (fun found t => ∀ type, found.1 = some type → ArtifactFound i op fqdn challenges type t) scene := by
  induction challenges generalizing firstErr scene with
  | nil =>
    intro type hfound
    cases hfound
  | cons ch rest ih =>
    have hrest {t : Scene (service w)} (firstErr : Option Error) :
        (firstPublished w fqdn rest firstErr).Heeds (proofWatch w) i op
          (fun found t => ∀ type, found.1 = some type → ArtifactFound i op fqdn (ch :: rest) type t) t := by
      apply (ih firstErr).mono
      intro found u _ hpublished type hfound
      obtain ⟨hvalid, ch', hch', hprobe⟩ := hpublished type hfound
      exact ⟨hvalid, ch', mem_cons_of_mem ch hch', hprobe⟩
    apply Heeds.bind (verifyChallengeArtifact_heeds fqdn ch)
    intro outcome t _ hpublished
    rcases outcome with e | (_ | _)
    · exact hrest _
    · exact hrest _
    · intro type hfound
      cases hfound
      obtain ⟨hvalid, ch', hch', hprobe⟩ := hpublished rfl
      obtain rfl := mem_singleton.mp hch'
      exact ⟨hvalid, ch', mem_cons_self, hprobe⟩

theorem verifyChallengeArtifacts_heeds (fqdn : String) (challenges : List Challenge) :
    (verifyChallengeArtifacts w fqdn challenges).Heeds (proofWatch w) i op
      (fun found t => ∀ type, found.1 = some type → ArtifactFound i op fqdn challenges type t) scene := by
  apply heeds_ite
  · intro _ type hfound
    cases hfound
  intro _
  apply heeds_ite
  · intro _ type hfound
    cases hfound
  intro _
  exact firstPublished_heeds fqdn challenges none

/-- What the gate leaves: the same order, with a proof on it that the history shows. -/
structure Gated (i : Nat) (op : Op) (reg gated : AgentRegistration) (s : Scene (service w)) : Prop where
  id : gated.id = reg.id
  same : SameOrder (.ofDomain reg) (.ofDomain gated)
  verified : gated.certOrder.hasVerifiedChallenge = true
  backed : OrderBacked i op (.ofDomain gated) s.history

theorem gateOrderChallenges_heeds {reg : AgentRegistration}
    (hproven : reg.certOrder.hasVerifiedChallenge = true → OrderProven (.ofDomain reg) scene.history) :
    (gateOrderChallenges w reg now).Heeds (proofWatch w) i op (fun gated t => Gated i op reg gated.1 t) scene := by
  refine heeds_ite (fun _ => trivial) ?_
  intro _
  refine heeds_ite (fun _ => trivial) ?_
  intro _
  apply heeds_ite
  · -- an order that is being issued after a recorded proof
    rintro ⟨_, hverified⟩
    exact ⟨rfl, .refl _, hverified, (hproven hverified).backed⟩
  intro _
  refine heeds_ite (fun _ => trivial) ?_
  intro _
  refine heeds_ite (fun _ => trivial) ?_
  intro _
  refine heeds_ite (fun _ => trivial) ?_
  intro _
  apply Heeds.bind (verifyChallengeArtifacts_heeds _ _)
  rintro ⟨found, failure⟩ t _ hpublished
  cases found with
  | none => cases failure <;> trivial
  | some type =>
    obtain ⟨hvalid, ch, hch, probe, hprobe, hconfirmed⟩ := hpublished type rfl
    refine ⟨rfl, ⟨rfl, rfl, rfl, rfl⟩, hvalid, ch, hch, probe, hprobe, .inl hconfirmed⟩

/-! ### Copies of registrations -/

/-- What an operation knows of a registration that it has read. -/
structure Held (agentID : String) (reg : AgentRegistration) (s : Scene (service w)) : Prop where
  agentID : reg.agentID = agentID
  copies : Copies reg s.state
  proven : reg.certOrder.hasVerifiedChallenge = true → OrderProven (.ofDomain reg) s.history

/-- What an operation knows of a registration that has passed the gate. -/
structure Passed (i : Nat) (op : Op) (reg : AgentRegistration) (s : Scene (service w)) : Prop where
  copies : Copies reg s.state
  verified : reg.certOrder.hasVerifiedChallenge = true
  backed : OrderBacked i op (.ofDomain reg) s.history

variable {s t : Scene (service w)} {agentID : String} {reg reg' : AgentRegistration}

theorem Copies.congr {state : Store} (h : Copies reg state) (hid : reg'.id = reg.id)
    (hsame : SameOrder (.ofDomain reg) (.ofDomain reg')) : Copies reg' state := by
  obtain ⟨row, hrow, hcopy⟩ := h
  exact ⟨row, hid ▸ hrow, hcopy.trans hsame⟩

theorem Held.congr (h : Held agentID reg s) (hid : reg'.id = reg.id)
    (hsame : SameOrder (.ofDomain reg) (.ofDomain reg'))
    (hverified : reg'.certOrder.verifiedChallenge = reg.certOrder.verifiedChallenge) : Held agentID reg' s := by
  refine ⟨hsame.agentID.trans h.agentID, h.copies.congr hid hsame, ?_⟩
  intro hproven
  rw [CertificateOrder.hasVerifiedChallenge, hverified] at hproven
  exact (h.proven hproven).congr hsame

theorem Held.rely (hrely : ProofRely s t) (h : Held agentID reg s) : Held agentID reg t :=
  ⟨h.agentID, h.copies.rely hrely, fun hverified => Proven.mono hrely.history (h.proven hverified)⟩

theorem Passed.rely (hrely : ProofRely s t) (h : Passed i op reg s) : Passed i op reg t :=
  ⟨h.copies.rely hrely, h.verified, Backed.mono hrely.history h.backed⟩

/-- Changes that leave the order's reference, challenges and proof alone. -/
theorem Passed.congr (h : Passed i op reg s) (hid : reg'.id = reg.id)
    (hsame : SameOrder (.ofDomain reg) (.ofDomain reg'))
    (hverified : reg'.certOrder.verifiedChallenge = reg.certOrder.verifiedChallenge) : Passed i op reg' s := by
  refine ⟨h.copies.congr hid hsame, ?_, h.backed.congr hsame⟩
  rw [CertificateOrder.hasVerifiedChallenge, hverified]
  exact h.verified

/-- A registration that has just been read. -/
theorem heeds_load {f : AgentRegistration → Program β}
    (h : ∀ t reg, ProofRely scene t → Held agentID reg t → (f reg).Heeds (proofWatch w) i op Q t) :
    (find (.findByAgentID agentID) >>= f).Heeds (proofWatch w) i op Q scene := by
  refine heeds_findEntered (fun _ => trivial) ?_
  intro t _ reg hst _ hinv hexec htu
  obtain ⟨_, row, hrow, hdomain, hagent⟩ := findByAgentID_stored hexec
  have hcopy : SameOrder row (.ofDomain reg) := by
    rw [← hdomain]
    exact ⟨rfl, rfl, rfl, rfl⟩
  have horder : reg.certOrder = row.certOrder := by
    rw [← hdomain]
    rfl
  have hheld : Held agentID reg t := by
    refine ⟨hcopy.agentID.trans hagent, ⟨row, hrow, hcopy⟩, ?_⟩
    intro hverified
    rw [horder] at hverified
    exact (hinv.orders _ row hrow hverified).congr hcopy
  exact h _ reg (hst.trans htu) (hheld.rely htu)

/-! ### VerifyACME -/

theorem finalizeServerOrder_heeds {csr : AgentCSR} {verified : List ChallengeType}
    (hagent : reg.agentID = agentID) (hpassed : Passed i (.verifyACME agentID) reg scene) :
    (finalizeServerOrder w reg csr verified now).Heeds (proofWatch w) i (.verifyACME agentID)
      (fun outcome _ => ∀ order, outcome = .pending order → reg.certOrder.markIssuing = .ok order) scene := by
  apply heeds_check
  intro _
  apply heeds_ask
  · intro t hst _ _
    obtain ⟨⟨row, hrow, hcopy⟩, _, hbacked⟩ := hpassed.rely hst
    exact ⟨reg.id, row, hrow, hcopy.agentID.symm.trans hagent, hcopy.orderRef, congrArg AnsName.fqdn hcopy.ansName,
      hbacked.congr hcopy.symm⟩
  intro t outcome hst _ htu
  have hpassed := hpassed.rely (hst.trans htu)
  cases outcome with
  | orderPending =>
    apply heeds_orFail
    rintro order hissuing _ ⟨⟩
    exact hissuing
  | orderFailed =>
    apply heeds_orFail
    intro order hfailed
    obtain rfl := CertificateOrder.eq_of_close hfailed
    have hsaved : Passed i (.verifyACME agentID)
        { reg with certOrder := { reg.certOrder with state := .failed } } _ :=
      hpassed.congr rfl ⟨rfl, rfl, rfl, rfl⟩ rfl
    apply heeds_run
    · intro u hu _ _ _
      obtain ⟨hcopies, hverified, hbacked⟩ := hsaved.rely hu
      exact ⟨hcopies, hverified, hbacked⟩
    · intros
      trivial
  | error e => trivial
  | issued cert =>
    apply heeds_askOther rfl
    intro u answer _
    cases answer with
    | error text => trivial
    | ok cert =>
      apply heeds_orFail
      intro signed _ order hpending
      cases hpending

theorem signIdentityCSR_heeds {csr : AgentCSR}
    (hasks : ∀ t, ProofRely scene t → AsksProven i op (.issueIdentityCertificate csr.csrContent reg.ansName.text) t) :
    (signIdentityCSR reg csr now).Heeds (proofWatch w) i op (fun _ _ => True) scene := by
  apply heeds_ask
  · intro t hst _ _
    exact hasks t hst
  intro t issued _ _ _
  cases issued with
  | error text => trivial
  | ok cert =>
    apply heeds_orFail
    intros
    trivial

theorem finishACME_heeds {server : Option (ByocServerCertificate × AgentCSR)}
    (hagent : reg.agentID = agentID) (hpassed : Passed i (.verifyACME agentID) reg scene) :
    (finishACME reg server now).Heeds (proofWatch w) i (.verifyACME agentID) (fun _ _ => True) scene := by
  apply heeds_find (fun _ => trivial)
  intro t _ csr hst _ _
  have hsigns : (signPending reg csr now).Heeds (proofWatch w) i (.verifyACME agentID) (fun _ _ => True) t := by
    cases csr with
    | none => trivial
    | some csr =>
      refine Heeds.bind (signIdentityCSR_heeds ?_) (fun _ _ _ _ => trivial)
      intro u htu
      obtain ⟨⟨row, hrow, hcopy⟩, _, hbacked⟩ := hpassed.rely (hst.trans htu)
      exact ⟨reg.id, row, hrow, hcopy.agentID.symm.trans hagent, hbacked.congr hcopy.symm⟩
  apply Heeds.bind hsigns
  intro identity u htu _
  apply heeds_orFail
  intro order horder
  have hkept : order.orderRef = reg.certOrder.orderRef ∧ order.challenges = reg.certOrder.challenges ∧
      order.verifiedChallenge = reg.certOrder.verifiedChallenge := by
    split at horder
    · cases horder
      exact ⟨rfl, rfl, rfl⟩
    · rw [CertificateOrder.eq_of_close horder]
      exact ⟨rfl, rfl, rfl⟩
  apply heeds_orFail
  intro advanced hadvanced
  obtain ⟨_, rfl⟩ := AgentRegistration.transitionTo_eq_ok_iff.mp hadvanced
  have hsaved : Passed i (.verifyACME agentID) { reg with
      identityCSR := (identity.map Prod.fst).or reg.identityCSR, certOrder := order, status := .pendingDNS } u :=
    (hpassed.rely (hst.trans htu)).congr rfl ⟨rfl, rfl, hkept.1, hkept.2.1⟩ hkept.2.2
  apply heeds_run
  · intro v huv _ _ _
    obtain ⟨hcopies, hverified, hbacked⟩ := hsaved.rely huv
    exact ⟨hcopies, hverified, hbacked⟩
  · intros
    trivial

theorem verifyACME_heeds :
    (verifyACME w agentID).Heeds (proofWatch w) i (.verifyACME agentID) (fun _ _ => True) scene := by
  refine heeds_askOther rfl ?_
  intro t now _
  apply heeds_load
  intro t' reg _ hheld
  apply Heeds.bind (heeds_part (ensureHostNotTakenByOther_reaches reg) rfl)
  intro _ u htu _
  refine heeds_ite (fun _ => trivial) ?_
  intro _
  apply heeds_find (fun _ => trivial)
  intro u' _ endpoints huu _ _
  have hheld : Held agentID { reg with endpoints } u' :=
    (hheld.rely (htu.trans huu)).congr rfl ⟨rfl, rfl, rfl, rfl⟩ rfl
  apply Heeds.bind (gateOrderChallenges_heeds hheld.proven)
  rintro ⟨gated, verified⟩ v huv hgated
  have hagent : gated.agentID = agentID := hgated.same.agentID.trans hheld.agentID
  have hpassed : Passed i (.verifyACME agentID) gated v :=
    ⟨(hheld.copies.rely huv).congr hgated.id hgated.same,
      hgated.verified, hgated.backed⟩
  have hfinish {x : Scene (service w)} (server : Option (ByocServerCertificate × AgentCSR)) (reg' : AgentRegistration)
      (hagent' : reg'.agentID = agentID) (hpassed' : Passed i (.verifyACME agentID) reg' x) :
      (finishACME reg' server now >>= fun advanced => pure (advanced, false)).Heeds (proofWatch w) i
        (.verifyACME agentID) (fun _ _ => True) x :=
    Heeds.bind (finishACME_heeds hagent' hpassed') fun _ _ _ _ => trivial
  apply heeds_find (fun _ => trivial)
  intro v' _ serverCSR hvv _ _
  have hpassed := hpassed.rely hvv
  cases serverCSR with
  | none => exact hfinish none gated hagent hpassed
  | some csr =>
    apply heeds_ite
    · intro _
      apply Heeds.bind (finalizeServerOrder_heeds hagent hpassed)
      intro outcome x hvx hpending
      have hpassed := hpassed.rely hvx
      cases outcome with
      | pending order =>
        obtain rfl := CertificateOrder.eq_of_markIssuing (hpending order rfl)
        have hsaved : Passed i (.verifyACME agentID)
            { gated with certOrder := { gated.certOrder with state := .issuing } } x :=
          hpassed.congr rfl ⟨rfl, rfl, rfl, rfl⟩ rfl
        apply heeds_run
        · intro y hxy _ _ _
          obtain ⟨hcopies, hverified, hbacked⟩ := hsaved.rely hxy
          exact ⟨hcopies, hverified, hbacked⟩
        · intros
          trivial
      | issued cert signed =>
        exact hfinish _ _ hagent (hpassed.congr rfl ⟨rfl, rfl, rfl, rfl⟩ rfl)
    · intro _
      exact hfinish none gated hagent hpassed

/-! ### The other operations on registrations -/

/-- A certificate that was found for an agent is stored for it. -/
theorem agentProven_of_certificate {certs : List StoredCertificate} {cert : StoredCertificate}
    (hinv : ProofInv s) (hexec : (Read.findIdentityCertificatesByAgent agentID).exec now s.state = .ok (certs, s.state))
    (hcert : cert ∈ certs) : AgentProven agentID s := by
  have hcerts : certs = s.state.certificatesOf agentID := (Prod.mk.inj (ok.inj hexec)).1.symm
  rw [hcerts] at hcert
  obtain ⟨⟨id, row⟩, hrow, _⟩ := mem_map.mp (mem_reverse.mp hcert)
  obtain ⟨hstored, hagent⟩ := mem_select.mp hrow
  exact beq_iff_eq.mp hagent ▸ hinv.certificates id row hstored

theorem registerAgent_heeds (req : RegisterRequest) :
    (registerAgent w req).Heeds (proofWatch w) i op (fun _ _ => True) scene := by
  refine heeds_askOther rfl ?_
  intro t now _
  apply Heeds.bind (heeds_part (preflightRegistrationConflicts_reaches _ _) rfl)
  intro _ t' _ _
  apply Heeds.bind (heeds_part (resolveIdentityCSR_reaches req now) rfl)
  intro identityCSR u _ _
  apply Heeds.bind (heeds_part (resolveServerCertInput_yields w req now) rfl)
  intro input u' _ hunproven
  refine heeds_askOther rfl ?_
  intro v agentID _
  refine heeds_askOther rfl ?_
  intro v' endpointsValid _
  apply heeds_orFail
  -- the last step: a new registration has no proof on record
  intro reg _ x _ _ _ _
  refine ⟨?_, fun _ _ _ _ => trivial, fun _ => trivial⟩
  change input.order.hasVerifiedChallenge = false
  rw [CertificateOrder.hasVerifiedChallenge, hunproven]
  rfl

theorem verifyDNS_heeds_proof (lane : Lane) :
    (verifyDNS w agentID lane).Heeds (proofWatch w) i op (fun _ _ => True) scene := by
  refine heeds_askOther rfl ?_
  intro t now _
  apply heeds_load
  intro t' reg _ hheld
  apply Heeds.bind (heeds_part (ensureHostNotTakenByOther_reaches reg) rfl)
  intro _ u htu _
  refine heeds_ite (fun _ => trivial) ?_
  intro _
  apply heeds_check
  intro _
  apply heeds_find (fun _ => trivial)
  intro u' _ endpoints huu _ _
  apply Heeds.bind (heeds_part (loadServerCert_reaches agentID) rfl)
  intro serverCert v huv _
  refine heeds_askOther rfl ?_
  intro v' report hvv
  cases report with
  | error e => trivial
  | ok report =>
    refine heeds_ite (fun _ => trivial) ?_
    intro _
    apply heeds_orFail
    intro activated hactivate
    obtain ⟨_, rfl⟩ := AgentRegistration.activate_eq_ok_iff.mp hactivate
    refine Heeds.bind (heeds_unguarded (sealActivationEvent_reaches w _ report.attested lane now) ?_ rfl) ?_
    · intro c hc
      cases c <;> trivial
    intro sealed x hvx _
    apply Heeds.bind (heeds_part (revokeConflictLoserCertsAtCA_reaches _ _) rfl)
    intro _ y hxy _
    have hheld := hheld.rely (htu.trans (huu.trans (huv.trans (hvv.trans (hvx.trans hxy)))))
    apply heeds_run
    · intro z hyz _ _ _
      have hheld := hheld.rely hyz
      exact ⟨hheld.copies.congr rfl ⟨rfl, rfl, rfl, rfl⟩,
        fun hverified => (hheld.proven hverified).congr ⟨rfl, rfl, rfl, rfl⟩⟩
    · intros
      trivial

theorem cancelPending_heeds (reason : RevocationReason) (hheld : Held agentID reg scene) :
    (cancelPending reg reason).Heeds (proofWatch w) i op (fun _ _ => True) scene := by
  apply heeds_check
  intro _
  apply heeds_orFail
  intro cancelled hcancel
  obtain ⟨_, _, rfl⟩ := AgentRegistration.cancel_eq_ok_iff.mp hcancel
  apply heeds_find (fun _ => trivial)
  intro t _ certs hst _ _
  apply Heeds.bind (heeds_part (revokeIdentityCertsAtCA_reaches certs reason) rfl)
  intro _ u htu _
  have hheld := hheld.rely (hst.trans htu)
  apply heeds_run
  · intro v huv _ _ _
    have hheld := hheld.rely huv
    exact ⟨hheld.copies.congr rfl ⟨rfl, rfl, rfl, rfl⟩,
      fun hverified => (hheld.proven hverified).congr ⟨rfl, rfl, rfl, rfl⟩⟩
  · intros
    trivial

theorem revoke_heeds (reason : RevocationReason) (lane : Lane) :
    (revoke agentID reason lane).Heeds (proofWatch w) i op (fun _ _ => True) scene := by
  refine heeds_askOther rfl ?_
  intro t now _
  apply heeds_load
  intro t' reg _ hheld
  apply heeds_tryFind (fun _ => trivial)
  intro u endpoints htu _ _
  have hheld : Held agentID { reg with endpoints := endpoints.toOption.getD [] } u :=
    (hheld.rely htu).congr rfl ⟨rfl, rfl, rfl, rfl⟩ rfl
  apply Heeds.bind (heeds_part (hydrateServerCert_yields _) rfl)
  rintro _ v huv ⟨serverCert, rfl⟩
  replace hheld : Held agentID { reg with endpoints := endpoints.toOption.getD [], serverCert } v :=
    (hheld.rely huv).congr rfl ⟨rfl, rfl, rfl, rfl⟩ rfl
  apply heeds_ite
  · intro _
    refine Heeds.bind (G := fun _ _ => True) ?_ (fun _ _ _ _ => trivial)
    apply heeds_find (fun _ => trivial)
    intro x _ certs _ _ _
    refine heeds_ite ?_ (fun _ => trivial)
    intro _
    apply Heeds.bind (heeds_part (revokeIdentityCertsAtCA_reaches certs _) rfl)
    intro _ y _ _ z _ _ _ _
    exact ⟨trivial, fun _ _ _ _ => trivial, fun _ => trivial⟩
  intro _
  apply heeds_ite
  · intro _
    exact cancelPending_heeds reason hheld
  intro _
  apply heeds_orFail
  intro _ _
  apply heeds_find (fun _ => trivial)
  intro x _ certs _ _ _
  apply Heeds.bind (heeds_part (revokeIdentityCertsAtCA_reaches certs reason) rfl)
  intro _ y _ _ z _ _ _ _
  exact ⟨trivial, fun _ _ _ _ => trivial, fun _ => trivial⟩

theorem submitIdentityCSR_heeds (csrPEM : String) (lane : Lane) :
    (submitIdentityCSR w agentID csrPEM lane).Heeds (proofWatch w) i (.submitIdentityCSR agentID csrPEM lane)
      (fun _ _ => True) scene := by
  refine heeds_askOther rfl ?_
  intro t now _
  apply heeds_load
  intro t' reg _ hheld
  apply heeds_check
  intro _
  apply heeds_findEntered (fun _ => trivial)
  intro u _ (idCerts : List StoredCertificate) htu _ hinv hexec huu
  apply heeds_check
  intro hnonempty
  -- a certificate is stored for the agent, so its domain was proven
  have hproven : AgentProven agentID u := by
    obtain ⟨cert, hcert⟩ := exists_mem_of_ne_nil idCerts hnonempty
    exact agentProven_of_certificate hinv hexec hcert
  refine heeds_askOther rfl ?_
  intro v valid huv
  cases valid with
  | error text => trivial
  | ok _ =>
    refine heeds_askOther rfl ?_
    intro v' csrID hvv
    apply heeds_orFail
    intro csr _
    apply Heeds.bind (heeds_part (observeRenewalDNS_yields w reg) rfl)
    rintro ⟨_, dnsRecords⟩ x hvx ⟨endpoints, serverCert, rfl⟩
    have hproven := hproven.rely (huu.trans (huv.trans (hvv.trans hvx)))
    refine Heeds.bind (signIdentityCSR_heeds ?_) ?_
    · intro y hxy
      obtain ⟨id, row, hrow, hrowAgent, hproven⟩ := hproven.rely hxy
      exact ⟨id, row, hrow, hrowAgent, hproven.backed⟩
    rintro ⟨signed, stored⟩ y hxy _
    apply heeds_run
    · intro z hyz _ _ _
      change AgentProven reg.agentID z
      rw [hheld.agentID]
      exact hproven.rely (hxy.trans hyz)
    · intros
      trivial

/-! ### Renewals -/

/-- What an operation knows of a renewal that it has read. -/
structure HeldRenewal (i : Nat) (op : Op) (agentID : String) (r : ServerCertificateRenewal) (s : Scene (service w)) :
    Prop where
  agentID : r.agentID = agentID
  copies : CopiesRenewal r s.state
  backed : r.validation.status = .verified → RenewalBacked i op r s

variable {r r' : ServerCertificateRenewal} {lane : Lane}

theorem HeldRenewal.rely (hrely : ProofRely s t) (h : HeldRenewal i op agentID r s) : HeldRenewal i op agentID r t :=
  ⟨h.agentID, h.copies.rely hrely, fun hverified => (h.backed hverified).rely hrely⟩

theorem CopiesRenewal.congr {state : Store} (h : CopiesRenewal r state) (hid : r'.id = r.id)
    (hsame : SameRenewal r r') : CopiesRenewal r' state where
  id_ne_zero := by
    rw [hid]
    exact h.id_ne_zero
  bounded := by
    rw [hid]
    exact h.bounded
  stored := by
    rw [hid]
    intro row hrow
    exact (h.stored row hrow).trans hsame

theorem RenewalBacked.congr (h : RenewalBacked i op r s) (hid : r'.id = r.id) (hsame : SameRenewal r r') :
    RenewalBacked i op r' s := by
  unfold RenewalBacked
  rw [hid, hsame.agentID, hsame.challenges]
  exact h

/-- A renewal that is closed keeps its validation. -/
theorem HeldRenewal.congr (h : HeldRenewal i op agentID r s) (hid : r'.id = r.id) (hagent : r'.agentID = r.agentID)
    (hvalidation : r'.validation = r.validation) : HeldRenewal i op agentID r' s := by
  have hsame : SameRenewal r r' := ⟨hagent, by rw [hvalidation], by rw [hvalidation]⟩
  refine ⟨hagent.trans h.agentID, h.copies.congr hid hsame, ?_⟩
  rw [hvalidation]
  intro hverified
  exact (h.backed hverified).congr hid hsame

/-- A stored renewal, as it is read. -/
theorem heldRenewal_of_stored {id : Nat} {row : ServerCertificateRenewal} (hinv : ProofInv s)
    (hrow : (id, row) ∈ s.state.renewals.rows) : HeldRenewal i op row.agentID (renewalOf (id, row)) s := by
  obtain ⟨hpositive, hbounded⟩ := s.state.renewals.bounded _ hrow
  refine ⟨rfl, ⟨Nat.pos_iff_ne_zero.mp hpositive, hbounded, ?_⟩, ?_⟩
  · intro row' hrow'
    rw [mem_unique hrow' hrow]
    exact ⟨rfl, rfl, rfl⟩
  · intro hverified
    obtain ⟨k, agent, hagent, hsame, hproven⟩ := hinv.renewals id row hrow hverified
    exact ⟨k, agent, hagent, hsame, hproven.backed⟩

/-- A step that saves a renewal. -/
theorem heeds_saveRenewal {f : Unit → Program β} (hheld : HeldRenewal i op agentID r scene)
    (h : ∀ t, ProofRely scene t → (f ()).Heeds (proofWatch w) i op Q t) :
    (run (.saveRenewal r) >>= f).Heeds (proofWatch w) i op Q scene := by
  apply heeds_run
  · intro t hst _ _ _
    have hheld := hheld.rely hst
    exact ⟨hheld.copies, hheld.backed⟩
  · intro t _ _ u hst _ _ htu
    exact h _ (hst.trans htu)

theorem commitCertificateRenewal_heeds {cert : ByocServerCertificate} {signed : Option AgentCSR}
    {dnsRecords : List String} (hheld : HeldRenewal i op agentID r scene) :
    (commitCertificateRenewal reg r cert signed dnsRecords lane now).Heeds (proofWatch w) i op
      (fun _ _ => True) scene := by
  apply heeds_orFail
  intro completed hcompleted
  obtain ⟨_, rfl⟩ := ServerCertificateRenewal.markCompleted_eq_ok_iff.mp hcompleted
  have hsaved : HeldRenewal i op agentID { r with completedAt := some now } scene := hheld.congr rfl rfl rfl
  apply heeds_run
  · intro t hst _ _ _
    have hsaved := hsaved.rely hst
    exact ⟨hsaved.copies, hsaved.backed⟩
  · intros
    trivial

/-- The entry of the read with which the operation began. -/
def ReadRenewal (i : Nat) (op : Op) (agentID : String) (r : ServerCertificateRenewal) (s : Scene (service w)) : Prop :=
  (.called i op (Call.read (.findPendingRenewal agentID)) r : Entry (service w)) ∈ s.history

theorem finalizeCSRRenewal_heeds {read : ServerCertificateRenewal} {verified : List ChallengeType}
    (hread : ReadRenewal i (.verifyRenewalACME agentID lane) agentID read scene)
    (hid : r.id = read.id) (hsame : SameRenewal read r)
    (hheld : HeldRenewal i (.verifyRenewalACME agentID lane) agentID r scene)
    (hverified : r.validation.status = .verified) :
    (finalizeCSRRenewal w agentID r verified lane now).Heeds (proofWatch w) i (.verifyRenewalACME agentID lane)
      (fun _ _ => True) scene := by
  apply heeds_check
  intro _
  apply heeds_find (fun _ => trivial)
  intro t _ csr hst _ _
  apply heeds_load
  intro t' reg htt hreg
  apply Heeds.bind (heeds_part (observeRenewalDNS_yields w reg) rfl)
  rintro ⟨_, dnsRecords⟩ u htu ⟨endpoints, serverCert, rfl⟩
  have hsu := hst.trans (htt.trans htu)
  apply heeds_ask
  · intro v huv hbase _
    obtain ⟨id, row, hrow, hagent, hbacked⟩ := (hheld.backed hverified).rely (hsu.trans huv)
    obtain ⟨own, hown, hcopy⟩ := hreg.copies.rely (htu.trans huv)
    -- the registration that was read again is the one whose host the proof is for
    have hownAgent : own.agentID = agentID := hcopy.agentID.symm.trans hreg.agentID
    have hrowAgent : row.agentID = agentID := hagent.trans hheld.agentID
    obtain ⟨rfl, rfl⟩ := hbase.unique hrow hown (hrowAgent.trans hownAgent.symm)
    have hname : reg.ansName = row.ansName := hcopy.ansName
    refine ⟨reg.id, row, read, hrow, hrowAgent, (hsu.trans huv).history.subset hread, hsame.orderRef,
      congrArg AnsName.fqdn hname, ?_⟩
    rw [hid, hsame.challenges] at hbacked
    exact hbacked
  intro v outcome huv _ hvv
  have hheld := hheld.rely (hsu.trans (huv.trans hvv))
  cases outcome with
  | orderPending => exact heeds_saveRenewal hheld fun _ _ => trivial
  | orderFailed =>
    apply heeds_orFail
    intro failed hfailed
    obtain ⟨_, rfl⟩ := ServerCertificateRenewal.markFailed_eq_ok_iff.mp hfailed
    have hsaved : HeldRenewal i (.verifyRenewalACME agentID lane) agentID
        { r with failureReason := "certificate provider reported a terminal order failure",
                 completedAt := some now } _ := hheld.congr rfl rfl rfl
    exact heeds_saveRenewal hsaved fun _ _ => trivial
  | error e => trivial
  | issued issued =>
    refine heeds_askOther rfl ?_
    intro x answer hvx
    cases answer with
    | error text => trivial
    | ok cert =>
      apply heeds_orFail
      intro signed _
      exact Heeds.bind (commitCertificateRenewal_heeds (hheld.rely hvx)) fun _ _ _ _ => trivial

theorem finalizeBYOCRenewal_heeds (hheld : HeldRenewal i op agentID r scene) :
    (finalizeBYOCRenewal w reg r lane now).Heeds (proofWatch w) i op (fun _ _ => True) scene := by
  apply Heeds.bind (heeds_part (observeRenewalDNS_yields w reg) rfl)
  rintro ⟨observed, dnsRecords⟩ t hst _
  refine heeds_askOther rfl ?_
  intro u answer htu
  cases answer with
  | error text => trivial
  | ok cert => exact Heeds.bind (commitCertificateRenewal_heeds (hheld.rely (hst.trans htu))) fun _ _ _ _ => trivial

theorem verifyRenewalACME_heeds (lane : Lane) :
    (verifyRenewalACME w agentID lane).Heeds (proofWatch w) i (.verifyRenewalACME agentID lane)
      (fun _ _ => True) scene := by
  refine heeds_askOther rfl ?_
  intro t (now : Time) _
  apply heeds_findEntered (fun _ => trivial)
  intro t' _ (read : ServerCertificateRenewal) _ _ hinv hexec htt
  have hstored : HeldRenewal i (.verifyRenewalACME agentID lane) agentID read t' := by
    obtain ⟨_, hfound⟩ := one_unchanged hexec
    obtain ⟨⟨id, row⟩, hlast, rfl⟩ := Option.map_eq_some_iff.mp hfound
    obtain ⟨hrow, hsel⟩ := mem_of_last hlast
    simp only [Bool.and_eq_true, beq_iff_eq] at hsel
    exact hsel.1 ▸ heldRenewal_of_stored hinv hrow
  have hheld := hstored.rely htt
  have hread : ReadRenewal i (.verifyRenewalACME agentID lane) agentID read
      (t'.after t'.state (.called i (.verifyRenewalACME agentID lane) (Call.read (.findPendingRenewal agentID)) read)) :=
    mem_append_right _ (mem_singleton_self _)
  apply heeds_check
  intro _
  apply heeds_ite
  · intro hverified
    apply heeds_check
    intro _
    exact finalizeCSRRenewal_heeds hread rfl (.refl read) hheld hverified
  intro _
  apply heeds_load
  intro u reg hu hreg
  apply heeds_check
  intro _
  apply Heeds.bind (verifyChallengeArtifacts_heeds _ _)
  rintro ⟨found, failure⟩ v huv hpublished
  cases found with
  | none => cases failure <;> trivial
  | some type =>
    apply heeds_orFail
    intro validation hvalidation
    obtain ⟨_, rfl⟩ := RenewalValidation.markVerified_eq_ok_iff.mp hvalidation
    have hsv := hu.trans huv
    -- the challenge was confirmed in this call, for the host of the registration
    have hconfirmed : RenewalBacked i (.verifyRenewalACME agentID lane) read v := by
      obtain ⟨_, ch, hch, probe, hprobe, hconfirmed⟩ := hpublished type rfl
      obtain ⟨own, hown, hcopy⟩ := hreg.copies.rely huv
      refine ⟨reg.id, own, hown, (hcopy.agentID.symm.trans hreg.agentID).trans hheld.agentID.symm, ch, hch, probe, ?_,
        .inl hconfirmed⟩
      have hname : reg.ansName = own.ansName := hcopy.ansName
      rw [← hname]
      exact hprobe
    have hverified : HeldRenewal i (.verifyRenewalACME agentID lane) agentID
        { read with validation := { read.validation with status := .verified } } v := by
      refine ⟨hheld.agentID, (hheld.copies.rely hsv).congr rfl ⟨rfl, rfl, rfl⟩, ?_⟩
      intro _
      exact hconfirmed.congr rfl ⟨rfl, rfl, rfl⟩
    split
    · exact finalizeBYOCRenewal_heeds hverified
    · exact finalizeCSRRenewal_heeds (hsv.history.subset hread) rfl ⟨rfl, rfl, rfl⟩ hverified rfl

theorem submitServerCertRenewal_heeds (input : SubmitRenewalInput) :
    (submitServerCertRenewal w agentID input).Heeds (proofWatch w) i op (fun _ _ => True) scene := by
  refine heeds_askOther rfl ?_
  intro t now _
  apply heeds_load
  intro t' reg _ _
  apply heeds_check
  intro _
  apply heeds_tryFind (fun _ => trivial)
  intro u pending _ _ _
  cases pending with
  | ok r => trivial
  | error e =>
    apply heeds_check
    intro _
    apply heeds_check
    intro _
    apply Heeds.bind (heeds_part (prepareRenewal_yields w reg input now) rfl)
    rintro ⟨csr, renewal⟩ v _ ⟨hfresh, _, _, _, hunverified⟩
    apply heeds_run
    · intro t _ _ _ _
      exact ⟨hfresh, hunverified⟩
    · intros
      trivial

/-- A renewal that expires keeps its validation, or its validation fails. -/
theorem HeldRenewal.expired (h : HeldRenewal i op agentID r s) (now : Time) : HeldRenewal i op agentID { r with
      validation := r.validation.markFailed.toOption.getD r.validation,
      failureReason := "Renewal validation expired", completedAt := some now } s := by
  by_cases hpending : r.validation.status = .pending
  · have hfailed : r.validation.markFailed = .ok { r.validation with status := .failed } := if_pos hpending
    rw [hfailed]
    exact ⟨h.agentID, h.copies.congr rfl ⟨rfl, rfl, rfl⟩, nofun⟩
  · have hkept : r.validation.markFailed.toOption.getD r.validation = r.validation := by
      simp only [RenewalValidation.markFailed, if_neg hpending, Except.toOption, Option.getD_none]
    rw [hkept]
    exact h.congr rfl rfl rfl

theorem expireRenewalsOnce_heeds (now : Time) :
    (expireRenewalsOnce now).Heeds (proofWatch w) i op (fun _ _ => True) scene := by
  apply heeds_findEntered (fun _ => trivial)
  intro t clock (expired : List ServerCertificateRenewal) _ _ hinv hexec htt
  have hheld (r : ServerCertificateRenewal) (hr : r ∈ expired) : HeldRenewal i op r.agentID r t := by
    have hexpired := (Prod.mk.inj (ok.inj hexec)).1
    rw [← hexpired] at hr
    obtain ⟨⟨id, row⟩, hrow, rfl⟩ := mem_map.mp hr
    have hrenewal : HeldRenewal i op row.agentID (renewalOf (id, row)) t :=
      heldRenewal_of_stored hinv (mem_select.mp hrow).1
    exact hrenewal
  refine Heeds.bind (G := fun _ _ => True) ?_ (fun _ _ _ _ => trivial)
  apply Heeds.forEach (G := fun u => ProofRely t u)
  · intro u v huv htu
    exact htu.trans huv
  · exact htt
  intro r hr u _ htu
  dsimp only
  split
  · trivial
  · rename_i failed hfailed
    obtain ⟨_, rfl⟩ := ServerCertificateRenewal.markFailed_eq_ok_iff.mp hfailed
    have hheldRenewal := (hheld r hr).rely htu
    apply heeds_saveRenewal (hheldRenewal.expired now)
    intro v _
    apply heeds_unguarded (rejectExpiredCSR_reaches _ now)
    · intro c hc
      cases c <;> first | rfl | exact absurd hc Bool.false_ne_true
    · rfl

/-! ### Every operation heeds it -/

theorem program_heeds_proof (op : Op) : (op.program w).Heeds (proofWatch w) i op (fun _ _ => True) scene := by
  have hother (hwrites : ∀ c, op.writes c = true → c.guarded = false) (hports : op.ports.any Port.issues = false) :
      (op.program w).Heeds (proofWatch w) i op (fun _ _ => True) scene :=
    heeds_unguarded (program_reaches w op) hwrites hports
  cases op with
  | registerAgent req => exact Heeds.bind (registerAgent_heeds req) fun _ _ _ _ => trivial
  | verifyACME agentID => exact Heeds.bind verifyACME_heeds fun _ _ _ _ => trivial
  | verifyDNS agentID lane => exact Heeds.bind (verifyDNS_heeds_proof lane) fun _ _ _ _ => trivial
  | revoke agentID reason lane => exact Heeds.bind (revoke_heeds reason lane) fun _ _ _ _ => trivial
  | submitIdentityCSR agentID csrPEM lane =>
    exact Heeds.bind (submitIdentityCSR_heeds csrPEM lane) fun _ _ _ _ => trivial
  | submitServerCertRenewal agentID input =>
    exact Heeds.bind (submitServerCertRenewal_heeds input) fun _ _ _ _ => trivial
  | verifyRenewalACME agentID lane => exact Heeds.bind (verifyRenewalACME_heeds lane) fun _ _ _ _ => trivial
  | expireRenewals now => exact Heeds.bind (expireRenewalsOnce_heeds now) fun _ _ _ _ => trivial
  | submitServerCSR | cancelServerCertRenewal | expireAgents | deliver =>
    apply hother
    · intro c hc
      cases c <;> first | rfl | exact absurd hc Bool.false_ne_true
    · rfl

end

/-! ### No certificate before a proof -/

/-- A registration with a request for a server certificate. -/
def csrRequest : RegisterRequest :=
  { sampleRequest with identityCSRPEM := "", serverCsrPEM := "server-csr", serverCertificatePEM := "" }

/-- The order of the provider, as one whose domain was proven already. -/
def authorizedOrder : CertificateOrder where
  orderRef := "order-1"
  state := .issuing
  challenges := [⟨.dns01, "token", "", "", "", ""⟩]
  verifiedChallenge := some .dns01

/-- A provider that returns its orders as authorized. -/
def authorizingWorld (outcome : FinalizeOutcome) : (q : Query) → q.Answer
  | .createOrder .. => .ok (some authorizedOrder)
  | .finalizeOrder _ => outcome
  | q => grantingWorld "agent-1" "log-1" q

/-- An agent is registered with such an order; the provider is still issuing when its domain is verified, and has
issued when the verification is called again. -/
def authorizedAndRetried : Recorded (service {}) :=
  let pending := authorizingWorld .orderPending
  let issued := authorizingWorld (.issued ⟨"cert", "", "", "", 0, 0⟩)
  let start : Recorded (service {}) := .start _
  let registered := (start.spawn (.registerAgent csrRequest)).drive 0 grantingAmbient pending 30
  let verified := (registered.spawn (.verifyACME "agent-1")).drive 1 grantingAmbient pending 30
  (verified.spawn (.verifyACME "agent-1")).drive 2 grantingAmbient issued 30

theorem authorizedAndRetried_recording : Recording (service {}) authorizedAndRetried := by
  have hregistered := (Recording.start.spawn (S := service {}) (.registerAgent csrRequest)).drive 0
    grantingAmbient (authorizingWorld .orderPending) 30
  have hverified := (hregistered.spawn (.verifyACME "agent-1")).drive 1
    grantingAmbient (authorizingWorld .orderPending) 30
  exact (hverified.spawn (.verifyACME "agent-1")).drive 2 grantingAmbient
    (authorizingWorld (.issued ⟨"cert", "", "", "", 0, 0⟩)) 30

/-- The order of a registration that an entry shows to have been finalized. -/
def finalized {w : Wiring} : Entry (service w) → Option (Nat × String × String)
  | .asked i (.verifyACME agentID) (.finalizeOrder req) _ => some (i, agentID, req.orderRef)
  | _ => none

theorem split_of_finalized {w : Wiring} {h : History w} {i : Nat} {agentID ref : String}
    (hmem : (i, agentID, ref) ∈ h.filterMap finalized) :
    ∃ before req a after, h = before ++ .asked i (.verifyACME agentID) (.finalizeOrder req) a :: after ∧
      req.orderRef = ref := by
  obtain ⟨entry, hentry, hfinalized⟩ := mem_filterMap.mp hmem
  obtain ⟨before, after, rfl⟩ := append_of_mem hentry
  unfold finalized at hfinalized
  split at hfinalized
  · cases hfinalized
    exact ⟨before, _, _, after, rfl, rfl⟩
  · cases hfinalized

set_option maxRecDepth 20000 in
theorem authorizedAndRetried_summary :
    authorizedAndRetried.history.filterMap finalized = [(1, "agent-1", "order-1"), (2, "agent-1", "order-1")] ∧
      (authorizedAndRetried.history.filterMap confirmation).map (fun x => (x.1, x.2.2)) =
        [(1, .record "a.example.com" "_acme-challenge.a.example.com" "token")] := by decide +kernel

end AgentNameService.Registration
