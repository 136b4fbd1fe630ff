/-
Purpose: What the operations know about the copies they hand to a transaction.  A signed request carries the id of its
  certificate, a renewal is saved as it was read or closed with a reason, and a registration that `Revoke` takes for a
  live one has been activated.
Source: internal/ra/service/{lifecycle,renewal,renewal_expiry}.go
Trusted boundary: none
-/
import AgentNameService.Registration.Publication
import AgentNameService.Registration.Recorded
import AgentNameService.Registration.Requests

namespace AgentNameService.Registration

open Interleaving Interleaving.Prog Store Table Tx List

variable {s t : Store} {c : Call}

/-! ### What a transaction is handed -/

/-- A request that is signed, and the certificate that answers it. -/
def Answered (signed : AgentCSR) (stored : StoredCertificate) : Prop :=
  signed.status = .signed ∧ stored.csrID = signed.csrID

/-- What the program that makes a call knows about the copies it hands over. -/
def Hands : Call → Store → Prop
  | .saveCSR _ csr, _ => csr.status = .rejected
  | .saveRenewal r, _ => r.id ≠ 0 ∧
      (r.completedAt = none ∧ r.failureReason = "" ∨ r.completedAt ≠ none ∧ r.failureReason ≠ "")
  | .commitACME reg identity server, s =>
    (∀ signed stored, identity = some (signed, stored) →
      Answered signed stored ∧ Requested reg.agentID signed.csrID s) ∧
      ∀ cert signed, server = some (cert, signed) → signed.status = .signed
  | .commitRevocation reg .., s => Activated reg.agentID s
  | .commitIdentityCSR _ signed stored .., _ => Answered signed stored
  | .submitRenewal agentID _ renewal, _ => renewal.id = 0 ∧ renewal.agentID = agentID ∧
      renewal.completedAt = none ∧ renewal.failureReason = ""
  | .commitRenewal _ r _ signed .., _ => r.completedAt ≠ none ∧ r.failureReason = "" ∧
      ∀ csr, signed = some csr → csr.status = .signed
  | _, _ => True

/-- A live registration has been activated, and a renewal that is not completed has not failed. -/
structure Kept (s : Store) : Prop where
  activated : ∀ id row, (id, row) ∈ s.agents.rows → row.status = .active ∨ row.status = .deprecated →
    Activated row.agentID s
  unfailed : ∀ id r, (id, r) ∈ s.renewals.rows → r.completedAt = none → r.failureReason = ""

/-! ### Every call keeps it -/

theorem Activated.kept {agentID : String} (h : Effect s t c) (hs : Activated agentID s) : Activated agentID t := by
  obtain ⟨⟨k, old⟩, hold, hagent, htype⟩ := hs
  obtain ⟨new, hnew, hto⟩ := h.outbox_kept hold
  exact ⟨(k, new), hnew, hto.agentID.trans hagent, hto.eventType.trans htype⟩

/-- A registration that is live after a step was so before it, or the step has activated it. -/
theorem Effect.live_after {id : Nat} {row' : AgentRow} (h : Effect s t c) (hpre : Pre c s)
    (hrow' : (id, row') ∈ t.agents.rows) (hlive : row'.status = .active ∨ row'.status = .deprecated) :
    (∃ row, (id, row) ∈ s.agents.rows ∧ row.agentID = row'.agentID ∧ (row.status = .active ∨ row.status = .deprecated)) ∨
      Activated row'.agentID t := by
  rcases h.changes with ⟨reg, rfl, _, hagents⟩ | ⟨g, hg, hchange⟩
  · rw [hagents, mem_insert] at hrow'
    rcases hrow' with hold | hnew
    · exact .inl ⟨row', hold, rfl, hlive⟩
    · have hstatus : reg.status = .pendingValidation := hpre.2
      rw [(Prod.mk.inj hnew).2] at hlive
      simp [AgentRow.ofDomain, hstatus] at hlive
  obtain ⟨row, hrow, heq⟩ := (hg id row').mp hrow'
  have hc := hchange id row hrow
  rw [← heq] at hc
  cases hc with
  | same => exact .inl ⟨row', hrow, rfl, hlive⟩
  | saved | advanced | cancelled => simp [AgentRow.overwrite, hpre.2.1] at hlive
  | outrun | revoked => simp [revokedRow] at hlive
  | lapsed => simp at hlive
  | activated hkey hwaiting =>
    right
    obtain ⟨⟨own, hown, hagent, _⟩, hactive, _⟩ := hpre
    subst hkey
    obtain rfl := mem_unique hrow hown
    cases h with
    | activated _ _ _ _ _ _ houtbox =>
      obtain ⟨now, houtbox⟩ := houtbox
      unfold Activated
      rw [houtbox]
      exact ⟨_, mem_append_right _ (mem_singleton_self _), hagent.symm, rfl⟩
    | quiet hagents =>
      rw [hagents] at hrow'
      rw [← mem_unique hrow' hrow] at hwaiting
      cases hactive.symm.trans hwaiting

/-- A renewal that a statement leaves open has not failed. -/
theorem unfailed_of_leaves {u : Store} {st : Statement} (hhands : Hands c s) (hst : c.Performs t st)
    (hleaves : st.Leaves t u) (ht : ∀ id r, (id, r) ∈ t.renewals.rows → r.completedAt = none → r.failureReason = "") :
    ∀ id r, (id, r) ∈ u.renewals.rows → r.completedAt = none → r.failureReason = "" := by
  intro id row hrow hopen
  cases hleaves with
  | @renewalInserted r hnew =>
    rcases mem_insert.mp hrow with hold | heq
    · exact ht id row hold hopen
    · obtain ⟨_, rfl⟩ := Prod.mk.inj heq
      cases hst with
      | saveRenewal => exact absurd hnew hhands.1
      | revokeRenewal _ hfinished => exact absurd hopen hfinished
      | submitRenewal => exact hhands.2.2.2
      | renewRenewal => exact hhands.2.1
  | @renewalSaved r =>
    obtain ⟨old, hold, rfl⟩ := mem_update.mp hrow
    by_cases hsel : isOpenRenewal r.id id old = true
    · rw [if_pos hsel] at hopen ⊢
      cases hst with
      | saveRenewal =>
        rcases hhands.2 with ⟨_, hreason⟩ | ⟨hfinished, _⟩
        · exact hreason
        · exact absurd hopen hfinished
      | revokeRenewal _ hfinished => exact absurd hopen hfinished
      | submitRenewal => exact hhands.2.2.2
      | renewRenewal => exact hhands.2.1
    · rw [if_neg hsel] at hopen ⊢
      exact ht id old hold hopen
  | renewalDeleted => exact ht id row (mem_delete.mp hrow).1 hopen
  | agentInserted | agentSaved | agentsLapsed | endpoints | csrSaved | csrInserted | certificateInserted
  | certificateStatus | byocInserted | sealKept | sealElected | outbox => exact ht id row hrow hopen

theorem Kept.called {ambient : Ambient} {r : c.Reply} (hs : Kept s) (hinv : Inv s) (hpre : Pre c s)
    (hhands : Hands c s) (h : c.exec ambient s = .ok (r, t)) : Kept t where
  activated := by
    intro id row hrow hlive
    have heffect := effect_of_exec hinv hpre h
    rcases heffect.live_after hpre hrow hlive with ⟨old, hold, hagent, hlive'⟩ | hactivated
    · rw [← hagent]
      exact (hs.activated id old hold hlive').kept heffect
    · exact hactivated
  unfailed := (c.performed ambient s r t h).keeps
    (fun _ _ _ hst hleaves => unfailed_of_leaves hhands hst hleaves) hs.unfailed

/-! ### The watch -/

/-- What no step takes back: that a registration has been activated, and that a request is on file. -/
structure Lasts (s t : Store) : Prop where
  activated : ∀ agentID, Activated agentID s → Activated agentID t
  requested : ∀ agentID csrID, Requested agentID csrID s → Requested agentID csrID t

/-- Every call is handed what `Hands` says. -/
def copyWatch (w : Wiring) : Watch discipline (service w) where
  Inv s := Kept s.state
  Rely s t := Lasts s.state t.state
  Calls _ _ c s := Hands c s.state
  Asks _ _ _ _ := True
  refl _ := ⟨fun _ h => h, fun _ _ h => h⟩
  trans _ _ _ h h' := ⟨fun _ hs => h'.activated _ (h.activated _ hs), fun _ _ hs => h'.requested _ _ (h.requested _ _ hs)⟩
  called _ _ _ _ _ _ _ hinv hpre hkept hhands hexec :=
    ⟨hkept.called hinv hpre hhands hexec, fun _ hs => hs.kept (effect_of_exec hinv hpre hexec),
      fun _ _ hs => hs.kept hexec⟩
  asked _ _ _ _ _ _ hkept _ := ⟨hkept, fun _ h => h, fun _ _ h => h⟩

namespace Copies

variable {w : Wiring} {i : Nat} {op : Op} {scene : Scene (service w)} {r : ServerCertificateRenewal}

/-- The parts of the programs that hand over no copy. -/
theorem heeds_copies {α : Type} {R : α → Prop} {p : Program α} {writes : Call → Bool} {ports : List Port}
    (h : Yields writes ports R p) (hwrites : ∀ c, writes c = true → ∀ s, Hands c s) :
    p.Heeds (copyWatch w) i op (fun a _ => R a) scene := by
  apply heeds_yields h
  · intro c hc t _ _
    cases c with
    | read => trivial
    | _ => exact hwrites _ hc t.state
  · intros
    trivial

theorem heeds_readOnly {α : Type} {R : α → Prop} {p : Program α} {ports : List Port} (h : Yields noWrites ports R p) :
    p.Heeds (copyWatch w) i op (fun a _ => R a) scene :=
  heeds_copies h fun _ hc => absurd hc Bool.false_ne_true

/-! ### VerifyACME and SubmitIdentityCSR -/

variable (reg : AgentRegistration)

theorem finalizeServerOrder_heeds (csr : AgentCSR) (verified : List ChallengeType)
    (now : Time) : (finalizeServerOrder w reg csr verified now).Heeds (copyWatch w) i op
      (fun outcome _ => ∀ cert signed, outcome = .issued cert signed → signed.status = .signed) scene := by
  apply heeds_check
  intro _
  apply heeds_ask (fun _ _ _ _ => trivial)
  intro t outcome _ _ _
  cases outcome with
  | orderPending =>
    apply heeds_orFail
    intro order _
    exact nofun
  | orderFailed =>
    apply heeds_orFail
    intro order _
    apply heeds_run (fun _ _ _ _ _ => trivial)
    intros
    trivial
  | error e => trivial
  | issued cert =>
    apply heeds_ask (fun _ _ _ _ => trivial)
    intro u validated _ _ _
    cases validated with
    | error text => trivial
    | ok cert =>
      apply heeds_orFail
      intro signed hsigned
      rintro _ _ ⟨⟩
      exact (AgentCSR.markSigned_eq_ok hsigned).1

theorem finishACME_heeds (server : Option (ByocServerCertificate × AgentCSR)) (now : Time)
    (hserver : ∀ cert signed, server = some (cert, signed) → signed.status = .signed) :
    (finishACME reg server now).Heeds (copyWatch w) i op (fun _ _ => True) scene := by
  apply heeds_find (fun _ => trivial)
  intro t _ (csr : Option AgentCSR) _ _ hfind
  have hread : findLatestPendingCSRByType reg.agentID .identity t.state = .ok (csr, t.state) := hfind
  have hsign : (signPending reg csr now).Heeds (copyWatch w) i op (fun issued u => ∀ signed stored,
      issued = some (signed, stored) → Answered signed stored ∧ Requested reg.agentID signed.csrID u.state) t := by
    cases csr with
    | none => exact nofun
    | some csr =>
      have hrequested := requested_of_latestPending (run_reads_eq_ok_iff.mp hread).1
      apply Heeds.bind (heeds_readOnly (signIdentityCSR_yields reg csr now))
      rintro issued u htu ⟨hstatus, hid, hstored⟩
      rintro _ _ ⟨⟩
      refine ⟨⟨hstatus, hstored.trans hid.symm⟩, ?_⟩
      rw [hid]
      exact htu.requested _ _ hrequested
  apply Heeds.bind hsign
  intro identity u _ hidentity
  apply heeds_orFail
  intro order _
  apply heeds_orFail
  intro advanced hadvance
  obtain ⟨_, rfl⟩ := AgentRegistration.transitionTo_eq_ok_iff.mp hadvance
  apply heeds_run
  · intro v huv _ _ _
    refine ⟨?_, hserver⟩
    intro signed stored hissued
    obtain ⟨hanswered, hrequested⟩ := hidentity signed stored hissued
    exact ⟨hanswered, huv.requested _ _ hrequested⟩
  intros
  trivial

variable (agentID : String)

theorem verifyACME_heeds :
    (verifyACME w agentID).Heeds (copyWatch w) i op (fun _ _ => True) scene := by
  apply heeds_ask (fun _ _ _ _ => trivial)
  intro t now _ _ _
  apply heeds_find (fun _ => trivial)
  intro t' _ reg _ _ _
  apply Heeds.bind (heeds_readOnly (ensureHostNotTakenByOther_reaches reg))
  intro _ u _ _
  refine heeds_ite (fun _ => trivial) ?_
  intro _
  apply heeds_find (fun _ => trivial)
  intro u' _ endpoints _ _ _
  apply Heeds.bind (heeds_readOnly (gateOrderChallenges_yields w _ now))
  rintro ⟨reg, verified⟩ v _ _
  apply heeds_find (fun _ => trivial)
  intro v' _ csr _ _ _
  have hnone : (do
      let advanced ← finishACME reg none now
      return (advanced, false) : Program (AgentRegistration × Bool)).Heeds (copyWatch w) i op (fun _ _ => True) v' := by
    apply Heeds.bind (finishACME_heeds reg none now nofun)
    intros
    trivial
  cases csr with
  | none => exact hnone
  | some csr =>
    refine heeds_ite (fun _ => ?_) fun _ => hnone
    apply Heeds.bind (finalizeServerOrder_heeds reg csr verified now)
    intro outcome x _ houtcome
    cases outcome with
    | pending order =>
      apply heeds_run (fun _ _ _ _ _ => trivial)
      intros
      trivial
    | issued cert signed =>
      apply Heeds.bind (finishACME_heeds _ (some (cert, signed)) now _)
      · intros
        trivial
      · rintro _ _ ⟨⟩
        exact houtcome cert signed rfl

theorem submitIdentityCSR_heeds (agentID csrPEM : String) (lane : Lane) :
    (submitIdentityCSR w agentID csrPEM lane).Heeds (copyWatch w) i op (fun _ _ => True) scene := by
  apply heeds_ask (fun _ _ _ _ => trivial)
  intro t now _ _ _
  apply heeds_find (fun _ => trivial)
  intro t' _ reg _ _ _
  apply heeds_check
  intro _
  apply heeds_find (fun _ => trivial)
  intro u _ (certs : List StoredCertificate) _ _ _
  apply heeds_check
  intro _
  apply heeds_ask (fun _ _ _ _ => trivial)
  intro u' valid _ _ _
  cases valid with
  | error text => trivial
  | ok _ =>
    apply heeds_ask (fun _ _ _ _ => trivial)
    intro v csrID _ _ _
    apply heeds_orFail
    intro csr _
    apply Heeds.bind (heeds_readOnly (observeRenewalDNS_yields w reg))
    rintro ⟨reg, dnsRecords⟩ v' _ _
    apply Heeds.bind (heeds_readOnly (signIdentityCSR_yields reg csr now))
    rintro ⟨signed, stored⟩ x _ ⟨hstatus, hid, hstored⟩
    have hanswered : Answered signed stored := ⟨hstatus, hstored.trans hid.symm⟩
    apply heeds_run (fun _ _ _ _ _ => hanswered)
    intros
    trivial

/-! ### Revoke -/

theorem sweepRevokedAgentCerts_heeds :
    (sweepRevokedAgentCerts agentID).Heeds (copyWatch w) i op (fun _ _ => True) scene := by
  apply heeds_find (fun _ => trivial)
  intro t _ certs _ _ _
  refine heeds_ite (fun _ => ?_) fun _ => trivial
  apply Heeds.bind (heeds_readOnly (revokeIdentityCertsAtCA_reaches certs _))
  intro _ u _ _
  exact heeds_last fun _ _ _ _ _ => trivial

theorem cancelPending_heeds (reason : RevocationReason) :
    (cancelPending reg reason).Heeds (copyWatch w) i op (fun _ _ => True) scene := by
  apply heeds_check
  intro _
  apply heeds_orFail
  intro cancelled _
  apply heeds_find (fun _ => trivial)
  intro t _ certs _ _ _
  apply Heeds.bind (heeds_readOnly (revokeIdentityCertsAtCA_reaches certs _))
  intro _ u _ _
  apply heeds_run (fun _ _ _ _ _ => trivial)
  intros
  trivial

/-- A registration that may be revoked is a live one. -/
theorem live_of_revoke {reg r : AgentRegistration} {reason : RevocationReason} (h : reg.revoke reason = .ok r) :
    reg.status = .active ∨ reg.status = .deprecated := by
  obtain ⟨_, hpending, htransition, _⟩ := AgentRegistration.revoke_eq_ok_iff.mp h
  cases hstatus : reg.status <;>
    simp_all [RegistrationStatus.isPending, RegistrationStatus.validTransitions]

theorem revoke_heeds (reason : RevocationReason) (lane : Lane) :
    (revoke agentID reason lane).Heeds (copyWatch w) i op (fun _ _ => True) scene := by
  apply heeds_ask (fun _ _ _ _ => trivial)
  intro t now _ _ _
  apply heeds_findEntered (fun _ => trivial)
  intro t' _ reg _ _ hkept hfind _
  -- a registration that was read as live has been activated by then
  have hlive : reg.status = .active ∨ reg.status = .deprecated → Activated reg.agentID t'.state := by
    intro hstatus
    obtain ⟨_, row, hrow, hdomain, _⟩ := findByAgentID_stored hfind
    rw [← hdomain] at hstatus ⊢
    exact hkept.activated reg.id row hrow hstatus
  apply heeds_tryFind (fun _ => trivial)
  intro u endpoints htu _ _
  apply Heeds.bind (heeds_readOnly (hydrateServerCert_yields _))
  rintro _ v huv ⟨serverCert, rfl⟩
  refine heeds_ite (fun _ => ?_) fun _ => heeds_ite (fun _ => ?_) fun _ => ?_
  · apply Heeds.bind (sweepRevokedAgentCerts_heeds reg.agentID)
    intros
    trivial
  · exact cancelPending_heeds _ reason
  · apply heeds_orFail
    intro revoked hrevoke
    have hread := live_of_revoke hrevoke
    have hactivated := huv.activated _ (htu.activated _ (hlive hread))
    apply heeds_find (fun _ => trivial)
    intro x _ certs hvx _ _
    apply Heeds.bind (heeds_readOnly (revokeIdentityCertsAtCA_reaches certs reason))
    intro _ y hxy _
    exact heeds_last fun z hyz _ _ _ => hyz.activated _ (hxy.activated _ (hvx.activated _ hactivated))

/-! ### Renewals -/

/-- A renewal that was read as not completed. -/
def ReadOpen (r : ServerCertificateRenewal) : Prop := r.id ≠ 0 ∧ r.completedAt = none ∧ r.failureReason = ""

theorem readOpen_of_mem {row : Nat × ServerCertificateRenewal} (hkept : Kept s) (hrow : row ∈ s.renewals.rows)
    (hopen : row.2.completedAt = none) : ReadOpen (renewalOf row) :=
  ⟨Nat.pos_iff_ne_zero.mp (s.renewals.bounded _ hrow).1, hopen, hkept.unfailed row.1 row.2 hrow hopen⟩

/-- What is done to the validation of a copy does not matter. -/
theorem ReadOpen.validation (hr : ReadOpen r) (validation : RenewalValidation) : ReadOpen { r with validation } := hr

/-- A copy that is closed with a reason may be saved. -/
theorem hands_failed (hr : ReadOpen r) {reason : String} (hreason : reason ≠ "") (now : Time) (s : Store) :
    Hands (.saveRenewal { r with failureReason := reason, completedAt := some now }) s :=
  ⟨hr.1, .inr ⟨Option.some_ne_none now, hreason⟩⟩

theorem findPendingRenewal_open {agentID : String} (hkept : Kept s)
    (h : findPendingRenewal agentID s = .ok (r, t)) : ReadOpen r := by
  obtain ⟨_, hfound⟩ := one_unchanged h
  obtain ⟨row, hlast, rfl⟩ := Option.map_eq_some_iff.mp hfound
  obtain ⟨hrow, hsel⟩ := mem_of_last hlast
  simp only [Bool.and_eq_true, Option.isNone_iff_eq_none] at hsel
  exact readOpen_of_mem hkept hrow hsel.2

theorem submitServerCertRenewal_heeds (input : SubmitRenewalInput) :
    (submitServerCertRenewal w agentID input).Heeds (copyWatch w) i op (fun _ _ => True) scene := by
  apply heeds_ask (fun _ _ _ _ => trivial)
  intro t now _ _ _
  apply heeds_find (fun _ => trivial)
  intro t' _ reg _ _ hfind
  have hreg : reg.agentID = agentID := by
    obtain ⟨_, row, _, hdomain, hagent⟩ := findByAgentID_stored hfind
    rw [← hdomain]
    exact hagent
  apply heeds_check
  intro _
  apply heeds_tryFind (fun _ => trivial)
  intro u found _ _ _
  cases found with
  | ok r => trivial
  | error e =>
    apply heeds_check
    intro _
    apply heeds_check
    intro _
    apply Heeds.bind (heeds_readOnly (prepareRenewal_yields w reg input now))
    rintro ⟨csr, renewal⟩ v _ ⟨hid, hagent, hopen, hreason, _⟩
    have hhands : renewal.id = 0 ∧ renewal.agentID = agentID ∧ renewal.completedAt = none ∧ renewal.failureReason = "" :=
      ⟨hid, hagent.trans hreg, hopen, hreason⟩
    apply heeds_run (fun _ _ _ _ _ => hhands)
    intros
    trivial

theorem commitCertificateRenewal_heeds (hr : ReadOpen r)
    (cert : ByocServerCertificate) {signed : Option AgentCSR} (hsigned : ∀ csr, signed = some csr → csr.status = .signed)
    (dnsRecords : List String) (lane : Lane) (now : Time) :
    (commitCertificateRenewal reg r cert signed dnsRecords lane now).Heeds (copyWatch w) i op (fun _ _ => True)
      scene := by
  apply heeds_orFail
  intro completed hcompleted
  obtain ⟨_, rfl⟩ := ServerCertificateRenewal.markCompleted_eq_ok_iff.mp hcompleted
  have hhands (t : Store) : Hands (.commitRenewal reg { r with completedAt := some now } cert signed dnsRecords lane) t :=
    ⟨Option.some_ne_none now, hr.2.2, hsigned⟩
  apply heeds_run (fun t _ _ _ _ => hhands t.state)
  intros
  trivial

theorem finalizeCSRRenewal_heeds (hr : ReadOpen r)
    (verified : List ChallengeType) (lane : Lane) (now : Time) :
    (finalizeCSRRenewal w agentID r verified lane now).Heeds (copyWatch w) i op (fun _ _ => True) scene := by
  apply heeds_check
  intro _
  apply heeds_find (fun _ => trivial)
  intro t _ csr _ _ _
  apply heeds_find (fun _ => trivial)
  intro t' _ reg _ _ _
  apply Heeds.bind (heeds_readOnly (observeRenewalDNS_yields w reg))
  rintro ⟨reg, dnsRecords⟩ u _ _
  apply heeds_ask (fun _ _ _ _ => trivial)
  intro u' outcome _ _ _
  cases outcome with
  | orderPending =>
    have hhands (t : Store) : Hands (.saveRenewal r) t := ⟨hr.1, .inl hr.2⟩
    apply heeds_run (fun t _ _ _ _ => hhands t.state)
    intros
    trivial
  | orderFailed =>
    apply heeds_orFail
    intro failed hfailed
    obtain ⟨_, rfl⟩ := ServerCertificateRenewal.markFailed_eq_ok_iff.mp hfailed
    have hreason : "certificate provider reported a terminal order failure" ≠ "" := by decide
    apply heeds_run (fun t _ _ _ _ => hands_failed hr hreason now t.state)
    intros
    trivial
  | error e => trivial
  | issued issued =>
    apply heeds_ask (fun _ _ _ _ => trivial)
    intro v validated _ _ _
    cases validated with
    | error text => trivial
    | ok cert =>
      apply heeds_orFail
      intro signed hsigned
      have hstatus : ∀ csr, some signed = some csr → csr.status = .signed := by
        rintro _ ⟨⟩
        exact (AgentCSR.markSigned_eq_ok hsigned).1
      apply Heeds.bind (commitCertificateRenewal_heeds reg hr cert hstatus dnsRecords lane now)
      intros
      trivial

theorem finalizeBYOCRenewal_heeds (hr : ReadOpen r) (lane : Lane) (now : Time) :
    (finalizeBYOCRenewal w reg r lane now).Heeds (copyWatch w) i op (fun _ _ => True) scene := by
  apply Heeds.bind (heeds_readOnly (observeRenewalDNS_yields w reg))
  rintro ⟨reg, dnsRecords⟩ t _ _
  apply heeds_ask (fun _ _ _ _ => trivial)
  intro u validated _ _ _
  cases validated with
  | error text => trivial
  | ok cert =>
    have hnone : ∀ csr : AgentCSR, none = some csr → csr.status = .signed := nofun
    apply Heeds.bind (commitCertificateRenewal_heeds reg hr cert hnone dnsRecords lane now)
    intros
    trivial

theorem verifyRenewalACME_heeds (lane : Lane) :
    (verifyRenewalACME w agentID lane).Heeds (copyWatch w) i op (fun _ _ => True) scene := by
  apply heeds_ask (fun _ _ _ _ => trivial)
  intro t now _ _ _
  apply heeds_findEntered (fun _ => trivial)
  intro t' _ r _ _ hkept hfind _
  have hr : ReadOpen r := findPendingRenewal_open hkept hfind
  apply heeds_check
  intro _
  refine heeds_ite (fun _ => ?_) fun _ => ?_
  · apply heeds_check
    intro _
    exact finalizeCSRRenewal_heeds agentID hr [] lane now
  · apply heeds_find (fun _ => trivial)
    intro u _ reg _ _ _
    apply heeds_check
    intro _
    apply Heeds.bind (heeds_readOnly (verifyChallengeArtifacts_reaches w reg.fqdn _))
    rintro ⟨found, failure⟩ v _ _
    cases found with
    | none => cases failure <;> trivial
    | some type =>
      apply heeds_orFail
      intro validation _
      split
      · exact finalizeBYOCRenewal_heeds reg (hr.validation validation) lane now
      · exact finalizeCSRRenewal_heeds agentID (hr.validation validation) [type] lane now

theorem rejectExpiredCSR_heeds (r : ServerCertificateRenewal) (now : Time) :
    (rejectExpiredCSR r now).Heeds (copyWatch w) i op (fun _ _ => True) scene := by
  refine heeds_ite (fun _ => ?_) fun _ => trivial
  apply heeds_tryFind (fun _ => trivial)
  intro t found _ _ _
  cases found with
  | error e => trivial
  | ok csr =>
    dsimp only
    split
    · trivial
    · rename_i rejected hrejected
      apply Heeds.attempt
      intro u _ _ _ _
      refine ⟨markRejected_status hrejected, ?_, ?_⟩ <;> · intros; trivial

theorem expireRenewalsOnce_heeds (now : Time) :
    (expireRenewalsOnce now).Heeds (copyWatch w) i op (fun _ _ => True) scene := by
  apply heeds_findEntered (fun _ => trivial)
  intro t time (expired : List ServerCertificateRenewal) _ _ hkept hfind _
  have hopen : ∀ r ∈ expired, ReadOpen r := by
    intro r hr
    have hlist : listPendingExpired time t.state = .ok (expired, t.state) := hfind
    rw [← (run_reads_eq_ok_iff.mp hlist).1] at hr
    obtain ⟨row, hrow, rfl⟩ := mem_map.mp hr
    obtain ⟨hmem, hsel⟩ := mem_select.mp hrow
    simp only [Bool.and_eq_true, Option.isNone_iff_eq_none] at hsel
    exact readOpen_of_mem hkept hmem hsel.1.1
  apply Heeds.bind
  · apply Heeds.forEach (fun _ _ _ _ => trivial) trivial
    intro r hr u _ _
    dsimp only
    split
    · trivial
    · rename_i failed hfailed
      obtain ⟨_, rfl⟩ := ServerCertificateRenewal.markFailed_eq_ok_iff.mp hfailed
      have hreason : "Renewal validation expired" ≠ "" := by decide
      apply heeds_run (fun t _ _ _ _ => hands_failed ((hopen r hr).validation _) hreason now t.state)
      intros
      exact rejectExpiredCSR_heeds _ now
  · intros
    trivial

/-- Every operation hands its calls what they are to be handed. -/
theorem program_heeds (op : Op) : (op.program w).Heeds (copyWatch w) i op (fun _ _ => True) scene := by
  have hresult {α : Type} {p : Program α} {f : α → Program Outcome} (hp : p.Heeds (copyWatch w) i op (fun _ _ => True) scene)
      (hf : ∀ a s, (f a).Heeds (copyWatch w) i op (fun _ _ => True) s) :
      (p >>= f).Heeds (copyWatch w) i op (fun _ _ => True) scene := Heeds.bind hp fun a s _ _ => hf a s
  cases op with
  | verifyACME agentID => exact hresult (verifyACME_heeds agentID) fun _ _ => trivial
  | revoke agentID reason lane => exact hresult (revoke_heeds agentID reason lane) fun _ _ => trivial
  | submitIdentityCSR agentID csrPEM lane =>
    exact hresult (submitIdentityCSR_heeds agentID csrPEM lane) fun _ _ => trivial
  | submitServerCertRenewal agentID input =>
    exact hresult (submitServerCertRenewal_heeds agentID input) fun _ _ => trivial
  | verifyRenewalACME agentID lane => exact hresult (verifyRenewalACME_heeds agentID lane) fun _ _ => trivial
  | expireRenewals now => exact hresult (expireRenewalsOnce_heeds now) fun _ _ => trivial
  | registerAgent | verifyDNS | submitServerCSR | cancelServerCertRenewal | expireAgents | deliver =>
    apply heeds_copies (program_reaches w _)
    intro c hc s
    cases c <;> trivial

end Copies

theorem Kept.empty : Kept Store.empty := ⟨by simp [Store.empty], by simp [Store.empty]⟩

end AgentNameService.Registration
