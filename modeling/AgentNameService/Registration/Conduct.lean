/-
Purpose: The operations of the service keep the contract.  Most of their calls require nothing; the few that
  save a copy of a registration know that the copy's identity is still right, and `Revoke` leaves a
  registration that stays revoked.
Source: internal/ra/service, internal/ra/outbox/worker.go
Trusted boundary: none
-/
import AgentNameService.Registration.Changes
import AgentNameService.Registration.Footprint

namespace AgentNameService.Registration

open Interleaving Interleaving.Prog

variable {r : Read} {c : Call}

/-- A call whose precondition follows from a property of the tables. -/
def Requires (G : Store → Prop) (c : Call) : Prop := ∀ s, G s → Pre c s

/-! ### Rules for the building blocks -/

section

variable {G : Store → Prop} {α β : Type} {R : β → Prop} {p : Program β}

theorem calls_find {f : r.Result → Program β} (hf : ∀ a, (f a).Calls (Requires G) R) :
    (find r >>= f).Calls (Requires G) R :=
  Calls.perform (fun _ _ => trivial) hf

theorem calls_tryFind {f : Except Error r.Result → Program β}
    (hf : ∀ a, (f a).Calls (Requires G) R) : (tryFind r >>= f).Calls (Requires G) R :=
  Calls.attempt (fun _ _ => trivial) hf

theorem calls_run {f : c.Reply → Program β} (hc : Requires G c)
    (hf : ∀ a, (f a).Calls (Requires G) R) : (run c >>= f).Calls (Requires G) R :=
  Calls.perform hc hf

/-- A step at the end of a program. -/
theorem calls_last (hc : Requires G c) : (run c).Calls (Requires G) fun _ => True := by
  refine ⟨hc, ?_⟩
  intro r
  cases r <;> trivial

theorem calls_ask {q : Query} {f : q.Answer → Program β} (hf : ∀ a, (f a).Calls (Requires G) R) :
    (ask q >>= f).Calls (Requires G) R :=
  Calls.query hf

theorem calls_orFail {x : Except Error α} {f : α → Program β}
    (hf : ∀ a, x = .ok a → (f a).Calls (Requires G) R) : (orFail x >>= f).Calls (Requires G) R :=
  Calls.lift hf

theorem calls_check {condition : Prop} {_ : Decidable condition} {e : Error} {f : Unit → Program β}
    (hf : condition → (f ()).Calls (Requires G) R) : (check condition e >>= f).Calls (Requires G) R :=
  calls_orFail fun _ h => hf (by simpa using h)

theorem calls_ite {condition : Prop} [Decidable condition] {q : Program β}
    (hp : condition → p.Calls (Requires G) R) (hq : ¬ condition → q.Calls (Requires G) R) :
    (if condition then p else q).Calls (Requires G) R := by
  split
  · exact hp ‹_›
  · exact hq ‹_›

/-- A part whose writes require nothing. -/
theorem calls_of_yields {writes : Call → Bool} {ports : List Port} (h : Yields writes ports R p)
    (hwrites : ∀ c, writes c = true → ∀ s, Pre c s) : p.Calls (Requires G) R := by
  refine Uses.calls h fun c hc s _ => ?_
  cases c with
  | read => trivial
  | _ => exact hwrites _ hc s

/-- A part that writes nothing. -/
theorem calls_part {ports : List Port} (h : Yields noWrites ports R p) : p.Calls (Requires G) R :=
  calls_of_yields h fun _ hc => absurd hc Bool.false_ne_true

end

/-! ### The calls of the parts -/

section

variable {G : Store → Prop} (w : Wiring)

/-- A new registration is saved without a key and waits for domain validation. -/
theorem registerAgent_calls (req : RegisterRequest) : (registerAgent w req).Calls (Requires G) fun _ => True := by
  refine calls_ask fun now => (calls_part (preflightRegistrationConflicts_reaches _ _)).bind fun _ _ => ?_
  refine (calls_part (resolveIdentityCSR_reaches req now)).bind fun identityCSR _ => ?_
  refine (calls_part (resolveServerCertInput_yields w req now)).bind fun input _ => ?_
  refine calls_ask fun agentID => calls_ask fun (endpointsValid : Except Error Unit) => ?_
  refine calls_orFail fun reg hreg => calls_last ?_
  simp [AgentRegistration.newRegistration] at hreg
  obtain ⟨_, _, _, _, _, _, _, _, _, rfl⟩ := hreg
  exact fun _ _ => ⟨rfl, rfl⟩

/-! ### VerifyACME -/

theorem signPending_calls (reg : AgentRegistration) (csr : Option AgentCSR) (now : Time) :
    (signPending reg csr now).Calls (Requires G) fun _ => True := by
  cases csr with
  | none => trivial
  | some csr => exact (calls_part (signIdentityCSR_yields reg csr now)).bind fun _ _ => trivial

end

section

variable {G : Store → Prop} {reg : AgentRegistration} (w : Wiring)

/-- A failed order is saved with a copy that still waits for domain validation. -/
theorem finalizeServerOrder_calls (hG : ∀ s, G s → Known reg s) (hstatus : reg.status = .pendingValidation)
    (csr : AgentCSR) (verified : List ChallengeType) (now : Time) :
    (finalizeServerOrder w reg csr verified now).Calls (Requires G)
      fun outcome => ∀ order, outcome = .pending order → order.state ≠ .pending := by
  refine calls_check fun _ => calls_ask fun outcome => ?_
  cases outcome with
  | orderPending =>
    refine calls_orFail fun order horder => ?_
    intro _ heq
    cases heq
    simp [CertificateOrder.state_of_markIssuing horder]
  | orderFailed =>
    refine calls_orFail fun order horder => calls_run ?_ fun _ => trivial
    intro s hs
    exact ⟨hG s hs, hstatus, by simp [CertificateOrder.state_of_close horder]⟩
  | error e => trivial
  | issued cert =>
    refine calls_ask fun valid => ?_
    cases valid with
    | error text => trivial
    | ok cert => exact calls_orFail fun _ _ => nofun

/-- The copy that `VerifyACME` commits waits for its records, and its order is closed. -/
theorem finishACME_calls (hG : ∀ s, G s → Known reg s) (server : Option (ByocServerCertificate × AgentCSR))
    (now : Time) : (finishACME reg server now).Calls (Requires G) fun _ => True := by
  refine calls_find fun identityCSR => (signPending_calls reg identityCSR now).bind fun identity _ => ?_
  refine calls_orFail fun order horder => calls_orFail fun advanced hadvanced => ?_
  have hclosed : order.state ≠ .pending := by
    split at horder
    · rename_i hzero
      cases horder
      simp only [CertificateOrder.isZero, decide_eq_true_eq] at hzero
      simp [hzero.2.1]
    · simp [CertificateOrder.state_of_close horder]
  obtain ⟨_, rfl⟩ := AgentRegistration.transitionTo_eq_ok_iff.mp hadvanced
  exact calls_run (fun s hs => ⟨hG s hs, rfl, hclosed⟩) fun _ => trivial

end

/-! ### Reading the registration to work on -/

section

variable {s : Store} {β : Type} {Q : β → Store → Prop} {reg : AgentRegistration} {agentID : String}

/-- What an operation learns when it reads a registration. -/
structure Fresh (agentID : String) (reg : AgentRegistration) (s : Store) : Prop where
  known : Known reg s
  agent : reg.agentID = agentID
  waiting : reg.status = .pendingDNS → reg.certOrder.state ≠ .pending
  settled : reg.certOrder.state ≠ .pending → Settled reg s
  revoked : reg.status = .revoked → Revoked agentID s

theorem Fresh.of_stored {row : AgentRow} (hinv : Inv s)
    (hrow : (reg.id, row) ∈ s.agents.rows) (hdomain : row.toDomain reg.id = reg)
    (hagent : row.agentID = agentID) : Fresh agentID reg s := by
  have hstatus : row.status = reg.status := congrArg AgentRegistration.status hdomain
  have horder : row.certOrder = reg.certOrder := congrArg AgentRegistration.certOrder hdomain
  constructor
  · exact .of_stored hrow hdomain
  · exact (congrArg AgentRegistration.agentID hdomain).symm.trans hagent
  · rw [← hstatus, ← horder]
    exact (hinv.sound _ _ hrow).pendingDNS
  · rw [← horder]
    exact fun h => ⟨row, hrow, h⟩
  · rw [← hstatus]
    exact fun h => ⟨reg.id, row, hrow, hagent, h⟩

/-- What was learnt stays true, and does not depend on the parts that have tables of their own. -/
theorem Fresh.evolves {t : Store} (hst : Evolves s t)
    (h : Fresh agentID reg s) (endpoints : List String) (serverCert : Option ByocServerCertificate) :
    Fresh agentID { reg with endpoints, serverCert } t where
  known := h.known.evolves hst
  agent := h.agent
  waiting := h.waiting
  settled := fun horder => (h.settled horder).evolves hst
  revoked := fun hstatus => (h.revoked hstatus).evolves hst

theorem safe_find {f : r.Result → Program β}
    (h : ∀ t a, Evolves s t → (f a).Safe discipline Q t) : (find r >>= f).Safe discipline Q s :=
  Safe.perform fun _ _ _ => ⟨trivial, fun _ a u hsu _ _ => h u a hsu⟩

theorem safe_tryFind {f : Except Error r.Result → Program β}
    (h : ∀ t a, Evolves s t → (f a).Safe discipline Q t) : (tryFind r >>= f).Safe discipline Q s :=
  Safe.attempt (fun _ _ _ => trivial) fun t a hst _ => h t a hst

/-- A step at the end of a program. -/
theorem safe_last {Q : c.Reply → Store → Prop} (hpre : ∀ t, Evolves s t → Pre c t)
    (hpost : ∀ ambient t a u, c.exec ambient t = .ok (a, u) → Q a u) : (run c).Safe discipline Q s :=
  fun t hst _ => ⟨hpre t hst, fun ambient a u hexec => hpost ambient t a u hexec, fun _ => trivial⟩

theorem safe_findByAgentID {f : AgentRegistration → Program β}
    (h : ∀ t reg, Fresh agentID reg t → (f reg).Safe discipline Q t) :
    (find (.findByAgentID agentID) >>= f).Safe discipline Q s := by
  refine Safe.perform fun t hst hinv => ⟨trivial, ?_⟩
  intro input reg u hsu hinv' hexec
  obtain ⟨rfl, row, hrow, hdomain, hagent⟩ := Store.findByAgentID_stored hexec
  exact h t reg (.of_stored hinv hrow hdomain hagent)

/-- A program that only builds on a copy of a registration is safe once the copy has been read. -/
theorem safe_of_known {p : Program β} (hknown : Known reg s)
    (h : p.Calls (Requires (Known reg)) fun _ => True) : p.Safe discipline (fun _ _ => True) s :=
  Safe.of_calls (fun _ _ => Known.evolves) hknown h

/-- A program whose calls require nothing is safe everywhere. -/
theorem safe_of_calls {p : Program β} {R : β → Prop} (h : p.Calls (Requires fun _ => True) R) :
    p.Safe discipline (fun a _ => R a) s :=
  Safe.of_calls (fun _ _ _ _ => trivial) trivial h

end

section

variable {s : Store} (w : Wiring)

theorem verifyACME_safe (agentID : String) : (verifyACME w agentID).Safe discipline (fun _ _ => True) s := by
  refine Safe.query fun now => safe_findByAgentID fun t reg hfresh => ?_
  refine safe_of_known hfresh.known ((calls_part (ensureHostNotTakenByOther_reaches reg)).bind fun _ _ => ?_)
  refine calls_ite (fun _ => trivial) fun hstatus => calls_find fun endpoints => ?_
  have hwaiting : reg.status = .pendingValidation := not_not.mp hstatus
  refine (calls_part (gateOrderChallenges_yields w _ now)).bind fun gated hgated => ?_
  obtain ⟨gatedReg, verified⟩ := gated
  obtain ⟨order, rfl⟩ := hgated
  refine calls_find fun serverCSR => ?_
  -- the copy has gained endpoints, order and certificate, but its identity is the one that was read
  cases serverCSR with
  | none =>
    refine Calls.bind (finishACME_calls ?_ none now) fun _ _ => trivial
    exact fun _ hknown => hknown
  | some csr =>
    refine calls_ite (fun _ => ?_) fun _ => ?_
    · refine Calls.bind (finalizeServerOrder_calls w ?_ ?_ csr verified now) fun outcome houtcome => ?_
      · exact fun _ hknown => hknown
      · exact hwaiting
      cases outcome with
      | pending order =>
        exact calls_run (fun _ hknown => ⟨hknown, hwaiting, houtcome order rfl⟩) fun _ => trivial
      | issued cert signed =>
        refine Calls.bind (finishACME_calls ?_ (some (cert, signed)) now) fun _ _ => trivial
        exact fun _ hknown => hknown
    · refine Calls.bind (finishACME_calls ?_ none now) fun _ _ => trivial
      exact fun _ hknown => hknown

theorem verifyDNS_safe (agentID : String) (lane : Lane) :
    (verifyDNS w agentID lane).Safe discipline (fun _ _ => True) s := by
  refine Safe.query fun now => safe_findByAgentID fun t reg hfresh => ?_
  refine safe_of_known hfresh.known ((calls_part (ensureHostNotTakenByOther_reaches reg)).bind fun _ _ => ?_)
  refine calls_ite (fun _ => trivial) fun _ => calls_check fun hwaiting => calls_find fun endpoints => ?_
  refine (calls_part (loadServerCert_reaches agentID)).bind fun serverCert _ => calls_ask fun report => ?_
  cases report with
  | error e => trivial
  | ok report =>
    refine calls_ite (fun _ => trivial) fun _ => calls_orFail fun activated hactivated => ?_
    obtain ⟨_, rfl⟩ := AgentRegistration.activate_eq_ok_iff.mp hactivated
    refine Calls.bind (calls_of_yields (sealActivationEvent_reaches w _ _ lane now) ?_) fun sealed _ => ?_
    · intro c hc s
      cases c <;> trivial
    refine (calls_part (revokeConflictLoserCertsAtCA_reaches _ _)).bind fun _ _ => ?_
    exact calls_run (fun _ hknown => ⟨hknown, rfl, hfresh.waiting hwaiting⟩) fun _ => trivial

end

/-! ### Revoke -/

section

variable {s : Store} {agentID : String} {reg : AgentRegistration}

theorem sweepRevokedAgentCerts_calls {G : Store → Prop} (agentID : String) :
    (sweepRevokedAgentCerts agentID).Calls (Requires G) fun _ => True := by
  refine calls_find fun certs => calls_ite (fun _ => ?_) fun _ => trivial
  exact (calls_part (revokeIdentityCertsAtCA_reaches certs _)).bind fun _ _ => calls_last fun _ _ => trivial

/-- A cancellation that commits leaves the registration revoked. -/
theorem commitCancellation_revoked {t : Store} {u : Unit} {certs : List StoredCertificate}
    (h : Transactions.commitCancellation reg certs s = .ok (u, t)) (hknown : Known reg s)
    (hstatus : reg.status = .revoked) : Revoked reg.agentID t := by
  obtain ⟨_, _, hsave, hcerts⟩ := Tx.run_discard_bind.mp h
  obtain ⟨_, rfl, _⟩ := Store.saveAgent_stored hsave hknown.id_ne_zero
  rw [Store.revokeCertificates_eq] at hcerts
  obtain rfl := (Prod.mk.inj (Except.ok.inj hcerts)).2
  obtain ⟨row, hrow, hagent, _⟩ := hknown
  exact ⟨reg.id, row.overwrite reg, Store.mem_putAgent.mpr ⟨row, hrow, by simp⟩, hagent, hstatus⟩

/-- A pending registration is cancelled only when its order has been settled. -/
theorem cancelPending_safe (hfresh : Fresh agentID reg s) (reason : RevocationReason) :
    (cancelPending reg reason).Safe discipline (fun _ => Revoked agentID) s := by
  refine Safe.lift fun _ _ => Safe.lift fun cancelled hcancel => ?_
  obtain ⟨hpending, hwaits, rfl⟩ := AgentRegistration.cancel_eq_ok_iff.mp hcancel
  have horder : reg.certOrder.state ≠ .pending := by
    cases hstatus : reg.status with
    | pendingValidation => exact fun hstate => hwaits ⟨hstatus, hstate⟩
    | pendingDNS => exact hfresh.waiting hstatus
    | active | deprecated | revoked | failed | expired => simp [hstatus, RegistrationStatus.isPending] at hpending
  refine safe_find fun t certs hst => ?_
  refine Safe.bind (safe_of_calls (calls_part (revokeIdentityCertsAtCA_reaches _ reason))) fun _ u htu _ => ?_
  have hsu : Evolves s u := .trans _ _ _ hst htu
  refine Safe.perform fun v huv hinv => ?_
  have hsv : Evolves s v := .trans _ _ _ hsu huv
  have hknown : Known reg v := hfresh.known.evolves hsv
  refine ⟨⟨hknown, rfl, horder, (hfresh.settled horder).evolves hsv⟩, ?_⟩
  intro _ _ x _ _ hexec
  have hrevoked := commitCancellation_revoked hexec hknown rfl
  exact hfresh.agent ▸ hrevoked

/-- Whichever way it takes, a `Revoke` that succeeds leaves the registration revoked. -/
theorem revoke_safe (reason : RevocationReason) (lane : Lane) :
    (revoke agentID reason lane).Safe discipline (fun _ => Revoked agentID) s := by
  refine Safe.query fun now => safe_findByAgentID fun t reg hfresh => safe_tryFind fun u endpoints htu => ?_
  refine Safe.bind (safe_of_calls (calls_part (hydrateServerCert_yields _))) fun hydrated v huv hhydrated => ?_
  obtain ⟨serverCert, rfl⟩ := hhydrated
  replace hfresh := hfresh.evolves (.trans _ _ _ htu huv) (endpoints.toOption.getD []) serverCert
  split
  · rename_i hstatus
    refine Safe.bind (safe_of_calls (sweepRevokedAgentCerts_calls _)) fun _ x hvx _ => ?_
    exact (hfresh.revoked hstatus).evolves hvx
  · split
    · exact cancelPending_safe hfresh reason
    · refine Safe.lift fun _ _ => safe_find fun x certs _ => ?_
      refine Safe.bind (safe_of_calls (calls_part (revokeIdentityCertsAtCA_reaches _ reason))) fun _ _ _ _ => ?_
      refine safe_last (fun _ _ => trivial) fun ambient y _ z hexec => ?_
      have hrevoked := (commitRevocation_effect hexec).2
      exact hfresh.agent ▸ hrevoked

end

/-! ### Delivery -/

section

variable {G : Store → Prop}

theorem recordFailure_calls (id : Nat) (row : OutboxRow) (token reason : String) (permanent : Bool) :
    (recordFailure id row token reason permanent).Calls (Requires G) fun _ => True :=
  Calls.attempt (fun _ _ => trivial) fun _ => trivial

theorem reject_calls (id : Nat) (row : OutboxRow) (token reason : String) (park : Bool) :
    (reject id row token reason park).Calls (Requires G) fun _ => True :=
  calls_ite (fun _ => recordFailure_calls _ _ _ _ _)
    fun _ => Calls.attempt (fun _ _ => trivial) fun _ => trivial

theorem process_calls (id : Nat) (row : OutboxRow) (token : String) :
    (process id row token).Calls (Requires G) fun _ => True := by
  refine calls_ite (fun _ => reject_calls _ _ _ _ _) fun _ => calls_ask fun outcome => ?_
  cases outcome with
  | permanent text => exact reject_calls _ _ _ _ _
  | transient text => exact recordFailure_calls _ _ _ _ _
  | accepted logID =>
    refine calls_ite (fun _ => recordFailure_calls _ _ _ _ _) fun hlogged => ?_
    exact Calls.attempt (fun _ _ => hlogged) fun _ => trivial

theorem deliver_calls (batchSize : Nat) : (deliver batchSize).Calls (Requires G) fun _ => True := by
  refine calls_tryFind fun events => ?_
  cases events with
  | error e => trivial
  | ok events =>
    refine Calls.forEach fun ev _ => calls_ask fun token => ?_
    refine Calls.attempt (fun _ _ => trivial) fun acquired => ?_
    rcases acquired with e | (_ | _)
    · trivial
    · trivial
    · exact process_calls _ _ _

end

/-! ### The service keeps the contract -/

/-- What the success of an operation establishes for good. -/
def Post : Op → Outcome → Store → Prop
  | .revoke agentID _ _, _, s => Revoked agentID s
  | _, _, _ => True

theorem Op.program_safe (w : Wiring) (op : Op) (s : Store) : (op.program w).Safe discipline (Post op) s := by
  have htrivial {α : Type} {p : Program α} {f : α → Outcome}
      (h : p.Calls (Requires fun _ => True) fun _ => True) :
      (p >>= fun a => pure (f a)).Safe discipline (fun _ _ => True) s :=
    Safe.bind (safe_of_calls h) fun _ _ _ _ => trivial
  -- the writes of the other operations require nothing
  have hfree (op : Op) (hwrites : ∀ c, op.writes c = true → ∀ s, Pre c s) :
      (op.program w).Safe discipline (fun _ _ => True) s :=
    safe_of_calls (calls_of_yields (program_reaches w op) hwrites)
  cases op with
  | registerAgent req => exact htrivial (registerAgent_calls w req)
  | verifyACME agentID => exact Safe.bind (verifyACME_safe w agentID) fun _ _ _ _ => trivial
  | verifyDNS agentID lane => exact Safe.bind (verifyDNS_safe w agentID lane) fun _ _ _ _ => trivial
  | revoke agentID reason lane => exact Safe.bind (revoke_safe reason lane) fun _ _ _ hrevoked => hrevoked
  | deliver batchSize => exact htrivial (deliver_calls batchSize)
  | submitIdentityCSR | submitServerCSR | submitServerCertRenewal | cancelServerCertRenewal | verifyRenewalACME
  | expireAgents | expireRenewals =>
    apply hfree
    intro c hc s
    cases c <;> trivial

/-- Every operation keeps the contract, whatever the others do in between. -/
theorem governs (w : Wiring) : discipline.Governs (service w) Post where
  init := Inv.empty
  guarantee := fun _ _ h => h
  stable := by
    intro op _ s t hst h
    cases op with
    | revoke => exact Revoked.evolves hst h
    | _ => trivial
  body := fun op s _ => op.program_safe w s

end AgentNameService.Registration
