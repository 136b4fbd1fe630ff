/-
Purpose: Signing requests and the identity certificates that answer them, across every step of the service.  A request
  keeps its id and its agent, an id stands for one request, and a step stores at most one identity certificate.
Source: internal/adapter/store/sqlite/certificate.go, internal/ra/service/{registration,lifecycle,renewal}.go
Trusted boundary: none
-/
import AgentNameService.Registration.Statements

namespace AgentNameService.Registration

open Store Transactions Table Tx List

variable {s t : Store} {c : Call} {ambient : Ambient} {r : c.Reply} {st : Statement} {agentID : String}
variable {csrID : String}

/-! ### Requests on file -/

/-- A request of the agent is on file under the id. -/
def Requested (agentID csrID : String) (s : Store) : Prop :=
  ∃ id row, (id, row) ∈ s.csrs.rows ∧ row.agentID = agentID ∧ row.csr.csrID = csrID

/-- No request is on file under the id. -/
def Unused (csrID : String) (s : Store) : Prop :=
  ∀ stored ∈ s.csrs.rows, stored.2.csr.csrID ≠ csrID

instance (csrID : String) (s : Store) : Decidable (Unused csrID s) :=
  inferInstanceAs (Decidable (∀ stored ∈ s.csrs.rows, _))

/-- An id stands for one request. -/
def CSRsDistinct (s : Store) : Prop :=
  ∀ id id' row row', (id, row) ∈ s.csrs.rows → (id', row') ∈ s.csrs.rows → row.csr.csrID = row'.csr.csrID → id = id'

/-- The ids of the requests that a call submits have not been used: they are random. -/
def FreshIDs : Call → Store → Prop
  | .register reg, s => ∀ csr ∈ reg.identityCSR.toList ++ reg.serverCSR.toList, Unused csr.csrID s
  | .commitIdentityCSR _ signed .., s => Unused signed.csrID s
  | .commitServerCSR _ csr, s => Unused csr.csrID s
  | .submitRenewal _ csr _, s => ∀ submitted ∈ csr.toList, Unused submitted.csrID s
  | _, _ => True

instance (c : Call) (s : Store) : Decidable (FreshIDs c s) :=
  match c with
  | .register reg => inferInstanceAs (Decidable (∀ csr ∈ reg.identityCSR.toList ++ reg.serverCSR.toList, _))
  | .commitIdentityCSR _ signed .. => inferInstanceAs (Decidable (Unused signed.csrID s))
  | .commitServerCSR _ csr => inferInstanceAs (Decidable (Unused csr.csrID s))
  | .submitRenewal _ csr _ => inferInstanceAs (Decidable (∀ submitted ∈ csr.toList, _))
  | .read _ | .saveAgent _ | .saveCSR .. | .saveRenewal _ | .prepareActivationSeal ..
  | .expireLapsedPendingValidation _ | .delivery _ | .commitACME .. | .commitActivation .. | .commitRevocation ..
  | .commitCancellation .. | .sweepCertificates _ | .cancelRenewal .. | .commitRenewal .. => .isTrue trivial

theorem Requested.left (hleaves : st.Leaves s t)
    (hs : Requested agentID csrID s) : Requested agentID csrID t := by
  obtain ⟨id, row, hrow, hagent, hcsr⟩ := hs
  cases hleaves with
  | csrSaved =>
    refine ⟨id, _, mem_update.mpr ⟨row, hrow, rfl⟩, ?_⟩
    split <;> exact ⟨hagent, hcsr⟩
  | csrInserted => exact ⟨id, row, mem_insert.mpr (.inl hrow), hagent, hcsr⟩
  | agentInserted | agentSaved | agentsLapsed | endpoints | certificateInserted | certificateStatus | byocInserted
  | renewalInserted | renewalSaved | renewalDeleted | sealKept | sealElected | outbox =>
    exact ⟨id, row, hrow, hagent, hcsr⟩

/-- A request stays on file. -/
theorem Requested.kept (h : c.exec ambient s = .ok (r, t))
    (hs : Requested agentID csrID s) : Requested agentID csrID t :=
  (c.performed ambient s r t h).keeps (fun _ _ _ _ hleaves => Requested.left hleaves) hs

theorem CSRsDistinct.left (hleaves : st.Leaves s t) (hs : CSRsDistinct s) : CSRsDistinct t := by
  intro id id' row row' hrow hrow' heq
  cases hleaves with
  | csrSaved =>
    obtain ⟨old, hold, rfl⟩ := mem_update.mp hrow
    obtain ⟨old', hold', rfl⟩ := mem_update.mp hrow'
    apply hs id id' old old' hold hold'
    split at heq <;> split at heq <;> exact heq
  | csrInserted hfresh =>
    rcases mem_insert.mp hrow with hold | hnew <;> rcases mem_insert.mp hrow' with hold' | hnew'
    · exact hs id id' row row' hold hold' heq
    · obtain ⟨_, rfl⟩ := Prod.mk.inj hnew'
      exact absurd heq (hfresh id row hold)
    · obtain ⟨_, rfl⟩ := Prod.mk.inj hnew
      exact absurd heq.symm (hfresh id' row' hold')
    · exact (Prod.mk.inj hnew).1.trans (Prod.mk.inj hnew').1.symm
  | agentInserted | agentSaved | agentsLapsed | endpoints | certificateInserted | certificateStatus | byocInserted
  | renewalInserted | renewalSaved | renewalDeleted | sealKept | sealElected | outbox =>
    exact hs id id' row row' hrow hrow' heq

theorem CSRsDistinct.kept (h : c.exec ambient s = .ok (r, t)) (hs : CSRsDistinct s) : CSRsDistinct t :=
  (c.performed ambient s r t h).keeps (fun _ _ _ _ hleaves => CSRsDistinct.left hleaves) hs

/-- One id is not on file for two agents. -/
theorem CSRsDistinct.agentID_eq {agentID' : String} (hs : CSRsDistinct s)
    (h : Requested agentID csrID s) (h' : Requested agentID' csrID s) : agentID = agentID' := by
  obtain ⟨id, row, hrow, rfl, hcsr⟩ := h
  obtain ⟨id', row', hrow', rfl, hcsr'⟩ := h'
  obtain rfl := hs id id' row row' hrow hrow' (hcsr.trans hcsr'.symm)
  rw [mem_unique hrow hrow']

theorem not_requested_of_unused (hunused : Unused csrID s) : ¬ Requested agentID csrID s := by
  rintro ⟨id, row, hrow, _, hcsr⟩
  exact hunused (id, row) hrow hcsr

/-- The pending request that is found is on file for the agent. -/
theorem requested_of_latestPending {type : CSRType} {csr : AgentCSR}
    (h : s.latestPendingCSR agentID type = some csr) : Requested agentID csr.csrID s := by
  -- the fold keeps a request of the list
  have hfold {step : Option AgentCSR → AgentCSR → Option AgentCSR}
      (hstep : ∀ best csr, step best csr = some csr ∨ step best csr = best) (csrs : List AgentCSR) :
      ∀ best, csrs.foldl step best = some csr → csr ∈ csrs ∨ best = some csr := by
    induction csrs with
    | nil => exact fun _ h => .inr h
    | cons first rest ih =>
      intro best hbest
      rcases ih _ hbest with hrest | hfirst
      · exact .inl (mem_cons_of_mem _ hrest)
      · rcases hstep best first with hnew | hkept
        · rw [hnew] at hfirst
          cases hfirst
          exact .inl mem_cons_self
        · exact .inr (hkept.symm.trans hfirst)
  have hlatest := hfold (fun best _ => by
    cases best with
    | none => exact .inl rfl
    | some b => exact ite_eq_or_eq _ _ _) _ none h
  rcases hlatest with hmem | hnone
  · obtain ⟨⟨id, row⟩, hrow, rfl⟩ := mem_map.mp hmem
    obtain ⟨hstored, hpending⟩ := mem_select.mp hrow
    simp only [isPendingCSR, Bool.and_eq_true, beq_iff_eq] at hpending
    exact ⟨id, row, hstored, hpending.1.1, rfl⟩
  · cases hnone

/-- The request of a rotation is on file once it has been committed. -/
theorem requested_of_rotation {reg : AgentRegistration} {signed : AgentCSR} {stored : StoredCertificate}
    {dnsRecords : List String} {lane : Lane} {u : Unit} (hunused : Unused signed.csrID s)
    (h : commitIdentityCSR ambient reg signed stored dnsRecords lane s = .ok (u, t)) :
    Requested reg.agentID signed.csrID t := by
  obtain ⟨current, _, _, _, _, _, h⟩ := findByAgentID_bind h
  obtain ⟨_, h⟩ := run_require_bind.mp h
  obtain ⟨_, v, hsave, h⟩ := run_bind_eq_ok_iff.mp h
  have hv : v.csrs = s.csrs := by
    have hexec : (Statement.saveAgent { current with identityCSR := some signed }).exec s = .ok ((), v) := hsave
    cases Statement.leaves hexec <;> rfl
  obtain ⟨_, x, hcsr, h⟩ := run_bind_eq_ok_iff.mp h
  have hx : Requested reg.agentID signed.csrID x := by
    obtain ⟨_, id, row, hrow, hused⟩ | ⟨rfl, _⟩ := saveCSR_stored hcsr
    · rw [hv] at hrow
      exact absurd hused (hunused (id, row) hrow)
    · exact ⟨v.csrs.next, _, mem_insert.mpr (.inr rfl), rfl, rfl⟩
  have hrest : Performed (fun _ _ => True) x t := by
    refine performed_bind (saveIdentityCertificate_performed fun _ => trivial) (fun _ => ?_) x u t h
    exact enqueueCertificateRenewal_performed fun _ _ _ _ => trivial
  exact hrest.keeps (fun _ _ _ _ hleaves => Requested.left hleaves) hx

/-! ### The certificates of a step -/

/-- What the certificates after a step are: those before it, up to their status, and the ones it has stored. -/
def Certified (c : Call) (s t : Store) : Prop :=
  s.certificates.next ≤ t.certificates.next ∧ ∀ id cert, (id, cert) ∈ t.certificates.rows →
    (∃ old, (id, old) ∈ s.certificates.rows ∧ old.agentID = cert.agentID ∧
      old.certificate.csrID = cert.certificate.csrID) ∨
    s.certificates.next ≤ id ∧ ∃ u stored, c.Performs u (.saveIdentityCertificate cert.agentID stored) ∧
      stored.csrID = cert.certificate.csrID

theorem Certified.left {u : Store} (hst : c.Performs t st) (hleaves : st.Leaves t u)
    (ht : Certified c s t) : Certified c s u := by
  obtain ⟨hnext, ht⟩ := ht
  cases hleaves with
  | certificateInserted =>
    refine ⟨Nat.le_succ_of_le hnext, ?_⟩
    intro id cert hcert
    rcases mem_insert.mp hcert with hold | hnew
    · exact ht id cert hold
    · obtain ⟨rfl, rfl⟩ := Prod.mk.inj hnew
      exact .inr ⟨hnext, t, _, hst, rfl⟩
  | certificateStatus =>
    refine ⟨hnext, ?_⟩
    intro id cert hcert
    obtain ⟨old, hold, rfl⟩ := mem_update.mp hcert
    split <;> exact ht id old hold
  | agentInserted | agentSaved | agentsLapsed | endpoints | csrSaved | csrInserted | byocInserted
  | renewalInserted | renewalSaved | renewalDeleted | sealKept | sealElected | outbox => exact ⟨hnext, ht⟩

theorem certified_of_exec (h : c.exec ambient s = .ok (r, t)) : Certified c s t := by
  apply (c.performed ambient s r t h).keeps
  · intro _ _ _ hst hleaves
    exact Certified.left hst hleaves
  · exact ⟨Nat.le_refl _, fun id cert hcert => .inl ⟨cert, hcert, rfl, rfl⟩⟩

/-- A step stores at most one certificate. -/
theorem Effect.certificate_key {id : Nat} {cert : CertificateRow} (h : Effect s t c)
    (hcert : (id, cert) ∈ t.certificates.rows) (hnew : s.certificates.next ≤ id) : id = s.certificates.next := by
  have hold {old : CertificateRow} (hmem : (id, old) ∈ s.certificates.rows) : id = s.certificates.next :=
    absurd (s.certificates.bounded _ hmem).2 (Nat.not_lt.mpr hnew)
  rcases h.certificates with ⟨selects, hwithdrawn⟩ | ⟨agentID, stored, _, hstored⟩
  · rw [hwithdrawn] at hcert
    obtain ⟨old, hmem, _⟩ := mem_update.mp hcert
    exact hold hmem
  · rw [hstored] at hcert
    rcases mem_insert.mp hcert with hmem | heq
    · exact hold hmem
    · exact (Prod.mk.inj heq).1

end AgentNameService.Registration
