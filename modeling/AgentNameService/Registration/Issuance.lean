/-
Purpose: How many certificates answer one signing request.  `VerifyACME` signs copies of the requests it read before it
  asked the authorities, and its transaction checks neither the requests nor the status of the registration again, so
  two overlapping calls both store what they were issued.  Where every save of `VerifyACME` finds the registration still
  waiting for its domain validation, each request is answered once.
Source: internal/ra/service/lifecycle.go, internal/adapter/store/sqlite/{certificate,agent}.go
Trusted boundary: none
-/
import AgentNameService.Foundation.Chronicle
import AgentNameService.Registration.Copies

namespace AgentNameService.Registration

open Interleaving Store Tx List Table

variable {s t : Store} {c : Call} {ambient : Ambient} {r : c.Reply} {w : Wiring} {reg : AgentRegistration}

/-! ### What is claimed, and when it holds -/

/-- Every request is answered by at most one identity certificate. -/
def OneCertificate (s : Store) : Prop :=
  ∀ id id' cert cert', (id, cert) ∈ s.certificates.rows → (id', cert') ∈ s.certificates.rows →
    cert.certificate.csrID = cert'.certificate.csrID → id = id'

/-- The commit of a `VerifyACME` call on the agent. -/
def advances (agentID : String) (k : Commit (service w)) : Bool :=
  match k.call with
  | .commitACME reg _ _ => reg.agentID == agentID
  | _ => false

/-- The server certificates that `VerifyACME` has stored for the certificate order of an agent. -/
def orderCertificates (agentID : String) (commits : List (Commit (service w))) : List (Nat × ByocRow) :=
  (commits.filter (advances agentID)).flatMap fun k => k.after.byoc.since k.before.byoc.next

/-- A save of `VerifyACME` finds the registration still waiting for its domain validation. -/
def SavesInTime : Call → Store → Prop
  | .commitACME reg _ _, s | .saveAgent reg, s =>
    ∃ stored ∈ s.agents.rows, stored.1 = reg.id ∧ stored.2.status = .pendingValidation
  | _, _ => True

instance (c : Call) (s : Store) : Decidable (SavesInTime c s) :=
  match c with
  | .commitACME .. | .saveAgent _ => inferInstanceAs (Decidable (∃ stored ∈ s.agents.rows, _))
  | .read _ | .saveCSR .. | .saveRenewal _ | .prepareActivationSeal .. | .expireLapsedPendingValidation _
  | .delivery _ | .register _ | .commitActivation .. | .commitRevocation .. | .commitCancellation ..
  | .sweepCertificates _ | .commitIdentityCSR .. | .commitServerCSR .. | .submitRenewal .. | .cancelRenewal ..
  | .commitRenewal .. => .isTrue trivial

/-! ### Registrations past their domain validation -/

/-- The registration of the agent does not wait for its domain validation. -/
def Past (agentID : String) (s : Store) : Prop :=
  ∃ id row, (id, row) ∈ s.agents.rows ∧ row.agentID = agentID ∧ row.status ≠ .pendingValidation

theorem Past.kept {agentID : String} (h : Effect s t c) (hpre : Pre c s) (htime : SavesInTime c s)
    (hs : Past agentID s) : Past agentID t := by
  obtain ⟨id, row, hrow, hagent, hstatus⟩ := hs
  rcases h.changes with ⟨reg, rfl, _, hagents⟩ | ⟨g, hg, hchange⟩
  · refine ⟨id, row, ?_, hagent, hstatus⟩
    rw [hagents]
    exact mem_insert.mpr (.inl hrow)
  · have hc := hchange id row hrow
    refine ⟨id, g id row, (hg id _).mpr ⟨row, hrow, rfl⟩, (hc.becomes hpre).agentID.trans hagent, ?_⟩
    generalize g id row = row' at hc
    cases hc with
    | same => exact hstatus
    | saved hkey =>
      obtain ⟨⟨_, own⟩, hown, rfl, hpending⟩ := htime
      subst hkey
      exact absurd (mem_unique hown hrow ▸ hpending) hstatus
    | advanced | activated | cancelled => simp [AgentRow.overwrite, hpre.2.1]
    | outrun | revoked | lapsed => simp [revokedRow]

/-- A registration whose stored row waits for its domain validation is not past it. -/
theorem not_past (hinv : Inv s) (hknown : Known reg s)
    (hpending : ∃ stored ∈ s.agents.rows, stored.1 = reg.id ∧ stored.2.status = .pendingValidation) :
    ¬ Past reg.agentID s := by
  rintro ⟨id, row, hrow, hagent, hstatus⟩
  obtain ⟨own, hown, hownAgent, _⟩ := hknown
  obtain ⟨⟨key, own'⟩, hown', hkey, hwaiting⟩ := hpending
  dsimp only at hkey
  subst hkey
  obtain rfl := mem_unique hown hown'
  obtain ⟨_, rfl⟩ := hinv.unique hrow hown (hagent.trans hownAgent.symm)
  exact hstatus hwaiting

/-- The commit of `VerifyACME` takes the registration past its domain validation. -/
theorem past_of_advanced (hknown : Known reg s) (hstatus : reg.status = .pendingDNS)
    (hagents : t.agents = (putAgent reg s).agents) : Past reg.agentID t := by
  obtain ⟨row, hrow, hagent, _⟩ := hknown
  refine ⟨reg.id, row.overwrite reg, ?_, hagent, ?_⟩
  · rw [hagents, mem_putAgent]
    exact ⟨row, hrow, by simp⟩
  · simp [AgentRow.overwrite, hstatus]

/-! ### What one commit stores -/

/-- `VerifyACME` stores at most one server certificate. -/
theorem commitACME_byoc {identity : Option (AgentCSR × StoredCertificate)}
    {server : Option (ByocServerCertificate × AgentCSR)} {u : Unit}
    (h : Transactions.commitACME reg identity server s = .ok (u, t)) :
    t.byoc = s.byoc ∨ ∃ row, t.byoc = s.byoc.insert row := by
  have hcsr {s t : Store} {csr : AgentCSR} {u : Unit} (h : saveCSR reg.agentID csr s = .ok (u, t)) :
      t.byoc = s.byoc := by
    have hexec : (Statement.saveCSR reg.agentID csr).exec s = .ok ((), t) := h
    exact (Statement.leaves hexec).byoc_eq nofun
  obtain ⟨_, v, hidentity, h⟩ := run_bind_eq_ok_iff.mp h
  have hv : v.byoc = s.byoc := by
    rcases run_optional hidentity with ⟨_, rfl⟩ | ⟨issued, _, hstep⟩
    · rfl
    · obtain ⟨_, x, hsigned, hcert⟩ := run_bind_eq_ok_iff.mp hstep
      have hx : x.byoc = s.byoc := hcsr hsigned
      rw [saveIdentityCertificate_stored hcert]
      exact hx
  obtain ⟨_, x, hserver, hsave⟩ := run_bind_eq_ok_iff.mp h
  have ht : t.byoc = x.byoc := by
    have hexec : (Statement.saveAgent reg).exec x = .ok ((), t) := hsave
    exact (Statement.leaves hexec).byoc_eq nofun
  rw [ht, ← hv]
  rcases run_optional hserver with ⟨_, rfl⟩ | ⟨issued, _, hstep⟩
  · exact .inl rfl
  · obtain ⟨_, y, hbyoc, hsigned⟩ := run_bind_eq_ok_iff.mp hstep
    rw [hcsr hsigned, saveByoc_stored hbyoc]
    exact .inr ⟨_, rfl⟩

theorem orderCertificates_append (agentID : String) (commits : List (Commit (service w))) (k : Commit (service w)) :
    orderCertificates agentID (commits ++ [k]) = orderCertificates agentID commits ++
      if advances agentID k then k.after.byoc.since k.before.byoc.next else [] := by
  unfold orderCertificates
  rw [filter_append, flatMap_append]
  by_cases hk : advances agentID k = true <;> simp [hk]

/-! ### The invariant -/

/-- What one certificate per request rests on: an id stands for one request, a certificate answers a request of its
agent, and a registration that has a certificate is past its domain validation. -/
structure Issued (s : Store) (commits : List (Commit (service w))) : Prop where
  distinct : CSRsDistinct s
  covered : ∀ id cert, (id, cert) ∈ s.certificates.rows → Requested cert.agentID cert.certificate.csrID s
  past : ∀ id cert, (id, cert) ∈ s.certificates.rows → Past cert.agentID s
  single : OneCertificate s
  once : ∀ agentID, (orderCertificates agentID commits).length ≤ 1
  ordered : ∀ agentID, orderCertificates agentID commits ≠ [] → Past agentID s

/-- A certificate that a step stores answers a request of its agent, which no certificate has answered before. -/
theorem Issued.stored {commits : List (Commit (service w))} {id : Nat} {cert : CertificateRow} {u : Store}
    {stored : StoredCertificate} (hs : Issued s commits) (hinv : Inv s) (hpre : Pre c s) (hhands : Hands c s)
    (hfresh : FreshIDs c s) (htime : SavesInTime c s) (hexec : c.exec ambient s = .ok (r, t))
    (hcert : (id, cert) ∈ t.certificates.rows) (hnew : s.certificates.next ≤ id)
    (hst : c.Performs u (.saveIdentityCertificate cert.agentID stored)) (hcsr : stored.csrID = cert.certificate.csrID) :
    Requested cert.agentID cert.certificate.csrID t ∧ Past cert.agentID t ∧
      ∀ k old, (k, old) ∈ s.certificates.rows → old.certificate.csrID ≠ cert.certificate.csrID := by
  have heffect := effect_of_exec hinv hpre hexec
  have hunstored (hsame : t.certificates = s.certificates) : False := by
    rw [hsame] at hcert
    exact absurd (s.certificates.bounded _ hcert).2 (Nat.not_lt.mpr hnew)
  rw [← hcsr]
  generalize cert.agentID = agentID at hst ⊢
  cases hst with
  | @advanceIdentityCertificate _ reg server signed =>
    obtain ⟨hanswered, hrequested⟩ := hhands.1 signed stored rfl
    rw [hanswered.2]
    have hagents := (commitACME_stored hexec hpre.1.id_ne_zero).2.1
    refine ⟨hrequested.kept hexec, past_of_advanced hpre.1 hpre.2.1 hagents, ?_⟩
    intro k old hold heq
    have hagent := hs.distinct.agentID_eq (heq ▸ hs.covered k old hold) hrequested
    exact not_past hinv hpre.1 htime (hagent ▸ hs.past k old hold)
  | @rotateCertificate _ reg signed _ dnsRecords lane =>
    have hanswered : Answered signed stored := hhands
    have hunused : Unused signed.csrID s := hfresh
    rw [hanswered.2]
    refine ⟨requested_of_rotation hunused hexec, ?_, ?_⟩
    · cases heffect with
      | quiet _ hsame => exact (hunstored hsame).elim
      | @rotated _ _ _ _ _ key row hrow hagent hactive hagents =>
        refine ⟨key, row, hagents ▸ hrow, hagent, ?_⟩
        rw [hactive]
        exact nofun
    · intro k old hold heq
      exact not_requested_of_unused hunused (heq ▸ hs.covered k old hold)

theorem Issued.committed {op : Op} {commits : List (Commit (service w))} (hs : Issued s commits) (hinv : Inv s)
    (hpre : Pre c s) (hhands : Hands c s) (hfresh : FreshIDs c s) (htime : SavesInTime c s)
    (hexec : c.exec ambient s = .ok (r, t)) : Issued t (commits ++ [⟨op, c, s, t⟩]) := by
  have heffect := effect_of_exec hinv hpre hexec
  obtain ⟨_, horigin⟩ := certified_of_exec hexec
  -- the certificates of one agent's order: those before the step, and what a commit of `VerifyACME` adds
  have horder (agentID : String) : (orderCertificates agentID (commits ++ [⟨op, c, s, t⟩])).length ≤ 1 ∧
      (orderCertificates agentID (commits ++ [⟨op, c, s, t⟩]) ≠ [] → Past agentID t) := by
    rw [orderCertificates_append]
    by_cases hk : advances agentID (⟨op, c, s, t⟩ : Commit (service w)) = true
    · rw [if_pos hk]
      unfold advances at hk
      split at hk
      · rename_i reg identity server hcall
        dsimp only at hcall
        subst hcall
        obtain rfl := beq_iff_eq.mp hk
        have hnone : orderCertificates reg.agentID commits = [] := by
          by_contra hsome
          exact not_past hinv hpre.1 htime (hs.ordered _ hsome)
        rw [hnone, nil_append]
        have hpast : Past reg.agentID t :=
          past_of_advanced hpre.1 hpre.2.1 (commitACME_stored hexec hpre.1.id_ne_zero).2.1
        rcases commitACME_byoc hexec with hsame | ⟨row, hinsert⟩
        · simp [hsame]
        · simp [hinsert, hpast]
      · cases hk
    · rw [if_neg hk, append_nil]
      exact ⟨hs.once agentID, fun hsome => (hs.ordered agentID hsome).kept heffect hpre htime⟩
  refine ⟨hs.distinct.kept hexec, ?_, ?_, ?_, fun agentID => (horder agentID).1, fun agentID => (horder agentID).2⟩
  · intro id cert hcert
    rcases horigin id cert hcert with ⟨old, hold, hagent, hcsr⟩ | ⟨hnew, u, stored, hst, hcsr⟩
    · rw [← hagent, ← hcsr]
      exact (hs.covered id old hold).kept hexec
    · exact (hs.stored hinv hpre hhands hfresh htime hexec hcert hnew hst hcsr).1
  · intro id cert hcert
    rcases horigin id cert hcert with ⟨old, hold, hagent, _⟩ | ⟨hnew, u, stored, hst, hcsr⟩
    · rw [← hagent]
      exact (hs.past id old hold).kept heffect hpre htime
    · exact (hs.stored hinv hpre hhands hfresh htime hexec hcert hnew hst hcsr).2.1
  · intro id id' cert cert' hcert hcert' heq
    rcases horigin id cert hcert with ⟨old, hold, _, hcsr⟩ | ⟨hnew, u, stored, hst, hcsr⟩ <;>
      rcases horigin id' cert' hcert' with ⟨old', hold', _, hcsr'⟩ | ⟨hnew', u', stored', hst', hcsr'⟩
    · exact hs.single id id' old old' hold hold' (hcsr.trans (heq.trans hcsr'.symm))
    · have hunanswered := (hs.stored hinv hpre hhands hfresh htime hexec hcert' hnew' hst' hcsr').2.2
      exact absurd (hcsr.trans heq) (hunanswered id old hold)
    · have hunanswered := (hs.stored hinv hpre hhands hfresh htime hexec hcert hnew hst hcsr).2.2
      exact absurd (hcsr'.trans heq.symm) (hunanswered id' old' hold')
    · exact (heffect.certificate_key hcert hnew).trans (heffect.certificate_key hcert' hnew').symm

/-! ### Every run -/

theorem Issued.empty : Issued (w := w) Store.empty [] := by
  constructor <;> simp [CSRsDistinct, OneCertificate, orderCertificates, Store.empty]

/-- In every run in which each save of `VerifyACME` finds the registration still waiting for its domain validation, and
new requests get unused ids: every request id occurs in at most one stored identity certificate, and `VerifyACME` stores
at most one server certificate for the order of a registration. -/
theorem one_certificate_per_request (w : Wiring) {x : Chronicle (service w)}
    (h : Chronicled (service w) (fun c s => FreshIDs c s ∧ SavesInTime c s) x) :
    OneCertificate x.state ∧ ∀ agentID, (orderCertificates agentID x.commits).length ≤ 1 := by
  have hissued : Issued x.state x.commits := by
    apply (copyWatch w).chronicled (governs w) Kept.empty (fun i op s _ _ => Copies.program_heeds op) Issued.empty _ h
    intro i op c ambient s r t commits hinv hpre _ hhands hallows hs hexec
    exact hs.committed hinv hpre hhands hallows.1 hallows.2 hexec
  exact ⟨hissued.single, hissued.once⟩

/-! ### Runs -/

/-- A registration with an identity request and a request for a server certificate. -/
def signingRequest : RegisterRequest :=
  { sampleRequest with serverCsrPEM := "server-csr", serverCertificatePEM := "" }

/-- A provider that orders and issues at once; new ids are the given one. -/
def issuingWorld (id : String) : (q : Query) → q.Answer
  | .uuid => id
  | .createOrder .. => .ok (some
      { orderRef := "order-1", state := .pending, challenges := [⟨.dns01, "token", "", "", "", ""⟩] })
  | .finalizeOrder _ => .issued ⟨"server-cert", "", "", "", 0, 0⟩
  | q => grantingWorld id "log-1" q

/-- Let a thread run in that world, as long as its calls are admitted. -/
def issue (admits : Call → Store → Bool) (id : String) (x : Chronicle (service {})) (thread moves : Nat) :
    Chronicle (service {}) :=
  x.drive admits thread grantingAmbient (issuingWorld id) moves

theorem issue_chronicled {allows : Call → Store → Prop} {admits : Call → Store → Bool} {x : Chronicle (service {})}
    (hadmits : ∀ c s, admits c s = true → allows c s) (h : Chronicled (service {}) allows x) (id : String)
    (thread moves : Nat) : Chronicled (service {}) allows (issue admits id x thread moves) :=
  h.drive hadmits _ _ _ _

/-- One registration has been made; its two requests have ids of their own. -/
def signingRegistered (admits : Call → Store → Bool) : Chronicle (service {}) :=
  let requested := issue admits "csr-1" ((Chronicle.start _).spawn (.registerAgent signingRequest)) 0 5
  issue admits "agent-1" (issue admits "csr-2" requested 0 3) 0 10

theorem signingRegistered_chronicled {allows : Call → Store → Prop} {admits : Call → Store → Bool}
    (hadmits : ∀ c s, admits c s = true → allows c s) : Chronicled (service {}) allows (signingRegistered admits) := by
  have hrequested := issue_chronicled hadmits
    ((Chronicled.start (S := service {})).spawn (.registerAgent signingRequest)) "csr-1" 0 5
  exact issue_chronicled hadmits (issue_chronicled hadmits hrequested "csr-2" 0 3) "agent-1" 0 10

/-- Two `VerifyACME` calls, one after the other. -/
def issuedOnce : Chronicle (service {}) :=
  let admits : Call → Store → Bool := fun c s => decide (FreshIDs c s ∧ SavesInTime c s)
  let first := issue admits "log-1" ((signingRegistered admits).spawn (.verifyACME "agent-1")) 1 30
  issue admits "log-1" (first.spawn (.verifyACME "agent-1")) 2 30

theorem issuedOnce_chronicled : Chronicled (service {}) (fun c s => FreshIDs c s ∧ SavesInTime c s) issuedOnce := by
  have hadmits (c : Call) (s : Store) (h : decide (FreshIDs c s ∧ SavesInTime c s) = true) :
      FreshIDs c s ∧ SavesInTime c s := of_decide_eq_true h
  have hfirst := issue_chronicled hadmits
    ((signingRegistered_chronicled hadmits).spawn (.verifyACME "agent-1")) "log-1" 1 30
  exact issue_chronicled hadmits (hfirst.spawn (.verifyACME "agent-1")) "log-1" 2 30

set_option maxRecDepth 20000 in
/-- The first call stores both certificates, the second one nothing. -/
theorem one_certificate_per_request_issuedOnce : issuedOnce.state.certificates.rows.length = 1 ∧
    orderCertificates "agent-1" issuedOnce.commits ≠ [] ∧ OneCertificate issuedOnce.state ∧
    ∀ agentID, (orderCertificates agentID issuedOnce.commits).length ≤ 1 :=
  ⟨by decide +kernel, by decide +kernel, one_certificate_per_request {} issuedOnce_chronicled⟩

/-- A first `VerifyACME` has its certificates and is about to commit; a second one commits; the first one commits. -/
def issuedTwice : Chronicle (service {}) :=
  let admits : Call → Store → Bool := fun c s => decide (FreshIDs c s)
  let first := issue admits "log-1" ((signingRegistered admits).spawn (.verifyACME "agent-1")) 1 10
  let second := issue admits "log-1" (first.spawn (.verifyACME "agent-1")) 2 30
  issue admits "log-1" second 1 10

theorem issuedTwice_chronicled : Chronicled (service {}) FreshIDs issuedTwice := by
  have hadmits (c : Call) (s : Store) (h : decide (FreshIDs c s) = true) : FreshIDs c s := of_decide_eq_true h
  have hfirst := issue_chronicled hadmits
    ((signingRegistered_chronicled hadmits).spawn (.verifyACME "agent-1")) "log-1" 1 10
  have hsecond := issue_chronicled hadmits (hfirst.spawn (.verifyACME "agent-1")) "log-1" 2 30
  exact issue_chronicled hadmits hsecond "log-1" 1 10

set_option maxRecDepth 20000 in
theorem issuedTwice_certificates :
    issuedTwice.state.certificates.rows.map (fun row => (row.1, row.2.certificate.csrID)) =
      [(1, "csr-1"), (2, "csr-1")] ∧ (orderCertificates "agent-1" issuedTwice.commits).length = 2 := by decide +kernel

/-- Two overlapping `VerifyACME` calls: the identity request is answered by two stored certificates, and two server
certificates are stored for the order. -/
theorem two_certificates_for_one_request : ∃ x : Chronicle (service {}), Chronicled (service {}) FreshIDs x ∧
    ¬ OneCertificate x.state ∧ ¬ (orderCertificates "agent-1" x.commits).length ≤ 1 := by
  obtain ⟨hcertificates, horder⟩ := issuedTwice_certificates
  refine ⟨issuedTwice, issuedTwice_chronicled, ?_, ?_⟩
  · intro hone
    have hmem (id : Nat) (h : (id, "csr-1") ∈ [(1, "csr-1"), (2, "csr-1")]) :
        ∃ cert, (id, cert) ∈ issuedTwice.state.certificates.rows ∧ cert.certificate.csrID = "csr-1" := by
      rw [← hcertificates] at h
      obtain ⟨⟨key, cert⟩, hcert, heq⟩ := mem_map.mp h
      obtain ⟨rfl, hcsr⟩ := Prod.mk.inj heq
      exact ⟨cert, hcert, hcsr⟩
    obtain ⟨cert, hcert, hcsr⟩ := hmem 1 (by simp)
    obtain ⟨cert', hcert', hcsr'⟩ := hmem 2 (by simp)
    exact absurd (hone 1 2 cert cert' hcert hcert' (hcsr.trans hcsr'.symm)) (by decide)
  · rw [horder]
    decide

end AgentNameService.Registration
