/-
Purpose: Proofs of domain control, as the history shows them.  A challenge is confirmed when its record or resource
  was found published for the host; a confirmation is persisted when the same call stores that it succeeded.  The
  watch ties every stored trace of a proof to such a confirmation, and says when a certificate may be asked for.
Source: internal/ra/service/{lifecycle,renewal,order_proof}.go, internal/domain/{order,renewal}.go,
  internal/adapter/store/sqlite/{agent,renewal}.go
Trusted boundary: human-reviewed model
-/
import AgentNameService.Registration.Recorded

namespace AgentNameService.Registration

open Interleaving Interleaving.Prog Store Table List

/-! ### Confirmations -/

/-- What has to be found published to confirm a challenge. -/
inductive Probe where
  | record (fqdn recordName recordValue : String)
  | resource (fqdn path content : String)
deriving DecidableEq, Repr

/-- The record or the resource of a challenge, with the defaults for a challenge that names none. -/
def Challenge.probe (fqdn : String) (ch : Challenge) : Option Probe :=
  match ch.type with
  | .dns01 => some (.record fqdn (if ch.dnsRecordName = "" then "_acme-challenge." ++ fqdn else ch.dnsRecordName)
      (if ch.dnsRecordValue = "" then ch.token else ch.dnsRecordValue))
  | .http01 => some (.resource fqdn
      (if ch.httpPath = "" then "/.well-known/acme-challenge/" ++ ch.token else ch.httpPath)
      (if ch.keyAuthorization = "" then ch.token else ch.keyAuthorization))
  | .other _ => none

section

variable {w : Wiring}

/-- The call that an entry shows to have found something published. -/
def confirmation : Entry (service w) → Option (Nat × Op × Probe)
  | .asked i op (.verifyDNSChallenge fqdn recordName recordValue) answer =>
    match answer with
    | .ok true => some (i, op, .record fqdn recordName recordValue)
    | _ => none
  | .asked i op (.verifyHTTPChallenge fqdn path content) answer =>
    match answer with
    | .ok true => some (i, op, .resource fqdn path content)
    | _ => none
  | _ => none

/-- The call has found it published. -/
def ConfirmedBy (i : Nat) (op : Op) (probe : Probe) (h : History w) : Prop :=
  ∃ entry ∈ h, confirmation entry = some (i, op, probe)

/-- The call that stores, with the registration, that domain control was proven. -/
def persistsOrder (agentID : String) : Entry (service w) → Option (Nat × Op)
  | .called i op (.saveAgent reg) _ =>
    if reg.agentID = agentID ∧ reg.certOrder.hasVerifiedChallenge = true then some (i, op) else none
  | .called i op (.commitACME reg _ _) _ =>
    if reg.agentID = agentID ∧ reg.certOrder.hasVerifiedChallenge = true then some (i, op) else none
  | _ => none

/-- The call that stores, with the renewal, that domain control was proven. -/
def persistsRenewal (id : Nat) : Entry (service w) → Option (Nat × Op)
  | .called i op (.saveRenewal r) _ => if r.id = id ∧ r.validation.status = .verified then some (i, op) else none
  | .called i op (.commitRenewal _ r _ _ _ _) _ =>
    if r.id = id ∧ r.validation.status = .verified then some (i, op) else none
  | _ => none

/-- Some call has found it published and then stored that it succeeded. -/
def PersistedBy (persists : Entry (service w) → Option (Nat × Op)) (probe : Probe) (h : History w) : Prop :=
  ∃ before entry after i op, h = before ++ entry :: after ∧ persists entry = some (i, op) ∧
    ConfirmedBy i op probe before

/-- One of the challenges was confirmed for the host, in the call itself or in one that persisted its success. -/
def Backed (persists : Entry (service w) → Option (Nat × Op)) (i : Nat) (op : Op) (fqdn : String)
    (challenges : List Challenge) (h : History w) : Prop :=
  ∃ ch ∈ challenges, ∃ probe, ch.probe fqdn = some probe ∧ (ConfirmedBy i op probe h ∨ PersistedBy persists probe h)

/-- One of the challenges was confirmed for the host in a call that persisted its success. -/
def Proven (persists : Entry (service w) → Option (Nat × Op)) (fqdn : String) (challenges : List Challenge)
    (h : History w) : Prop :=
  ∃ ch ∈ challenges, ∃ probe, ch.probe fqdn = some probe ∧ PersistedBy persists probe h

variable {h h' : History w} {i : Nat} {op : Op} {probe : Probe} {persists : Entry (service w) → Option (Nat × Op)}
  {fqdn : String} {challenges : List Challenge}

theorem ConfirmedBy.mono (hgrows : h <+: h') (hconfirmed : ConfirmedBy i op probe h) : ConfirmedBy i op probe h' := by
  obtain ⟨entry, hentry, hprobe⟩ := hconfirmed
  exact ⟨entry, hgrows.subset hentry, hprobe⟩

theorem PersistedBy.mono (hgrows : h <+: h') (hpersisted : PersistedBy persists probe h) :
    PersistedBy persists probe h' := by
  obtain ⟨rest, rfl⟩ := hgrows
  obtain ⟨before, entry, after, j, op', rfl, hentry, hconfirmed⟩ := hpersisted
  exact ⟨before, entry, after ++ rest, j, op', by simp, hentry, hconfirmed⟩

theorem Backed.mono (hgrows : h <+: h') (hbacked : Backed persists i op fqdn challenges h) :
    Backed persists i op fqdn challenges h' := by
  obtain ⟨ch, hch, probe, hprobe, hconfirmed⟩ := hbacked
  exact ⟨ch, hch, probe, hprobe, hconfirmed.imp (·.mono hgrows) (·.mono hgrows)⟩

theorem Proven.mono (hgrows : h <+: h') (hproven : Proven persists fqdn challenges h) :
    Proven persists fqdn challenges h' := by
  obtain ⟨ch, hch, probe, hprobe, hpersisted⟩ := hproven
  exact ⟨ch, hch, probe, hprobe, hpersisted.mono hgrows⟩

theorem Proven.backed (hproven : Proven persists fqdn challenges h) : Backed persists i op fqdn challenges h := by
  obtain ⟨ch, hch, probe, hprobe, hpersisted⟩ := hproven
  exact ⟨ch, hch, probe, hprobe, .inr hpersisted⟩

/-- A call that stores its success turns what backs it into a proof for the calls to come. -/
theorem Backed.persisted (hbacked : Backed persists i op fqdn challenges h) {entry : Entry (service w)}
    (hentry : persists entry = some (i, op)) : Proven persists fqdn challenges (h ++ [entry]) := by
  obtain ⟨ch, hch, probe, hprobe, hconfirmed⟩ := hbacked
  refine ⟨ch, hch, probe, hprobe, ?_⟩
  rcases hconfirmed with hconfirmed | hpersisted
  · exact ⟨h, entry, [], i, op, rfl, hentry, hconfirmed⟩
  · exact hpersisted.mono (prefix_append h [entry])

end

/-! ### Orders and renewals that do not change -/

/-- The same agent, name and host, and an order with the same reference and challenges. -/
structure SameOrder (row row' : AgentRow) : Prop where
  agentID : row'.agentID = row.agentID
  ansName : row'.ansName = row.ansName
  orderRef : row'.certOrder.orderRef = row.certOrder.orderRef
  challenges : row'.certOrder.challenges = row.certOrder.challenges

theorem SameOrder.refl (row : AgentRow) : SameOrder row row := ⟨rfl, rfl, rfl, rfl⟩

theorem SameOrder.symm {row row' : AgentRow} (h : SameOrder row row') : SameOrder row' row :=
  ⟨h.agentID.symm, h.ansName.symm, h.orderRef.symm, h.challenges.symm⟩

theorem SameOrder.trans {a b c : AgentRow} (h : SameOrder a b) (h' : SameOrder b c) : SameOrder a c :=
  ⟨h'.agentID.trans h.agentID, h'.ansName.trans h.ansName, h'.orderRef.trans h.orderRef,
    h'.challenges.trans h.challenges⟩

/-- The same agent, and a validation with the same reference and challenges. -/
structure SameRenewal (r r' : ServerCertificateRenewal) : Prop where
  agentID : r'.agentID = r.agentID
  orderRef : r'.validation.orderRef = r.validation.orderRef
  challenges : r'.validation.challenges = r.validation.challenges

theorem SameRenewal.refl (r : ServerCertificateRenewal) : SameRenewal r r := ⟨rfl, rfl, rfl⟩

theorem SameRenewal.trans {a b c : ServerCertificateRenewal} (h : SameRenewal a b) (h' : SameRenewal b c) :
    SameRenewal a c :=
  ⟨h'.agentID.trans h.agentID, h'.orderRef.trans h.orderRef, h'.challenges.trans h.challenges⟩

section

variable {w : Wiring} {h h' : History w} {i : Nat} {op : Op} {row row' : AgentRow}

/-- The order of a registration was proven. -/
def OrderProven (row : AgentRow) (h : History w) : Prop :=
  Proven (persistsOrder row.agentID) row.ansName.fqdn row.certOrder.challenges h

/-- The order of a registration was proven, or confirmed in the call itself. -/
def OrderBacked (i : Nat) (op : Op) (row : AgentRow) (h : History w) : Prop :=
  Backed (persistsOrder row.agentID) i op row.ansName.fqdn row.certOrder.challenges h

theorem OrderProven.congr (hsame : SameOrder row row') (hproven : OrderProven row h) : OrderProven row' h := by
  unfold OrderProven
  rw [hsame.agentID, hsame.ansName, hsame.challenges]
  exact hproven

theorem OrderBacked.congr (hsame : SameOrder row row') (hbacked : OrderBacked i op row h) :
    OrderBacked i op row' h := by
  unfold OrderBacked
  rw [hsame.agentID, hsame.ansName, hsame.challenges]
  exact hbacked

end

/-! ### What a step does to the orders -/

section

variable {s t : Store} {c : Call} {id : Nat} {row row' : AgentRow}

/-- The registration whose order a call writes. -/
def Call.savesOrder : Call → Option AgentRegistration
  | .saveAgent reg | .commitACME reg _ _ | .commitActivation reg _ | .commitCancellation reg _ => some reg
  | _ => none

/-- A step leaves the order of a registration alone or saves the one of its own copy. -/
theorem Change.order (h : Change s id row c row') : row'.agentID = row.agentID ∧ row'.ansName = row.ansName ∧
      (row'.certOrder = row.certOrder ∨
        ∃ reg, c.savesOrder = some reg ∧ id = reg.id ∧ row'.certOrder = reg.certOrder) := by
  cases h with
  | saved hkey | advanced hkey | activated hkey | cancelled hkey => exact ⟨rfl, rfl, .inr ⟨_, rfl, hkey, rfl⟩⟩
  | same | outrun | revoked | lapsed => exact ⟨rfl, rfl, .inl rfl⟩

/-- A copy of a stored registration, as far as its order goes. -/
def Copies (reg : AgentRegistration) (s : Store) : Prop :=
  ∃ row, (reg.id, row) ∈ s.agents.rows ∧ SameOrder row (.ofDomain reg)

theorem Change.sameOrder (h : Change s id row c row') (hrow : (id, row) ∈ s.agents.rows)
    (hcopies : ∀ reg, c.savesOrder = some reg → Copies reg s) : SameOrder row row' := by
  obtain ⟨hagent, hname, horder | ⟨reg, hsaves, rfl, horder⟩⟩ := h.order
  · exact ⟨hagent, hname, by rw [horder], by rw [horder]⟩
  · obtain ⟨stored, hstored, hsame⟩ := hcopies reg hsaves
    obtain rfl := mem_unique hrow hstored
    exact ⟨hagent, hname, by rw [horder]; exact hsame.orderRef, by rw [horder]; exact hsame.challenges⟩

/-- A certificate that is stored after a step was so before, or the step has stored it. -/
theorem Effect.certificate_before (h : Effect s t c) {cert : CertificateRow}
    (hcert : (id, cert) ∈ t.certificates.rows) :
    (∃ old, (id, old) ∈ s.certificates.rows ∧ old.agentID = cert.agentID) ∨ c.certifies = some cert.agentID := by
  rcases h.certificates with ⟨selects, hwithdrawn⟩ | ⟨agentID, stored, hcertifies, hstored⟩
  · rw [hwithdrawn] at hcert
    obtain ⟨old, hold, rfl⟩ := mem_update.mp hcert
    refine .inl ⟨old, hold, ?_⟩
    split <;> rfl
  · rw [hstored] at hcert
    rcases mem_insert.mp hcert with hold | hnew
    · exact .inl ⟨cert, hold, rfl⟩
    · rw [(Prod.mk.inj hnew).2]
      exact .inr hcertifies

/-! ### What a step does to the renewals -/

/-- The renewal that a call saves. -/
def Call.savesRenewal : Call → Option ServerCertificateRenewal
  | .saveRenewal r | .commitRenewal _ r _ _ _ _ => some r
  | _ => none

/-- What became of the renewals: those that are left keep their order, and one is verified only if it was so or the
call saves it as verified; new ones are not verified. -/
structure RenewalsFrom (c : Call) (s t : Store) : Prop where
  next : s.renewals.next ≤ t.renewals.next
  origin : ∀ id r', (id, r') ∈ t.renewals.rows →
    (∃ r, (id, r) ∈ s.renewals.rows ∧ SameRenewal r r' ∧ (r'.validation.status = .verified →
      r.validation.status = .verified ∨
        ∃ saved, c.savesRenewal = some saved ∧ saved.id = id ∧ saved.validation.status = .verified)) ∨
    (s.renewals.next ≤ id ∧ r'.validation.status ≠ .verified)

theorem RenewalsFrom.refl (c : Call) (s : Store) : RenewalsFrom c s s :=
  ⟨Nat.le_refl _, fun _ r hr => .inl ⟨r, hr, .refl r, .inl⟩⟩

/-- A call saves stored renewals only, and submits renewals that are not verified. -/
structure RenewsSoundly (c : Call) (s : Store) : Prop where
  stored : ∀ r, c.savesRenewal = some r → r.id ≠ 0 ∧ r.id < s.renewals.next
  fresh : ∀ agentID csr r, c = .submitRenewal agentID csr r → r.id = 0 ∧ r.validation.status ≠ .verified

/-- A renewal that a call inserts is a submitted one. -/
theorem Call.Renews.inserted {r : ServerCertificateRenewal} (h : c.Renews t r) (hsound : RenewsSoundly c s)
    (hid : r.id = 0) : r.validation.status ≠ .verified := by
  cases h with
  | saves r => exact absurd hid (hsound.stored r rfl).1
  | submits r => exact (hsound.fresh _ _ r rfl).2
  | closes _ r hcloses =>
    obtain ⟨row, hrow, _⟩ := hcloses
    exact absurd hid (Nat.pos_iff_ne_zero.mp (t.renewals.bounded _ hrow).1)
  | completes => exact absurd hid (hsound.stored _ rfl).1

/-- A renewal that a call saves is its own, or one that is closed as it is. -/
theorem Call.Renews.saved {r : ServerCertificateRenewal} (h : c.Renews t r) (hsound : RenewsSoundly c s)
    (hid : r.id ≠ 0) : c.savesRenewal = some r ∨ Closes t r := by
  cases h with
  | saves | completes => exact .inl rfl
  | submits r => exact absurd (hsound.fresh _ _ r rfl).1 hid
  | closes _ r hcloses => exact .inr hcloses

theorem Store.Write.renewalsFrom {u : Store} (hsound : RenewsSoundly c s) (h : RenewalsFrom c s t)
    (hwrite : Write c.allowed t u) : RenewalsFrom c s u := by
  cases hwrite with
  | @renewalInserted r hr hid =>
    refine ⟨Nat.le_succ_of_le h.next, ?_⟩
    intro id r' hr'
    rcases mem_insert.mp hr' with hold | hnew
    · exact h.origin id r' hold
    · obtain ⟨rfl, rfl⟩ := Prod.mk.inj hnew
      exact .inr ⟨h.next, Call.Renews.inserted hr hsound hid⟩
  | @renewalSaved saved hr hid =>
    refine ⟨h.next, ?_⟩
    intro id r' hr'
    obtain ⟨r, hmem, rfl⟩ := mem_update.mp hr'
    split
    · rename_i hopen
      obtain rfl : id = saved.id := by
        simp only [isOpenRenewal, Bool.and_eq_true, beq_iff_eq] at hopen
        exact hopen.1
      have hover : SameRenewal r (overwriteRenewal saved r) := ⟨rfl, rfl, rfl⟩
      -- a renewal that is closed keeps the status under which it is stored
      have hstatus : c.savesRenewal = some saved ∨ (overwriteRenewal saved r).validation.status = r.validation.status := by
        rcases Call.Renews.saved hr hsound hid with hsaves | ⟨row, hrow, hvalidation⟩
        · exact .inl hsaves
        · obtain rfl := mem_unique hmem hrow
          right
          change saved.validation.status = _
          rw [hvalidation]
      rcases h.origin saved.id r hmem with ⟨first, hfirst, hsame, hverified⟩ | ⟨hnew, hunverified⟩
      · refine .inl ⟨first, hfirst, hsame.trans hover, ?_⟩
        intro hnow
        rcases hstatus with hsaves | hkept
        · exact .inr ⟨saved, hsaves, rfl, hnow⟩
        · exact hverified (hkept.symm.trans hnow)
      · refine .inr ⟨hnew, ?_⟩
        rcases hstatus with hsaves | hkept
        · exact absurd (hsound.stored saved hsaves).2 (Nat.not_lt.mpr hnew)
        · rw [hkept]
          exact hunverified
    · exact h.origin id r hmem
  | renewalDeleted =>
    refine ⟨h.next, ?_⟩
    intro id r' hr'
    exact h.origin id r' (mem_delete.mp hr').1
  | _ => exact ⟨h.next, h.origin⟩

theorem Call.renewalsFrom {ambient : Ambient} {r : c.Reply} (hsound : RenewsSoundly c s)
    (h : c.exec ambient s = .ok (r, t)) : RenewalsFrom c s t := by
  have hwrites := c.writes ambient s r t h
  clear h
  induction hwrites with
  | refl => exact .refl c s
  | tail _ hlast ih => exact hlast.renewalsFrom hsound ih

end

/-! ### The watch -/

section

variable {w : Wiring}

/-- A copy of a renewal that was stored. -/
structure CopiesRenewal (r : ServerCertificateRenewal) (s : Store) : Prop where
  id_ne_zero : r.id ≠ 0
  bounded : r.id < s.renewals.next
  stored : ∀ row, (r.id, row) ∈ s.renewals.rows → SameRenewal row r

/-- The registration of an agent was proven to control its domain. -/
def AgentProven (agentID : String) (s : Scene (service w)) : Prop :=
  ∃ id row, (id, row) ∈ s.state.agents.rows ∧ row.agentID = agentID ∧ OrderProven row s.history

/-- The renewal of an agent was proven, for the host of the agent's registration. -/
def RenewalProven (r : ServerCertificateRenewal) (s : Scene (service w)) : Prop :=
  ∃ id row, (id, row) ∈ s.state.agents.rows ∧ row.agentID = r.agentID ∧
    Proven (persistsRenewal r.id) row.ansName.fqdn r.validation.challenges s.history

/-- The renewal of an agent was proven, or confirmed in the call itself. -/
def RenewalBacked (i : Nat) (op : Op) (r : ServerCertificateRenewal) (s : Scene (service w)) : Prop :=
  ∃ id row, (id, row) ∈ s.state.agents.rows ∧ row.agentID = r.agentID ∧
    Backed (persistsRenewal r.id) i op row.ansName.fqdn r.validation.challenges s.history

/-- Every stored trace of a proof stems from a call that confirmed a challenge and persisted its success. -/
structure ProofInv (s : Scene (service w)) : Prop where
  orders : ∀ id row, (id, row) ∈ s.state.agents.rows → row.certOrder.hasVerifiedChallenge = true →
    OrderProven row s.history
  certificates : ∀ id cert, (id, cert) ∈ s.state.certificates.rows → AgentProven cert.agentID s
  renewals : ∀ id r, (id, r) ∈ s.state.renewals.rows → r.validation.status = .verified →
    RenewalProven (renewalOf (id, r)) s

/-- What goes on: registrations keep their orders, renewals that are left keep theirs, and the history grows. -/
structure ProofRely (s t : Scene (service w)) : Prop where
  agents : ∀ id row, (id, row) ∈ s.state.agents.rows → ∃ row', (id, row') ∈ t.state.agents.rows ∧ SameOrder row row'
  next : s.state.renewals.next ≤ t.state.renewals.next
  renewals : ∀ id r', (id, r') ∈ t.state.renewals.rows → id < s.state.renewals.next →
    ∃ r, (id, r) ∈ s.state.renewals.rows ∧ SameRenewal r r'
  history : s.history <+: t.history

/-- What a call needs. -/
def CallsProven (i : Nat) (op : Op) (c : Call) (s : Scene (service w)) : Prop :=
  match c with
  | .register reg => reg.certOrder.hasVerifiedChallenge = false
  | .saveAgent reg | .commitACME reg _ _ => Copies reg s.state ∧ reg.certOrder.hasVerifiedChallenge = true ∧
      OrderBacked i op (.ofDomain reg) s.history
  | .commitActivation reg _ | .commitCancellation reg _ => Copies reg s.state ∧
      (reg.certOrder.hasVerifiedChallenge = true → OrderProven (.ofDomain reg) s.history)
  | .commitIdentityCSR reg _ _ _ _ => AgentProven reg.agentID s
  | .saveRenewal r | .commitRenewal _ r _ _ _ _ => CopiesRenewal r s.state ∧
      (r.validation.status = .verified → RenewalBacked i op r s)
  | .submitRenewal _ _ r => r.id = 0 ∧ r.validation.status ≠ .verified
  | _ => True

/-- The registration, or the renewal that the call has read, for which a certificate is asked for was proven or
confirmed in the call itself. -/
def AsksProven (i : Nat) (op : Op) (q : Query) (s : Scene (service w)) : Prop :=
  match op, q with
  | .verifyACME agentID, .finalizeOrder req => ∃ id row, (id, row) ∈ s.state.agents.rows ∧ row.agentID = agentID ∧
      req.orderRef = row.certOrder.orderRef ∧ req.fqdn = row.ansName.fqdn ∧ OrderBacked i op row s.history
  | .verifyACME agentID, .issueIdentityCertificate _ _ | .submitIdentityCSR agentID _ _, .issueIdentityCertificate _ _ =>
    ∃ id row, (id, row) ∈ s.state.agents.rows ∧ row.agentID = agentID ∧ OrderBacked i op row s.history
  | .verifyRenewalACME agentID _, .finalizeOrder req => ∃ (id : Nat) (row : AgentRow) (r : ServerCertificateRenewal),
      (id, row) ∈ s.state.agents.rows ∧ row.agentID = agentID ∧
      (.called i op (Call.read (.findPendingRenewal agentID)) r : Entry (service w)) ∈ s.history ∧
      req.orderRef = r.validation.orderRef ∧ req.fqdn = row.ansName.fqdn ∧
      Backed (persistsRenewal r.id) i op row.ansName.fqdn r.validation.challenges s.history
  | _, .finalizeOrder _ | _, .issueIdentityCertificate _ _ => False
  | _, _ => True

variable {s t u : Scene (service w)} {i : Nat} {op : Op} {reg : AgentRegistration}

theorem ProofRely.refl (s : Scene (service w)) : ProofRely s s :=
  ⟨fun _ row hrow => ⟨row, hrow, .refl row⟩, Nat.le_refl _, fun _ r hr _ => ⟨r, hr, .refl r⟩, prefix_refl _⟩

theorem ProofRely.trans (h : ProofRely s t) (h' : ProofRely t u) : ProofRely s u where
  agents := by
    intro id row hrow
    obtain ⟨row', hrow', hsame⟩ := h.agents id row hrow
    obtain ⟨row'', hrow'', hsame'⟩ := h'.agents id row' hrow'
    exact ⟨row'', hrow'', hsame.trans hsame'⟩
  next := Nat.le_trans h.next h'.next
  renewals := by
    intro id r'' hr'' hid
    obtain ⟨r', hr', hsame'⟩ := h'.renewals id r'' hr'' (Nat.lt_of_lt_of_le hid h.next)
    obtain ⟨r, hr, hsame⟩ := h.renewals id r' hr' hid
    exact ⟨r, hr, hsame.trans hsame'⟩
  history := h.history.trans h'.history

/-! What a call knows stays true. -/

theorem Copies.rely (h : ProofRely s t) (hcopies : Copies reg s.state) : Copies reg t.state := by
  obtain ⟨row, hrow, hsame⟩ := hcopies
  obtain ⟨row', hrow', hsame'⟩ := h.agents _ row hrow
  exact ⟨row', hrow', hsame'.symm.trans hsame⟩

theorem CopiesRenewal.rely {r : ServerCertificateRenewal} (h : ProofRely s t) (hcopies : CopiesRenewal r s.state) :
    CopiesRenewal r t.state where
  id_ne_zero := hcopies.id_ne_zero
  bounded := Nat.lt_of_lt_of_le hcopies.bounded h.next
  stored := by
    intro row' hrow'
    obtain ⟨row, hrow, hsame⟩ := h.renewals _ row' hrow' hcopies.bounded
    have hcopy := hcopies.stored row hrow
    exact ⟨hcopy.agentID.trans hsame.agentID.symm, hcopy.orderRef.trans hsame.orderRef.symm,
      hcopy.challenges.trans hsame.challenges.symm⟩

theorem AgentProven.rely {agentID : String} (h : ProofRely s t) (hproven : AgentProven agentID s) :
    AgentProven agentID t := by
  obtain ⟨id, row, hrow, hagent, hproven⟩ := hproven
  obtain ⟨row', hrow', hsame⟩ := h.agents id row hrow
  have hproven' : OrderProven row t.history := Proven.mono h.history hproven
  exact ⟨id, row', hrow', hsame.agentID.trans hagent, hproven'.congr hsame⟩

theorem RenewalProven.rely {r : ServerCertificateRenewal} (h : ProofRely s t) (hproven : RenewalProven r s) :
    RenewalProven r t := by
  obtain ⟨id, row, hrow, hagent, hproven⟩ := hproven
  obtain ⟨row', hrow', hsame⟩ := h.agents id row hrow
  refine ⟨id, row', hrow', hsame.agentID.trans hagent, ?_⟩
  rw [hsame.ansName]
  exact hproven.mono h.history

theorem RenewalBacked.rely {r : ServerCertificateRenewal} (h : ProofRely s t) (hbacked : RenewalBacked i op r s) :
    RenewalBacked i op r t := by
  obtain ⟨id, row, hrow, hagent, hbacked⟩ := hbacked
  obtain ⟨row', hrow', hsame⟩ := h.agents id row hrow
  refine ⟨id, row', hrow', hsame.agentID.trans hagent, ?_⟩
  rw [hsame.ansName]
  exact hbacked.mono h.history

/-- Renewals with one key, agent and set of challenges are proven alike. -/
theorem RenewalProven.congr {r r' : ServerCertificateRenewal} (hsame : SameRenewal r r') (hid : r'.id = r.id)
    (hproven : RenewalProven r s) : RenewalProven r' s := by
  unfold RenewalProven
  rw [hid, hsame.agentID, hsame.challenges]
  exact hproven

/-! ### Every call keeps it -/

section

variable {c : Call} {r : c.Reply} {state : Store}

/-- The copy whose order a call saves. -/
theorem CallsProven.copies (h : CallsProven i op c s) (hsaves : c.savesOrder = some reg) : Copies reg s.state := by
  cases c <;> cases hsaves <;> exact h.1

/-- An order that a call saves as proven is proven once the call is entered. -/
theorem CallsProven.order (h : CallsProven i op c s) (hsaves : c.savesOrder = some reg)
    (hverified : reg.certOrder.hasVerifiedChallenge = true) :
    OrderProven (.ofDomain reg) (s.history ++ [.called i op c r]) := by
  cases c <;> cases hsaves
  case saveAgent | commitACME => exact h.2.2.persisted (by simp [persistsOrder, hverified, AgentRow.ofDomain])
  case commitActivation | commitCancellation => exact Proven.mono (prefix_append _ _) (h.2 hverified)

theorem CallsProven.renewsSoundly (h : CallsProven i op c s) : RenewsSoundly c s.state where
  stored := by
    intro r hsaves
    cases c <;> cases hsaves <;> exact ⟨h.1.id_ne_zero, h.1.bounded⟩
  fresh := by
    rintro agentID csr r rfl
    exact h

/-- A renewal that a call saves as verified is proven once the call is entered. -/
theorem CallsProven.renewal (h : CallsProven i op c s) {saved : ServerCertificateRenewal}
    (hsaves : c.savesRenewal = some saved) (hverified : saved.validation.status = .verified) :
    CopiesRenewal saved s.state ∧ ∃ id row, (id, row) ∈ s.state.agents.rows ∧ row.agentID = saved.agentID ∧
      Proven (persistsRenewal saved.id) row.ansName.fqdn saved.validation.challenges
        (s.history ++ [.called i op c r]) := by
  cases c <;> cases hsaves
  all_goals
    obtain ⟨hcopies, hbacked⟩ := h
    obtain ⟨id, row, hrow, hagent, hbacked⟩ := hbacked hverified
    exact ⟨hcopies, id, row, hrow, hagent, hbacked.persisted (by simp [persistsRenewal, hverified])⟩

variable {ambient : Ambient}

theorem CallsProven.rely (h : CallsProven i op c s) (hinv : Inv s.state) (hpre : Pre c s.state)
    (hexec : c.exec ambient s.state = .ok (r, state)) : ProofRely s (s.after state (.called i op c r)) where
  agents := by
    intro id row hrow
    rcases (effect_of_exec hinv hpre hexec).changes with ⟨reg, _, _, hagents⟩ | ⟨g, hg, hchange⟩
    · exact ⟨row, by rw [Scene.after, hagents]; exact mem_insert.mpr (.inl hrow), .refl row⟩
    · have hsame := (hchange id row hrow).sameOrder hrow fun reg hsaves => h.copies hsaves
      exact ⟨g id row, (hg id _).mpr ⟨row, hrow, rfl⟩, hsame⟩
  next := (Call.renewalsFrom h.renewsSoundly hexec).next
  renewals := by
    intro id r' hr' hid
    rcases (Call.renewalsFrom h.renewsSoundly hexec).origin id r' hr' with ⟨old, hold, hsame, _⟩ | ⟨hnew, _⟩
    · exact ⟨old, hold, hsame⟩
    · exact absurd hid (Nat.not_lt.mpr hnew)
  history := prefix_append _ _

theorem ProofInv.called (h : ProofInv s) (hinv : Inv s.state) (hpre : Pre c s.state) (hcalls : CallsProven i op c s)
    (hexec : c.exec ambient s.state = .ok (r, state)) : ProofInv (s.after state (.called i op c r)) := by
  have heffect := effect_of_exec hinv hpre hexec
  have hrely := hcalls.rely hinv hpre hexec
  refine ⟨?_, ?_, ?_⟩
  · -- a stored order is an old one, or the one that the call saves
    intro id row' hrow' hverified
    rcases heffect.changes with ⟨reg, rfl, _, hagents⟩ | ⟨g, hg, hchange⟩
    · rw [Scene.after, hagents] at hrow'
      rcases mem_insert.mp hrow' with hold | hnew
      · exact Proven.mono hrely.history (h.orders id row' hold hverified)
      · rw [(Prod.mk.inj hnew).2] at hverified
        exact absurd hverified (by rw [Bool.not_eq_true]; exact hcalls)
    · obtain ⟨row, hrow, rfl⟩ := (hg id row').mp hrow'
      have hc := hchange id row hrow
      have hsame := hc.sameOrder hrow fun reg hsaves => hcalls.copies hsaves
      obtain ⟨_, _, horder | ⟨reg, hsaves, rfl, horder⟩⟩ := hc.order
      · rw [horder] at hverified
        have hproven : OrderProven row (s.history ++ [.called i op c r]) :=
          Proven.mono hrely.history (h.orders id row hrow hverified)
        exact hproven.congr hsame
      · rw [horder] at hverified
        obtain ⟨stored, hstored, hcopy⟩ := hcalls.copies hsaves
        obtain rfl := mem_unique hrow hstored
        exact (hcalls.order hsaves hverified).congr (hcopy.symm.trans hsame)
  · -- a certificate is stored after a proof
    intro id cert hcert
    rcases heffect.certificate_before hcert with ⟨old, hold, hagent⟩ | hcertifies
    · rw [← hagent]
      exact (h.certificates id old hold).rely hrely
    · cases c <;> simp only [Call.certifies, reduceCtorEq, Option.some.injEq] at hcertifies
      case commitACME reg identity server =>
        have hproven := hcalls.order (r := r) rfl hcalls.2.1
        obtain ⟨row, hrow, hcopy⟩ := hcalls.1.rely hrely
        exact ⟨reg.id, row, hrow, hcopy.agentID.symm.trans hcertifies, hproven.congr hcopy.symm⟩
      case commitIdentityCSR => exact hcertifies ▸ AgentProven.rely hrely hcalls
  · -- a renewal is verified when it was so before, or the call saves it as verified
    intro id r' hr' hverified
    rcases (Call.renewalsFrom hcalls.renewsSoundly hexec).origin id r' hr' with
      ⟨old, hold, hsame, hstatus⟩ | ⟨_, hunverified⟩
    · have hrenewal : SameRenewal (renewalOf (id, old)) (renewalOf (id, r')) := ⟨hsame.1, hsame.2, hsame.3⟩
      rcases hstatus hverified with hbefore | ⟨saved, hsaves, rfl, hsaved⟩
      · exact ((h.renewals id old hold hbefore).rely hrely).congr hrenewal rfl
      · obtain ⟨hcopies, k, row, hrow, hagent, hproven⟩ := hcalls.renewal hsaves hsaved
        have hcopy := hcopies.stored old hold
        obtain ⟨row', hrow', hrowSame⟩ := hrely.agents k row hrow
        refine ⟨k, row', hrow', ?_, ?_⟩
        · exact hrowSame.agentID.trans (hagent.trans (hcopy.agentID.trans hsame.agentID.symm))
        · change Proven (persistsRenewal saved.id) row'.ansName.fqdn r'.validation.challenges _
          rw [hrowSame.ansName, hsame.challenges, ← hcopy.challenges]
          exact hproven
    · exact absurd hverified hunverified

end

/-- Certificates are asked for after a proof, and proofs are stored after a confirmation. -/
def proofWatch (w : Wiring) : Watch discipline (service w) where
  Inv := ProofInv
  Rely := ProofRely
  Calls := CallsProven
  Asks := AsksProven
  refl := ProofRely.refl
  trans := fun _ _ _ h h' => h.trans h'
  called := by
    intro i op c ambient s r t hinv hpre h hcalls hexec
    exact ⟨h.called hinv hpre hcalls hexec, hcalls.rely hinv hpre hexec⟩
  asked := by
    intro i op q a s _ h _
    have hrely : ProofRely s (s.after s.state (.asked i op q a)) :=
      ⟨fun _ row hrow => ⟨row, hrow, .refl row⟩, Nat.le_refl _, fun _ r hr _ => ⟨r, hr, .refl r⟩,
        prefix_append _ _⟩
    refine ⟨⟨?_, ?_, ?_⟩, hrely⟩
    · intro id row hrow hverified
      exact Proven.mono hrely.history (h.orders id row hrow hverified)
    · intro id cert hcert
      exact (h.certificates id cert hcert).rely hrely
    · intro id r hr hverified
      exact (h.renewals id r hr hverified).rely hrely

end

end AgentNameService.Registration
