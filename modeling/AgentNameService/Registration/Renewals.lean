/-
Purpose: Renewals of server certificates in every interleaving.  No agent has two open renewals, and a renewal that is
  completed without a failure is the work of one transaction, which found the agent active and stored the certificate
  and the event with it.  The issuance before that transaction decides nothing.
Source: internal/ra/service/{renewal,renewal_expiry,revocation}.go, internal/adapter/store/sqlite/renewal.go
Trusted boundary: none
-/
import AgentNameService.Foundation.Chronicle
import AgentNameService.Registration.Copies

namespace AgentNameService.Registration

open Interleaving Store Transactions List Tx Table

variable {s t : Store} {c : Call} {ambient : Ambient} {u : Unit} {w : Wiring} {r : ServerCertificateRenewal}
variable {agentID : String}

/-- No agent has two renewals that are not completed. -/
def OneOpen (s : Store) : Prop :=
  ∀ id id' r r', (id, r) ∈ s.renewals.rows → (id', r') ∈ s.renewals.rows → r.agentID = r'.agentID →
    r.completedAt = none → r'.completedAt = none → id = id'

/-- Completed, without a failure reason. -/
def Succeeded (r : ServerCertificateRenewal) : Prop := r.completedAt ≠ none ∧ r.failureReason = ""

/-- The registration of the agent is active. -/
def Active (agentID : String) (s : Store) : Prop :=
  ∃ id row, (id, row) ∈ s.agents.rows ∧ row.agentID = agentID ∧ row.status = .active

/-- The commit of the renewal with the id. -/
def renews (id : Nat) (k : Commit (service w)) : Bool :=
  match k.call with
  | .commitRenewal _ r .. => r.id == id
  | _ => false

/-- What the commit of a renewal does: it finds the agent active, and stores one server certificate and one event. -/
structure Renewed (agentID : String) (k : Commit (service w)) : Prop where
  active : Active agentID k.before
  certificate : ∃ cert, k.after.byoc.since k.before.byoc.next = [cert] ∧ cert.2.agentID = agentID
  event : ∃ ev, k.after.outbox.since k.before.outbox.next = [ev] ∧ ev.2.agentID = agentID ∧
    ev.2.eventType = .agentRenewed

/-! ### Steps that settle renewals -/

/-- Completed renewals stay as they are, and an open one is at most closed with a failure. -/
structure Settles (s t : Store) : Prop where
  kept : ∀ id r, (id, r) ∈ s.renewals.rows → r.completedAt ≠ none → (id, r) ∈ t.renewals.rows
  origin : ∀ id r', (id, r') ∈ t.renewals.rows → (id, r') ∈ s.renewals.rows ∨
    ¬ Succeeded r' ∧ ∃ r, (id, r) ∈ s.renewals.rows ∧ r.agentID = r'.agentID ∧ r.completedAt = none

theorem Settles.of_eq (h : t.renewals = s.renewals) : Settles s t := by
  constructor <;> rw [h]
  · exact fun _ _ hr _ => hr
  · exact fun _ _ hr => .inl hr

theorem Settles.trans (s t u : Store) (h : Settles s t) (h' : Settles t u) : Settles s u where
  kept id r hr hdone := h'.kept id r (h.kept id r hr hdone) hdone
  origin := by
    intro id r'' hr''
    rcases h'.origin id r'' hr'' with hr' | ⟨hfailed, r', hr', hagent', hopen'⟩
    · exact h.origin id r'' hr'
    · refine .inr ⟨hfailed, ?_⟩
      rcases h.origin id r' hr' with hr | ⟨_, r, hr, hagent, hopen⟩
      · exact ⟨r', hr, hagent', hopen'⟩
      · exact ⟨r, hr, hagent.trans hagent', hopen⟩

/-- To save an open renewal as open, or as failed, is to settle it. -/
theorem settles_putRenewal (hr : ¬ Succeeded r) : Settles s (putRenewal r s) := by
  constructor
  · intro id row hrow hdone
    refine mem_update.mpr ⟨row, hrow, ?_⟩
    simp [isOpenRenewal, hdone]
  · intro id row' hrow'
    obtain ⟨row, hrow, rfl⟩ := mem_update.mp hrow'
    by_cases hsel : isOpenRenewal r.id id row = true
    · rw [if_pos hsel]
      simp only [isOpenRenewal, Bool.and_eq_true, Option.isNone_iff_eq_none] at hsel
      exact .inr ⟨hr, row, hrow, rfl, hsel.2⟩
    · rw [if_neg hsel]
      exact .inl hrow

/-- The calls that submit, cancel or complete a renewal. -/
def Call.movesRenewals : Call → Bool
  | .submitRenewal .. | .cancelRenewal .. | .commitRenewal .. => true
  | _ => false

theorem settles_of_leaves {v : Store} {st : Statement} (hhands : Hands c s) (hc : c.movesRenewals = false)
    (hst : c.Performs t st) (hleaves : st.Leaves t v) : Settles t v := by
  cases hleaves with
  | renewalInserted hnew =>
    cases hst with
    | saveRenewal => exact absurd hnew hhands.1
    | revokeRenewal hcloses =>
      obtain ⟨row, hrow, _⟩ := hcloses
      rw [hnew] at hrow
      exact absurd (t.renewals.bounded _ hrow).1 (Nat.lt_irrefl 0)
    | submitRenewal | renewRenewal => cases hc
  | renewalSaved =>
    apply settles_putRenewal
    rintro ⟨hdone, hreason⟩
    cases hst with
    | saveRenewal =>
      rcases hhands.2 with ⟨hopen, _⟩ | ⟨_, hfailed⟩
      · exact hdone hopen
      · exact hfailed hreason
    | revokeRenewal _ _ hexplained => exact hexplained hreason
    | submitRenewal | renewRenewal => cases hc
  | renewalDeleted =>
    cases hst with
    | abandonRenewal => cases hc
  | _ => exact .of_eq rfl

theorem settles_of_exec {r : c.Reply} (hhands : Hands c s) (hc : c.movesRenewals = false)
    (h : c.exec ambient s = .ok (r, t)) : Settles s t :=
  (c.performed ambient s r t h).along (fun _ => .of_eq rfl) Settles.trans fun _ _ _ hst hleaves =>
    settles_of_leaves hhands hc hst hleaves

/-! ### The other three -/

/-- Where no pending renewal is found, no renewal of the agent is open. -/
theorem closed_of_pendingRenewal (h : s.pendingRenewal agentID = none) {id : Nat}
    (hr : (id, r) ∈ s.renewals.rows) (hagent : r.agentID = agentID) : r.completedAt ≠ none := by
  intro hopen
  have hselect := getLast?_eq_none_iff.mp (Option.map_eq_none_iff.mp h)
  have hmem : (id, r) ∈ s.renewals.select fun _ row => row.agentID == agentID && row.completedAt.isNone :=
    mem_select.mpr ⟨hr, by simp [hagent, hopen]⟩
  rw [hselect] at hmem
  cases hmem

/-- A renewal is submitted for an active agent that has no open one. -/
theorem submitRenewal_stored {csr : Option AgentCSR} {renewal : ServerCertificateRenewal}
    (h : submitRenewal agentID csr renewal s = .ok (u, t)) (hnew : renewal.id = 0) :
    Active agentID s ∧ s.pendingRenewal agentID = none ∧ t.renewals = s.renewals.insert renewal := by
  obtain ⟨current, row, _, hrow, hdomain, hagent, h⟩ := findByAgentID_bind h
  obtain ⟨hactive, h⟩ := run_require_bind.mp h
  have hstatus : row.status = .active := hactive ▸ congrArg AgentRegistration.status hdomain
  replace h := run_reads_bind.mp h
  obtain ⟨hnone, h⟩ := run_require_bind.mp h
  obtain ⟨_, v, hcsr, hsave⟩ := run_bind_eq_ok_iff.mp h
  -- the request is saved before the renewal, and leaves the renewals alone
  have hperformed : Performed (fun _ st => st.table ≠ .renewals) s v := by
    refine performed_optional (fun submitted _ => ?_) s _ v hcsr
    apply performed_bind (performed_discard (saveAgent_performed fun _ => nofun))
    intro _
    exact saveCSR_performed fun _ => nofun
  have hv : v.renewals = s.renewals := hperformed.column_eq fun _ _ _ hst hleaves => hleaves.renewals_eq hst
  refine ⟨⟨_, row, hrow, hagent, hstatus⟩, Option.isNone_iff_eq_none.mp hnone, ?_⟩
  obtain ⟨_, rfl⟩ | ⟨_, row, hrow, _⟩ := saveRenewal_stored hsave
  · exact congrArg (·.insert renewal) hv
  · rw [hnew] at hrow
    exact absurd (v.renewals.bounded _ hrow).1 (Nat.lt_irrefl 0)

/-- Only an open renewal is cancelled. -/
theorem cancelRenewal_stored {renewalID : Nat} (h : cancelRenewal ambient agentID renewalID s = .ok (u, t)) :
    (∃ row, (renewalID, row) ∈ s.renewals.rows ∧ row.completedAt = none) ∧
      t.renewals = s.renewals.delete fun id _ => id == renewalID := by
  obtain ⟨current, _, hfind, hrest⟩ := run_bind_eq_ok_iff.mp h
  obtain ⟨rfl, hfound⟩ := one_unchanged hfind
  obtain ⟨rfl, hcurrent⟩ := run_require_bind.mp hrest
  obtain ⟨hopen, hreject⟩ := run_require_bind.mp hcurrent
  obtain ⟨⟨id, row⟩, hlast, rfl⟩ := Option.map_eq_some_iff.mp hfound
  obtain ⟨_, v, hreject, hdelete⟩ := run_bind_eq_ok_iff.mp hreject
  have hperformed : Performed (fun _ st => st.table ≠ .renewals) s v :=
    rejectRenewalCSR_performed (fun _ _ _ => nofun) _ s _ v hreject
  have hv : v.renewals = s.renewals := hperformed.column_eq fun _ _ _ hst hleaves => hleaves.renewals_eq hst
  obtain rfl := run_writes_eq_ok_iff.mp hdelete
  exact ⟨⟨row, (mem_of_last hlast).1, hopen⟩, congrArg (·.delete fun id' _ => id' == id) hv⟩

/-- A renewal is completed while its agent is active and while it is the open renewal of the agent; its certificate and
its event are stored with it. -/
theorem commitRenewal_stored {reg : AgentRegistration} {cert : ByocServerCertificate}
    {signed : Option AgentCSR} {dnsRecords : List String} {lane : Lane}
    (h : commitRenewal ambient reg r cert signed dnsRecords lane s = .ok (u, t)) : Active reg.agentID s ∧
      (∃ row, (r.id, row) ∈ s.renewals.rows ∧ row.agentID = reg.agentID ∧ row.completedAt = none) ∧
      t.renewals = (putRenewal r s).renewals ∧ t.byoc = s.byoc.insert ⟨reg.agentID, cert⟩ ∧
      ∃ payload, t.outbox = Outbox.enqueue s.outbox ambient.now .agentRenewed reg.agentID lane payload ambient.clock := by
  obtain ⟨current, own, _, hown, hdomain, hagent, h⟩ := findByAgentID_bind h
  obtain ⟨hactive, h⟩ := run_require_bind.mp h
  have hstatus : own.status = .active := hactive ▸ congrArg AgentRegistration.status hdomain
  obtain ⟨pending, _, hpending, h⟩ := run_bind_eq_ok_iff.mp h
  obtain ⟨rfl, hfound⟩ := one_unchanged hpending
  obtain ⟨hid, hstores⟩ := run_require_bind.mp h
  obtain ⟨⟨id, row⟩, hlast, rfl⟩ := Option.map_eq_some_iff.mp hfound
  obtain ⟨hrow, hsel⟩ := mem_of_last hlast
  simp only [Bool.and_eq_true, beq_iff_eq, Option.isNone_iff_eq_none] at hsel
  obtain rfl : id = r.id := hid
  obtain ⟨_, v, hbyoc, h⟩ := run_bind_eq_ok_iff.mp hstores
  have hv := saveByoc_stored hbyoc
  obtain ⟨_, x, hcsr, h⟩ := run_bind_eq_ok_iff.mp h
  have hperformed : Performed (fun _ st => st.table ≠ .renewals ∧ st.table ≠ .byoc ∧ st.table ≠ .outbox) v x := by
    refine performed_optional (fun submitted _ => ?_) v _ x hcsr
    apply performed_bind (saveCSR_performed fun _ => ⟨nofun, nofun, nofun⟩)
    intro _
    exact performed_discard (saveAgent_performed fun _ => ⟨nofun, nofun, nofun⟩)
  have hrenewals : x.renewals = v.renewals := hperformed.column_eq fun _ _ _ hst hleaves => hleaves.renewals_eq hst.1
  have hbyocs : x.byoc = v.byoc := hperformed.column_eq fun _ _ _ hst hleaves => hleaves.byoc_eq hst.2.1
  have houtbox : x.outbox = v.outbox := hperformed.column_eq fun _ _ _ hst hleaves => hleaves.outbox_eq hst.2.2
  rw [hv] at hrenewals hbyocs houtbox
  obtain ⟨_, y, hsave, h⟩ := run_bind_eq_ok_iff.mp h
  obtain ⟨hzero, _⟩ | ⟨rfl, _⟩ := saveRenewal_stored hsave
  · rw [hzero] at hrow
    exact absurd (s.renewals.bounded _ hrow).1 (Nat.lt_irrefl 0)
  replace h := run_reads_bind.mp h
  replace h := run_reads_bind.mp h
  obtain ⟨payload, _, h⟩ := run_ofExcept_bind.mp h
  obtain rfl := run_writes_eq_ok_iff.mp h
  refine ⟨⟨_, own, hown, hagent, hstatus⟩, ⟨row, hrow, hsel.1, hsel.2⟩, ?_, hbyocs, payload, ?_⟩
  · exact congrArg (·.update (isOpenRenewal r.id) (overwriteRenewal r)) hrenewals
  · exact congrArg (Outbox.enqueue · ambient.now .agentRenewed reg.agentID lane payload ambient.clock) houtbox

/-! ### One open renewal -/

theorem OneOpen.settled (h : Settles s t) (hs : OneOpen s) : OneOpen t := by
  -- an open renewal was open before, under the same agent
  have hbefore {id : Nat} {r : ServerCertificateRenewal} (hr : (id, r) ∈ t.renewals.rows) (hopen : r.completedAt = none) :
      ∃ old, (id, old) ∈ s.renewals.rows ∧ old.agentID = r.agentID ∧ old.completedAt = none := by
    rcases h.origin id r hr with hold | ⟨_, hold⟩
    · exact ⟨r, hold, rfl, hopen⟩
    · exact hold
  intro id id' r r' hr hr' hagent hopen hopen'
  obtain ⟨old, hold, hagents, hwasOpen⟩ := hbefore hr hopen
  obtain ⟨old', hold', hagents', hwasOpen'⟩ := hbefore hr' hopen'
  exact hs id id' old old' hold hold' (hagents.trans (hagent.trans hagents'.symm)) hwasOpen hwasOpen'

theorem mem_putRenewal {id : Nat} {row' : ServerCertificateRenewal} :
    (id, row') ∈ (putRenewal r s).renewals.rows ↔ ∃ row, (id, row) ∈ s.renewals.rows ∧
      row' = if isOpenRenewal r.id id row then overwriteRenewal r row else row :=
  mem_update

theorem OneOpen.kept {r : c.Reply} (hs : OneOpen s) (hhands : Hands c s) (h : c.exec ambient s = .ok (r, t)) :
    OneOpen t := by
  by_cases hc : c.movesRenewals = false
  · exact hs.settled (settles_of_exec hhands hc h)
  cases c with
  | submitRenewal agentID csr renewal =>
    obtain ⟨hnew, hagentID, _⟩ := hhands
    obtain ⟨_, hnone, hrenewals⟩ := submitRenewal_stored h hnew
    intro id id' r r' hr hr' hagent hopen hopen'
    rw [hrenewals, mem_insert] at hr hr'
    rcases hr with hr | hr <;> rcases hr' with hr' | hr'
    · exact hs id id' r r' hr hr' hagent hopen hopen'
    · obtain ⟨_, rfl⟩ := Prod.mk.inj hr'
      exact absurd hopen (closed_of_pendingRenewal hnone hr (hagent.trans hagentID))
    · obtain ⟨_, rfl⟩ := Prod.mk.inj hr
      exact absurd hopen' (closed_of_pendingRenewal hnone hr' (hagent.symm.trans hagentID))
    · exact (Prod.mk.inj hr).1.trans (Prod.mk.inj hr').1.symm
  | cancelRenewal agentID renewalID =>
    obtain ⟨_, hrenewals⟩ := cancelRenewal_stored h
    intro id id' r r' hr hr' hagent hopen hopen'
    rw [hrenewals] at hr hr'
    exact hs id id' r r' (mem_delete.mp hr).1 (mem_delete.mp hr').1 hagent hopen hopen'
  | commitRenewal reg completed =>
    obtain ⟨_, _, hrenewals, _⟩ := commitRenewal_stored h
    -- the renewal that is saved is completed, and the others are as before
    have hbefore {id : Nat} {r : ServerCertificateRenewal} (hr : (id, r) ∈ t.renewals.rows)
        (hopen : r.completedAt = none) : (id, r) ∈ s.renewals.rows := by
      rw [hrenewals] at hr
      obtain ⟨row, hrow, rfl⟩ := mem_putRenewal.mp hr
      split at hopen
      · exact absurd hopen hhands.1
      · rename_i hsel
        rw [if_neg hsel]
        exact hrow
    intro id id' r r' hr hr' hagent hopen hopen'
    exact hs id id' r r' (hbefore hr hopen) (hbefore hr' hopen') hagent hopen hopen'
  | _ => exact absurd rfl hc

/-! ### Completed renewals and their commits -/

/-- Every completed renewal has its one commit, and nothing but a completed renewal has one. -/
structure Accounted (s : Store) (commits : List (Commit (service w))) : Prop where
  one : OneOpen s
  backed : ∀ id r, (id, r) ∈ s.renewals.rows → Succeeded r → commits.filter (renews id) ≠ []
  committed : ∀ id, commits.filter (renews id) = [] ∨ ∃ k r, commits.filter (renews id) = [k] ∧
    (id, r) ∈ s.renewals.rows ∧ Succeeded r ∧ Renewed r.agentID k

/-- A commit that is not one of a renewal, and that leaves the completed renewals as they are. -/
theorem Accounted.other {commits : List (Commit (service w))} {k : Commit (service w)} (hs : Accounted s commits)
    (hone : OneOpen t) (hk : ∀ id, renews id k = false)
    (hkept : ∀ id r, (id, r) ∈ s.renewals.rows → r.completedAt ≠ none → (id, r) ∈ t.renewals.rows)
    (hnone : ∀ id r, (id, r) ∈ t.renewals.rows → Succeeded r → (id, r) ∈ s.renewals.rows) :
    Accounted t (commits ++ [k]) := by
  have hfilter (id : Nat) : (commits ++ [k]).filter (renews id) = commits.filter (renews id) := by
    simp [filter_append, hk id]
  refine ⟨hone, ?_, ?_⟩
  · intro id r hr hdone
    rw [hfilter]
    exact hs.backed id r (hnone id r hr hdone) hdone
  · intro id
    rw [hfilter]
    rcases hs.committed id with hempty | ⟨k', r, hcommit, hr, hdone, hrenewed⟩
    · exact .inl hempty
    · exact .inr ⟨k', r, hcommit, hkept id r hr hdone.1, hdone, hrenewed⟩

/-- What the commit of a renewal has done. -/
theorem renewed_of_exec {op : Op} {reg : AgentRegistration} {completed : ServerCertificateRenewal}
    {cert : ByocServerCertificate} {signed : Option AgentCSR} {dnsRecords : List String} {lane : Lane}
    (h : commitRenewal ambient reg completed cert signed dnsRecords lane s = .ok (u, t)) :
    Renewed (w := w) reg.agentID ⟨op, .commitRenewal reg completed cert signed dnsRecords lane, s, t⟩ := by
  obtain ⟨hactive, _, _, hbyoc, payload, houtbox⟩ := commitRenewal_stored h
  have hcertificate := (congrArg (·.since s.byoc.next) hbyoc).trans since_insert
  have hevent := (congrArg (·.since s.outbox.next) houtbox).trans since_insert
  exact ⟨hactive, ⟨_, hcertificate, rfl⟩, _, hevent, rfl, rfl⟩

theorem Accounted.called {r : c.Reply} {op : Op} {commits : List (Commit (service w))} (hs : Accounted s commits)
    (hhands : Hands c s) (h : c.exec ambient s = .ok (r, t)) : Accounted t (commits ++ [⟨op, c, s, t⟩]) := by
  have hone := hs.one.kept hhands h
  by_cases hc : c.movesRenewals = false
  · have hsettles := settles_of_exec hhands hc h
    refine hs.other hone ?_ hsettles.kept ?_
    · intro id
      cases c <;> first | rfl | cases hc
    · intro id r' hr' hdone
      exact (hsettles.origin id r' hr').resolve_right fun hfailed => hfailed.1 hdone
  cases c with
  | submitRenewal agentID csr renewal =>
    obtain ⟨hnew, _, hopen, _⟩ := hhands
    obtain ⟨_, _, hrenewals⟩ := submitRenewal_stored h hnew
    refine hs.other hone (fun _ => rfl) ?_ ?_ <;> rw [hrenewals]
    · exact fun id r' hr' _ => mem_insert.mpr (.inl hr')
    · intro id r' hr' hdone
      rcases mem_insert.mp hr' with hold | heq
      · exact hold
      · obtain ⟨_, rfl⟩ := Prod.mk.inj heq
        exact absurd hopen hdone.1
  | cancelRenewal agentID renewalID =>
    obtain ⟨⟨row, hrow, hopen⟩, hrenewals⟩ := cancelRenewal_stored h
    refine hs.other hone (fun _ => rfl) ?_ ?_ <;> rw [hrenewals]
    · intro id r' hr' hdone
      refine mem_delete.mpr ⟨hr', ?_⟩
      rw [beq_eq_false_iff_ne]
      rintro rfl
      exact hdone (mem_unique hr' hrow ▸ hopen)
    · exact fun id r' hr' _ => (mem_delete.mp hr').1
  | commitRenewal reg completed cert signed dnsRecords lane =>
    obtain ⟨hdone, hreason, _⟩ := hhands
    obtain ⟨_, ⟨row, hrow, hagent, hopen⟩, hrenewals, _⟩ := commitRenewal_stored h
    -- the renewal was open, so it has no commit yet
    have hfirst : commits.filter (renews completed.id) = [] := by
      rcases hs.committed completed.id with hempty | ⟨_, other, _, hother, hcompleted, _⟩
      · exact hempty
      · rw [mem_unique hother hrow] at hcompleted
        exact absurd hopen hcompleted.1
    have hother {id : Nat} (hid : id ≠ completed.id) {r' : ServerCertificateRenewal} :
        (id, r') ∈ t.renewals.rows ↔ (id, r') ∈ s.renewals.rows := by
      rw [hrenewals, mem_putRenewal]
      simp [isOpenRenewal, hid]
    have hself : (completed.id, overwriteRenewal completed row) ∈ t.renewals.rows := by
      rw [hrenewals, mem_putRenewal]
      exact ⟨row, hrow, by simp [isOpenRenewal, hopen]⟩
    have hfilter (id : Nat) : (commits ++ [(⟨op, .commitRenewal reg completed cert signed dnsRecords lane, s, t⟩ :
        Commit (service w))]).filter (renews id) = commits.filter (renews id) ++
          if completed.id = id then [⟨op, .commitRenewal reg completed cert signed dnsRecords lane, s, t⟩] else [] := by
      rw [filter_append]
      by_cases hid : completed.id = id <;> simp [renews, hid]
    refine ⟨hone, ?_, ?_⟩ <;> intro id <;> rw [hfilter] <;> by_cases hid : completed.id = id
    · simp [hid]
    · intro r' hr' hsucceeded
      rw [if_neg hid, append_nil]
      exact hs.backed id r' ((hother (Ne.symm hid)).mp hr') hsucceeded
    · subst hid
      rw [if_pos rfl, hfirst, nil_append]
      refine .inr ⟨_, _, rfl, hself, ⟨hdone, hreason⟩, ?_⟩
      have hagents : (overwriteRenewal completed row).agentID = reg.agentID := hagent
      rw [hagents]
      exact renewed_of_exec h
    · rw [if_neg hid, append_nil]
      rcases hs.committed id with hempty | ⟨k', r', hcommit, hr', hsucceeded, hrenewed⟩
      · exact .inl hempty
      · exact .inr ⟨k', r', hcommit, (hother (Ne.symm hid)).mpr hr', hsucceeded, hrenewed⟩
  | _ => exact absurd rfl hc

/-! ### Every run -/

/-- The steps that store a server certificate: a registration, a domain validation and the commit of a renewal. -/
def storesServerCertificate : Call → Bool
  | .register _ | .commitACME .. | .commitRenewal .. => true
  | _ => false

theorem byoc_eq_of_exec {r : c.Reply} (hc : storesServerCertificate c = false) (h : c.exec ambient s = .ok (r, t)) :
    t.byoc = s.byoc := by
  apply (c.performed ambient s r t h).column_eq
  intro _ st _ hst hleaves
  apply hleaves.byoc_eq
  intro htable
  cases hst with
  | registerByoc | advanceByoc | renewByoc => cases hc
  | _ => cases htable

theorem Accounted.empty : Accounted (w := w) Store.empty [] := by
  constructor <;> simp [OneOpen, Store.empty]

/-- Let the operations run one after the other in the granting world, as long as their calls are admitted. -/
def inTurn (admits : Call → Store → Bool) : Chronicle (service {}) → List Op → Chronicle (service {})
  | x, [] => x
  | x, op :: rest => inTurn admits ((x.spawn op).drive admits x.recorded.pool.threads.length grantingAmbient
      (grantingWorld "agent-1" "log-1") 40) rest

theorem inTurn_chronicled {allows : Call → Store → Prop} {admits : Call → Store → Bool}
    (hadmits : ∀ c s, admits c s = true → allows c s) (ops : List Op) {x : Chronicle (service {})}
    (h : Chronicled (service {}) allows x) : Chronicled (service {}) allows (inTurn admits x ops) := by
  induction ops generalizing x with
  | nil => exact h
  | cons op rest ih => exact ih ((h.spawn op).drive hadmits _ _ _ _)

/-- A registration is activated, and its server certificate is renewed. -/
def renewedOnce : Chronicle (service {}) :=
  inTurn (fun _ _ => true) (.start _) [.registerAgent sampleRequest, .verifyACME "agent-1", .verifyDNS "agent-1" .v2,
    .submitServerCertRenewal "agent-1" { serverCertificatePEM := "renewed" }, .verifyRenewalACME "agent-1" .v2]

set_option maxRecDepth 20000 in
theorem renewedOnce_completed : renewedOnce.state.renewals.rows.map (fun row =>
    (row.1, row.2.agentID, row.2.completedAt.isSome, row.2.failureReason)) = [(1, "agent-1", true, "")] := by
  decide +kernel

end AgentNameService.Registration
