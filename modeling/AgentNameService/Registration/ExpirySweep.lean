/-
Purpose: The sweep that fails lapsed renewals, among the other operations.  It works on a list that it read at its start
  and saves each row where the row is not completed, whatever became of its validation; and the first save that conflicts
  ends the sweep.  Where every save finds its row as it was listed, the sweep spares verified renewals and fails every
  lapsed one.
Source: internal/ra/service/renewal_expiry.go, internal/adapter/store/sqlite/renewal.go
Trusted boundary: none
-/
import AgentNameService.Foundation.Solo
import AgentNameService.Registration.Renewals

namespace AgentNameService.Registration

open Interleaving Interleaving.Prog Store List Except Prog Tx Table

variable {s t : Store} {c : Call} {w : Wiring} {r : ServerCertificateRenewal}

/-! ### What is claimed, and when it holds -/

/-- A save that fails the validation of a renewal finds the renewal open and its validation pending. -/
def SweepsPending : Call → Store → Prop
  | .saveRenewal r, s => r.validation.status = .failed → ∃ stored ∈ s.renewals.rows,
      stored.1 = r.id ∧ stored.2.completedAt = none ∧ stored.2.validation.status = .pending
  | _, _ => True

instance (c : Call) (s : Store) : Decidable (SweepsPending c s) :=
  match c with
  | .saveRenewal r => inferInstanceAs (Decidable (r.validation.status = .failed → ∃ stored ∈ s.renewals.rows, _))
  | .read _ | .saveAgent _ | .saveCSR .. | .prepareActivationSeal .. | .expireLapsedPendingValidation _
  | .delivery _ | .register _ | .commitACME .. | .commitActivation .. | .commitRevocation .. | .commitCancellation ..
  | .sweepCertificates _ | .commitIdentityCSR .. | .commitServerCSR .. | .submitRenewal .. | .cancelRenewal ..
  | .commitRenewal .. => .isTrue trivial

/-- The renewal is open, its validation is pending, and the window has closed. -/
def Lapsed (now : Time) (r : ServerCertificateRenewal) : Prop :=
  r.completedAt = none ∧ r.validation.status = .pending ∧ r.validation.expiresAt ≤ now

/-- The renewal with the id has been failed by a sweep. -/
def Expired (id : Nat) (s : Store) : Prop :=
  ∃ r, (id, r) ∈ s.renewals.rows ∧ r.completedAt ≠ none ∧ r.failureReason = "Renewal validation expired"

/-- The renewal with the id is the same in both states. -/
def RenewalKept (id : Nat) (s t : Store) : Prop := ∀ r, (id, r) ∈ t.renewals.rows ↔ (id, r) ∈ s.renewals.rows

/-- A move that is no failure from outside for the thread, and leaves the renewal with the id alone unless it is a move
of the thread itself. -/
def Undisturbed (i id : Nat) (p : Pool (service w)) (m : Move (service w)) : Prop :=
  (∀ e, m ≠ .fault i e) ∧ (m.isOf i = false → ∀ q, p.step m = some q → RenewalKept id p.state q.state)

/-- The call of a move meets the condition. -/
def Conforms (p : Pool (service w)) (m : Move (service w)) : Prop :=
  ∀ c, p.callOf m = some c → SweepsPending c p.state

/-! ### The save of a sweep -/

/-- A renewal as the sweep lists it. -/
def Listed (r : ServerCertificateRenewal) : Prop := r.completedAt = none ∧ r.validation.status = .pending

/-- What the sweep saves for a listed renewal. -/
def expiredCopy (r : ServerCertificateRenewal) (now : Time) : ServerCertificateRenewal :=
  { r with validation := { r.validation with status := .failed }, failureReason := "Renewal validation expired",
           completedAt := some now }

theorem markFailed_listed (hr : Listed r) (now : Time) :
    { r with validation := r.validation.markFailed.toOption.getD r.validation }.markFailed
      "Renewal validation expired" now = .ok (expiredCopy r now) := by
  have hvalidation : r.validation.markFailed = .ok { r.validation with status := .failed } := by
    simp [RenewalValidation.markFailed, hr.2]
  rw [hvalidation]
  simp [ServerCertificateRenewal.markFailed, hr.1, expiredCopy, Except.toOption]

theorem mem_listPendingExpired {now : Time} {expired : List ServerCertificateRenewal}
    (h : listPendingExpired now s = .ok (expired, t)) :
    (∀ r ∈ expired, Listed r) ∧ ∀ id r, (id, r) ∈ s.renewals.rows → Lapsed now r → { r with id } ∈ expired := by
  obtain ⟨rfl, _⟩ := run_reads_eq_ok_iff.mp h
  constructor
  · intro r hr
    obtain ⟨row, hrow, rfl⟩ := mem_map.mp hr
    obtain ⟨_, hsel⟩ := mem_select.mp hrow
    simp only [Bool.and_eq_true, beq_iff_eq, Option.isNone_iff_eq_none] at hsel
    exact ⟨hsel.1.1, hsel.1.2⟩
  · rintro id r hr ⟨hopen, hpending, hexpires⟩
    refine mem_map.mpr ⟨(id, r), mem_select.mpr ⟨hr, ?_⟩, rfl⟩
    simp [hopen, hpending, hexpires]

/-- A save on an open row overwrites it. -/
theorem saveRenewal_open {row : ServerCertificateRenewal} (hrow : (r.id, row) ∈ s.renewals.rows)
    (hopen : row.completedAt = none) : saveRenewal r s = .ok ((), putRenewal r s) := by
  have hid : r.id ≠ 0 := Nat.pos_iff_ne_zero.mp (s.renewals.bounded _ hrow).1
  have hone : s.renewals.select (isOpenRenewal r.id) = [(r.id, row)] := by
    apply select_eq_singleton hrow
    · simp [isOpenRenewal, hopen]
    · intro j b _ hsel
      simp only [isOpenRenewal, Bool.and_eq_true, beq_iff_eq] at hsel
      exact hsel.1
  simp only [saveRenewal, run_bind_eq_ok_iff, run_get_eq_ok_iff, run_ite_eq_ok_iff, run_set_eq_ok_iff,
    run_require_eq_ok_iff]
  refine ⟨s, s, ⟨rfl, rfl⟩, .inr ⟨hid, (), s, ⟨?_, rfl⟩, rfl⟩⟩
  rw [hone]
  rfl

/-! ### The calls of a sweep -/

/-- What a sweep calls: reads, rejected requests, and failed renewals. -/
def Sweeps : Call → Prop
  | .read _ | .saveCSR .. => True
  | .saveRenewal r => r.validation.status = .failed
  | _ => False

/-- Every call of a sweep is one of a sweep. -/
def sweepWatch (w : Wiring) : Watch discipline (service w) where
  Inv _ := True
  Rely _ _ := True
  Calls _ op c _ := ∀ now, op = .expireRenewals now → Sweeps c
  Asks _ _ _ _ := True
  refl _ := trivial
  trans _ _ _ _ _ := trivial
  called _ _ _ _ _ _ _ _ _ _ _ _ := ⟨trivial, trivial⟩
  asked _ _ _ _ _ _ _ _ := ⟨trivial, trivial⟩

theorem program_heeds_sweep {i : Nat} {scene : Scene (service w)} (op : Op) :
    (op.program w).Heeds (sweepWatch w) i op (fun _ _ => True) scene := by
  cases op with
  | expireRenewals now =>
    have hread (r : Read) (t : Scene (service w)) : (sweepWatch w).Calls i (.expireRenewals now) (.read r) t :=
      fun _ _ => trivial
    have hbody : (expireRenewalsOnce now).Heeds (sweepWatch w) i (.expireRenewals now) (fun _ _ => True) scene := by
      apply heeds_find (hread _)
      intro t time (expired : List ServerCertificateRenewal) _ _ hfind
      have hlist : listPendingExpired time t.state = .ok (expired, t.state) := hfind
      have hlisted := (mem_listPendingExpired hlist).1
      apply Heeds.bind
      · apply Heeds.forEach (fun _ _ _ _ => trivial) trivial
        intro r hr u _ _
        dsimp only
        rw [markFailed_listed (hlisted r hr)]
        apply heeds_run (fun _ _ _ _ _ _ _ => rfl)
        intros
        refine heeds_ite (fun _ => ?_) fun _ => trivial
        apply heeds_tryFind (hread _)
        intro v found _ _ _
        cases found with
        | error e => trivial
        | ok csr =>
          dsimp only
          split
          · trivial
          · apply Heeds.attempt
            intro x _ _ _ _
            refine ⟨fun _ _ => trivial, ?_, ?_⟩ <;> · intros; trivial
      · intros
        trivial
    apply Heeds.bind hbody
    intros
    trivial
  | _ =>
    apply heeds_yields (program_reaches w _)
    · intro c _ t _ _ now hop
      cases hop
    · intros
      trivial

/-- A save of the sweep spares every verified renewal, where it finds its own as it was listed. -/
theorem sweeps_spares {ambient : Ambient} {reply : c.Reply} (hsweeps : Sweeps c) (hpending : SweepsPending c s)
    (h : c.exec ambient s = .ok (reply, t)) {id : Nat}
    (hr : (id, r) ∈ s.renewals.rows) (hverified : r.validation.status = .verified) : (id, r) ∈ t.renewals.rows := by
  cases c with
  | read =>
    obtain rfl := Read.exec_unchanged h
    exact hr
  | saveCSR agentID csr =>
    have hexec : (Statement.saveCSR agentID csr).exec s = .ok ((), t) := h
    rw [(Statement.leaves hexec).renewals_eq nofun]
    exact hr
  | saveRenewal copy =>
    obtain ⟨⟨key, row⟩, hrow, rfl, hopen, hstatus⟩ := hpending hsweeps
    have hexec := saveRenewal_open hrow hopen
    obtain rfl : putRenewal copy s = t := (Prod.mk.inj (ok.inj (hexec.symm.trans h))).2
    refine mem_putRenewal.mpr ⟨r, hr, ?_⟩
    have hother : id ≠ copy.id := by
      rintro rfl
      rw [mem_unique hr hrow] at hverified
      rw [hverified] at hstatus
      cases hstatus
    simp [isOpenRenewal, hother]
  | _ => exact hsweeps.elim

/-! ### The loop of a sweep -/

/-- The renewal with the id has been failed, or it is open and still on the list. -/
def Due (id : Nat) (rest : List ServerCertificateRenewal) (s : Store) : Prop :=
  (∀ r ∈ rest, Listed r) ∧
    (Expired id s ∨ (∃ row, (id, row) ∈ s.renewals.rows ∧ row.completedAt = none) ∧ ∃ r ∈ rest, r.id = id)

theorem Due.same {id : Nat} {rest : List ServerCertificateRenewal} (h : RenewalKept id s t) (hs : Due id rest s) :
    Due id rest t := by
  refine ⟨hs.1, hs.2.imp ?_ ?_⟩
  · rintro ⟨r, hr, hdone⟩
    exact ⟨r, (h r).mpr hr, hdone⟩
  · rintro ⟨⟨row, hrow, hopen⟩, hlisted⟩
    exact ⟨⟨row, (h row).mpr hrow, hopen⟩, hlisted⟩

theorem RenewalKept.of_eq {id : Nat} (h : t.renewals = s.renewals) : RenewalKept id s t := by
  intro r
  rw [h]

/-- The save of the first renewal on the list. -/
theorem Due.saved {id : Nat} {row : ServerCertificateRenewal} {rest : List ServerCertificateRenewal} {now : Time}
    (hs : Due id (r :: rest) s) (hrow : (r.id, row) ∈ s.renewals.rows) (hopen : row.completedAt = none) :
    Due id rest (putRenewal (expiredCopy r now) s) := by
  refine ⟨fun r' hr' => hs.1 r' (mem_cons_of_mem r hr'), ?_⟩
  by_cases hid : r.id = id
  · left
    subst hid
    refine ⟨overwriteRenewal (expiredCopy r now) row, mem_putRenewal.mpr ⟨row, hrow, ?_⟩, Option.some_ne_none now, rfl⟩
    simp [isOpenRenewal, expiredCopy, hopen]
  · have hsame : RenewalKept id s (putRenewal (expiredCopy r now) s) := by
      intro r'
      have hne : id ≠ (expiredCopy r now).id := Ne.symm hid
      rw [mem_putRenewal]
      simp [isOpenRenewal, hne]
    rcases (hs.same hsame).2 with hexpired | ⟨hstill, r', hr', hlisted⟩
    · exact .inl hexpired
    · refine .inr ⟨hstill, r', ?_, hlisted⟩
      rcases mem_cons.mp hr' with rfl | hrest
      · exact absurd hlisted hid
      · exact hrest

section

variable {id : Nat} {rest : List ServerCertificateRenewal}

/-- The request of a failed renewal is rejected, or not; the renewals stay as they are. -/
theorem rejectExpiredCSR_carries (r : ServerCertificateRenewal) (now : Time) (hs : Due id rest s) :
    (rejectExpiredCSR r now).Carries SweepsPending (RenewalKept id)
      (fun outcome t => ∃ a, outcome = .ok a ∧ Due id rest t) s := by
  have hret {u : Store} (hu : Due id rest u) : (pure () : Program Unit).Carries SweepsPending (RenewalKept id)
      (fun outcome t => ∃ a, outcome = .ok a ∧ Due id rest t) u := fun v huv => ⟨(), rfl, hu.same huv⟩
  unfold rejectExpiredCSR
  split
  · intro t hst _
    have ht := hs.same hst
    constructor
    · intro ambient (csr : AgentCSR) u hexec
      have hread : (Read.findCSRByID r.agentID r.serverCsrID).exec ambient.now t = .ok (csr, u) := hexec
      obtain rfl := Read.exec_unchanged hread
      dsimp only [Prog.bind]
      split
      · exact hret ht
      · rename_i rejected _
        intro u htu _
        have hu := ht.same htu
        constructor
        · intro ambient reply v hexec
          have hsave : (Statement.saveCSR r.agentID rejected).exec u = .ok ((), v) := hexec
          have hrenewals := (Statement.leaves hsave).renewals_eq (by intro h; cases h)
          exact hret (hu.same (.of_eq hrenewals))
        · exact fun _ _ _ => hret hu
    · exact fun _ _ _ => hret ht
  · exact hret hs

/-- One turn of the sweep. -/
theorem sweep_carries (r : ServerCertificateRenewal) (now : Time) (hs : Due id (r :: rest) s) :
    Carries SweepsPending (RenewalKept id)
      (match { r with validation := r.validation.markFailed.toOption.getD r.validation }.markFailed
          "Renewal validation expired" now with
        | .error _ => pure ()
        | .ok failed => do
            run (.saveRenewal failed)
            rejectExpiredCSR failed now)
      (fun outcome t => ∃ a, outcome = .ok a ∧ Due id rest t) s := by
  rw [markFailed_listed (hs.1 r (mem_cons_self ..))]
  apply Carries.bind (G := fun _ => Due id rest) (fun _ _ => Iff.rfl)
  · intro t hst hpending
    obtain ⟨⟨key, row⟩, hrow, hkey, hopen, _⟩ := hpending rfl
    obtain rfl : key = r.id := hkey
    have hsave : saveRenewal (expiredCopy r now) t = .ok ((), putRenewal (expiredCopy r now) t) :=
      saveRenewal_open hrow hopen
    constructor
    · intro ambient reply u hexec
      obtain rfl : putRenewal (expiredCopy r now) t = u :=
        (Prod.mk.inj (ok.inj (hsave.symm.trans hexec))).2
      exact fun v huv => ⟨(), rfl, ((hs.same hst).saved hrow hopen).same huv⟩
    · intro ambient e hexec
      cases hsave.symm.trans hexec
  · exact fun _ _ ht => rejectExpiredCSR_carries _ now ht

/-- The sweep with its list. -/
theorem sweepLoop_carries (now : Time) (expired : List ServerCertificateRenewal) (hs : Due id expired s) :
    Carries SweepsPending (RenewalKept id)
      (((forEach expired fun r =>
          match { r with validation := r.validation.markFailed.toOption.getD r.validation }.markFailed
              "Renewal validation expired" now with
            | .error _ => pure ()
            | .ok failed => do
                run (.saveRenewal failed)
                rejectExpiredCSR failed now) >>= fun _ => pure expired.length) >>= fun n => pure (Outcome.swept n))
      (fun _ t => Expired id t) s := by
  have hrefl (s : Store) : RenewalKept id s s := fun _ => Iff.rfl
  apply Carries.bind (G := fun _ => Due id []) hrefl
  · apply Carries.bind hrefl
    · exact Carries.forEach (G := Due id) hrefl (fun _ _ _ hst => .same hst)
        (fun r _ _ ht => sweep_carries r now ht) hs
    · exact fun _ t ht u htu => ⟨_, rfl, ht.same htu⟩
  · intro _ t ht u htu
    rcases (ht.same htu).2 with hexpired | ⟨_, r, hr, _⟩
    · exact hexpired
    · cases hr

end

/-! ### Every run -/

/-- The sweep, from the state in which it reads its list. -/
theorem expired_of_sweep (now : Time) {ambient : Ambient} {p q q' : Pool (service w)} {i id : Nat}
    {outcome : Except Error Outcome}
    (hthread : p.threads[i]? = some (.expireRenewals now, Op.program w (.expireRenewals now)))
    (hstep : p.step (.perform i ambient) = some q) (hrun : Onward (fun p m => Undisturbed i id p m ∧ Conforms p m) q q')
    (hend : q'.threads[i]? = some (.expireRenewals now, .ret outcome)) (hr : (id, r) ∈ p.state.renewals.rows)
    (hlapsed : Lapsed ambient.now r) : Expired id q'.state := by
  obtain ⟨expired, hlist⟩ : ∃ expired, listPendingExpired ambient.now p.state = .ok (expired, p.state) := ⟨_, rfl⟩
  obtain ⟨hlisted, hmem⟩ := mem_listPendingExpired hlist
  have hdue : Due id expired p.state := ⟨hlisted, .inr ⟨⟨r, hr, hlapsed.1⟩, _, hmem id r hr hlapsed, rfl⟩⟩
  have hexec : RA.exec (.read .listPendingExpired) ambient p.state = .ok (expired, p.state) := hlist
  obtain ⟨hnext, hstate⟩ := Pool.step_performed hthread hexec hstep
  rw [← hstate] at hdue
  obtain ⟨rest, hrest, hcarries⟩ := Onward.carries
    (fun _ _ => Iff.rfl) (fun s t u hst htu r => (htu r).trans (hst r)) (fun p e hpermits => hpermits.1.1 e rfl)
    (fun p input op c next hpermits hcall => hpermits.2 c (by simp [Pool.callOf, hcall]))
    (fun p m q hpermits hof hstep => hpermits.1.2 hof q hstep) hnext (sweepLoop_carries now expired hdue) hrun
  rw [hend] at hrest
  cases hrest
  exact hcarries _ fun _ => Iff.rfl

/-- In every run in which each save of a sweep finds its renewal as it was listed, open and pending: no commit of a sweep
changes a renewal that is verified at that moment; and when a sweep ends, it has failed every renewal that was lapsed in
the state in which it read its list and that no other call touched. -/
theorem expiry_sweep_precise_and_robust (w : Wiring) {x : Chronicle (service w)}
    (h : Chronicled (service w) SweepsPending x) :
    (∀ k ∈ x.commits, ∀ now, k.op = .expireRenewals now → ∀ id r, (id, r) ∈ k.before.renewals.rows →
      r.validation.status = .verified → (id, r) ∈ k.after.renewals.rows) ∧ ∀ i now ambient q q' outcome id r,
      x.recorded.pool.threads[i]? = some (.expireRenewals now, Op.program w (.expireRenewals now)) →
      x.recorded.pool.step (.perform i ambient) = some q →
      Onward (fun p m => Undisturbed i id p m ∧ Conforms p m) q q' →
      q'.threads[i]? = some (.expireRenewals now, .ret outcome) →
      (id, r) ∈ x.state.renewals.rows → Lapsed ambient.now r → Expired id q'.state := by
  constructor
  · apply (sweepWatch w).chronicled (governs w) trivial (fun i op s _ _ => program_heeds_sweep op)
      (J := fun _ commits => ∀ k ∈ commits, ∀ now, k.op = .expireRenewals now → ∀ id r,
        (id, r) ∈ k.before.renewals.rows → r.validation.status = .verified → (id, r) ∈ k.after.renewals.rows) _ _ h
    · exact forall_mem_nil _
    · intro i op c ambient s reply t commits _ _ _ hcalls hallows hs hexec k hk now hop id r hr hverified
      rcases mem_append.mp hk with hold | hnew
      · exact hs k hold now hop id r hr hverified
      · obtain rfl := mem_singleton.mp hnew
        exact sweeps_spares (hcalls now hop) hallows hexec hr hverified
  · intro i now ambient q q' outcome id r hthread hstep hrun hend hr hlapsed
    exact expired_of_sweep now hthread hstep hrun hend hr hlapsed

/-! ### Runs -/

/-- The granting world with a provider whose orders close at 2000 and stay pending. -/
def lapsingWorld (id : String) : (q : Query) → q.Answer
  | .createOrder .. => .ok (some
      { orderRef := "order-1", state := .pending, challenges := [⟨.dns01, "token", "", "", "", ""⟩],
        expiresAt := some 2000 })
  | q => grantingWorld id "log-1" q

/-- After the orders have closed. -/
def lateAmbient : Ambient := { grantingAmbient with now := 3000, clock := 3000 }

/-- An agent is registered and activated, and submits a request for a new server certificate. -/
def renewing (x : Chronicle (service {})) (agentID host : String) : Chronicle (service {}) :=
  [.registerAgent { sampleRequest with ansName := ⟨⟨1, 0, 0⟩, host⟩ }, .verifyACME agentID, .verifyDNS agentID .v2,
    .submitServerCertRenewal agentID { serverCsrPEM := "renewal-csr" }].foldl
    (fun x op => (x.spawn op).drive (fun c s => decide (SweepsPending c s)) x.recorded.pool.threads.length
      grantingAmbient (lapsingWorld agentID) 40) x

theorem renewing_chronicled {x : Chronicle (service {})} (h : Chronicled (service {}) SweepsPending x)
    (agentID host : String) : Chronicled (service {}) SweepsPending (renewing x agentID host) := by
  apply foldlRecOn (motive := Chronicled (service {}) SweepsPending) _ _ h
  intro x hx op _
  exact (hx.spawn op).drive (fun _ _ h => of_decide_eq_true h) _ _ _ _

/-- What the renewals of a state have come to. -/
def renewalStates (s : Store) : List (Nat × ValidationStatus × Bool × String) :=
  s.renewals.rows.map fun row =>
    (row.1, row.2.validation.status, row.2.completedAt.isSome, row.2.failureReason)

theorem mem_of_renewalStates {rows : List (Nat × ValidationStatus × Bool × String)} {id : Nat}
    {state : ValidationStatus × Bool × String} (h : renewalStates s = rows) (hmem : (id, state) ∈ rows) :
    ∃ r, (id, r) ∈ s.renewals.rows ∧ (r.validation.status, r.completedAt.isSome, r.failureReason) = state := by
  rw [← h] at hmem
  obtain ⟨⟨key, r⟩, hr, heq⟩ := mem_map.mp hmem
  obtain ⟨rfl, hstate⟩ := Prod.mk.inj heq
  exact ⟨r, hr, hstate⟩

/-- A sweep is about to read its list, with two lapsed renewals. -/
def beforeSweep : Chronicle (service {}) :=
  (renewing (renewing (.start _) "agent-1" "a.example.com") "agent-2" "b.example.com").spawn (.expireRenewals 3000)

theorem beforeSweep_chronicled : Chronicled (service {}) SweepsPending beforeSweep :=
  (renewing_chronicled (renewing_chronicled .start _ _) _ _).spawn _

set_option maxRecDepth 20000 in
theorem beforeSweep_thread :
    beforeSweep.recorded.pool.threads[8]? = some (.expireRenewals 3000, Op.program {} (.expireRenewals 3000)) := by
  have hlength : (renewing (renewing (.start _) "agent-1" "a.example.com") "agent-2"
    "b.example.com").recorded.pool.threads.length = 8 := by decide +kernel
  rw [← hlength]
  exact getElem?_concat_length

set_option maxRecDepth 20000 in
theorem beforeSweep_lapsed : ∃ r, (2, r) ∈ beforeSweep.state.renewals.rows ∧ Lapsed lateAmbient.now r := by
  have hlapsed : beforeSweep.state.renewals.rows.map (fun row => (row.1, row.2.completedAt, row.2.validation.status,
      row.2.validation.expiresAt)) = [(1, none, .pending, 2000), (2, none, .pending, 2000)] := by decide +kernel
  have hmem : (2, none, ValidationStatus.pending, 2000) ∈ beforeSweep.state.renewals.rows.map (fun row =>
      (row.1, row.2.completedAt, row.2.validation.status, row.2.validation.expiresAt)) := by
    rw [hlapsed]
    decide
  obtain ⟨⟨key, r⟩, hr, heq⟩ := mem_map.mp hmem
  simp only [Prod.mk.injEq] at heq
  obtain ⟨rfl, hopen, hpending, hexpires⟩ := heq
  refine ⟨r, hr, hopen, hpending, ?_⟩
  rw [hexpires]
  decide

/-- The renewal with the id is untouched by a move of another thread, and the move is no failure. -/
def leavesAlone (i id : Nat) (p : Pool (service {})) (m : Move (service {})) (q : Pool (service {})) : Bool :=
  (m matches .spawn _ | .perform .. | .answer ..) && (m.isOf i ||
    q.state.renewals.rows.filter (·.1 == id) == p.state.renewals.rows.filter (·.1 == id))

theorem undisturbed_of_leavesAlone {i id : Nat} {p q : Pool (service {})} {m : Move (service {})}
    (hstep : p.step m = some q) (h : leavesAlone i id p m q = true) : Undisturbed i id p m := by
  simp only [leavesAlone, Bool.and_eq_true, Bool.or_eq_true, beq_iff_eq] at h
  obtain ⟨hmove, hsame⟩ := h
  constructor
  · rintro e rfl
    cases hmove
  · intro hof q' hstep' r
    obtain rfl : q = q' := Option.some.inj (hstep.symm.trans hstep')
    rw [hof] at hsame
    have hfilter := hsame.resolve_left Bool.false_ne_true
    have hmem (t : Store) : (id, r) ∈ t.renewals.rows ↔ (id, r) ∈ t.renewals.rows.filter (·.1 == id) := by simp
    rw [hmem, hmem, hfilter]

/-- The outcome of a thread that has ended. -/
def outcomeOf (p : Pool (service {})) (i : Nat) : Option (Op × Except Error Outcome) :=
  match p.threads[i]? with
  | some (op, .ret outcome) => some (op, outcome)
  | _ => none

theorem thread_of_outcomeOf {p : Pool (service {})} {i : Nat} {op : Op} {outcome : Except Error Outcome}
    (h : outcomeOf p i = some (op, outcome)) : p.threads[i]? = some (op, .ret outcome) := by
  unfold outcomeOf at h
  split at h
  · rename_i heq
    cases h
    exact heq
  · cases h

/-- The rest of a sweep by itself. -/
def sweepAlone (q : Pool (service {})) : Pool (service {}) :=
  q.follow (fun p m q => leavesAlone 8 2 p m q && (p.callOf m).all fun c => decide (SweepsPending c p.state))
    (replicate 10 (.perform 8 lateAmbient))

theorem sweepAlone_onward (q : Pool (service {})) :
    Onward (fun p m => Undisturbed 8 2 p m ∧ Conforms p m) q (sweepAlone q) := by
  apply Onward.follow
  intro p m q' hstep hcheck
  simp only [Bool.and_eq_true] at hcheck
  refine ⟨undisturbed_of_leavesAlone hstep hcheck.1, ?_⟩
  intro c hcall
  rw [hcall] at hcheck
  exact of_decide_eq_true hcheck.2

set_option maxRecDepth 20000 in
theorem sweepAlone_ends : ((beforeSweep.recorded.pool.step (.perform 8 lateAmbient)).map fun q =>
    (outcomeOf (sweepAlone q) 8).map fun ended => (ended.1, ended.2.isOk)) =
      some (some (.expireRenewals 3000, true)) := by decide +kernel

/-- A sweep that is left alone fails the lapsed renewal. -/
theorem expiry_sweep_precise_and_robust_alone : ∃ q, beforeSweep.recorded.pool.step (.perform 8 lateAmbient) = some q ∧
    Expired 2 (sweepAlone q).state := by
  obtain ⟨q, hstep, hend⟩ := Option.map_eq_some_iff.mp sweepAlone_ends
  obtain ⟨⟨op, outcome⟩, hended, hop⟩ := Option.map_eq_some_iff.mp hend
  obtain rfl : op = .expireRenewals 3000 := (Prod.mk.inj hop).1
  obtain ⟨r, hr, hlapsed⟩ := beforeSweep_lapsed
  refine ⟨q, hstep, ?_⟩
  exact (expiry_sweep_precise_and_robust {} beforeSweep_chronicled).2 8 3000 lateAmbient q _ outcome 2 r
    beforeSweep_thread hstep (sweepAlone_onward q) (thread_of_outcomeOf hended) hr hlapsed

/-- Let a thread run in that world. -/
def lapse (x : Chronicle (service {})) (thread : Nat) (ambient : Ambient) (moves : Nat) : Chronicle (service {}) :=
  x.drive (fun _ _ => true) thread ambient (lapsingWorld "agent-1") moves

theorem lapse_chronicled {x : Chronicle (service {})} (h : Chronicled (service {}) (fun _ _ => True) x) (thread : Nat)
    (ambient : Ambient) (moves : Nat) : Chronicled (service {}) (fun _ _ => True) (lapse x thread ambient moves) :=
  h.drive (fun _ _ _ => trivial) _ _ _ _

/-- A verification of the renewal has begun in time; the sweep lists the renewal as pending; the verification is stored;
the sweep saves its copy. -/
def failedWhileVerified : Chronicle (service {}) :=
  let verifying := lapse ((renewing (.start _) "agent-1" "a.example.com").spawn (.verifyRenewalACME "agent-1" .v2))
    4 grantingAmbient 10
  let listed := lapse (verifying.spawn (.expireRenewals 3000)) 5 lateAmbient 1
  lapse (lapse listed 4 lateAmbient 1) 5 lateAmbient 1

theorem failedWhileVerified_chronicled : Chronicled (service {}) (fun _ _ => True) failedWhileVerified := by
  have hrenewing : Chronicled (service {}) (fun _ _ => True) (renewing (.start _) "agent-1" "a.example.com") :=
    (renewing_chronicled .start _ _).mono fun _ _ _ => trivial
  have hverifying := lapse_chronicled (hrenewing.spawn (.verifyRenewalACME "agent-1" .v2)) 4 grantingAmbient 10
  have hlisted := lapse_chronicled (hverifying.spawn (.expireRenewals 3000)) 5 lateAmbient 1
  exact lapse_chronicled (lapse_chronicled hlisted 4 lateAmbient 1) 5 lateAmbient 1

set_option maxRecDepth 20000 in
theorem failedWhileVerified_commit :
    failedWhileVerified.commits.getLast?.map (fun k => decide (k.op = Op.expireRenewals 3000)) = some true ∧
    failedWhileVerified.commits.getLast?.map (renewalStates ·.before) = some [(1, .verified, false, "")] ∧
    failedWhileVerified.commits.getLast?.map (renewalStates ·.after) =
      some [(1, .failed, true, "Renewal validation expired")] := by decide +kernel

/-- A sweep has its list; the first renewal on it is cancelled; the sweep goes on. -/
def sweepAfterCancel (q : Pool (service {})) : Pool (service {}) :=
  q.follow (leavesAlone 8 2) [.spawn (.cancelServerCertRenewal "agent-1"), .perform 9 lateAmbient,
    .perform 9 lateAmbient, .perform 8 lateAmbient]

set_option maxRecDepth 20000 in
theorem sweepAfterCancel_ends : ((beforeSweep.recorded.pool.step (.perform 8 lateAmbient)).map fun q =>
    ((outcomeOf (sweepAfterCancel q) 8).map fun ended => (ended.1, ended.2.isOk),
      renewalStates (sweepAfterCancel q).state)) =
    some (some (.expireRenewals 3000, false), [(2, .pending, false, "")]) := by decide +kernel

/-- The sweep fails a renewal whose verification was stored after it read its list; and a sweep whose first renewal was
cancelled in the meantime ends there, and leaves a lapsed renewal that nobody touched as it is. -/
theorem sweep_fails_verified_and_skips_lapsed :
    (∃ x : Chronicle (service {}), Chronicled (service {}) (fun _ _ => True) x ∧ ∃ k ∈ x.commits,
      k.op = .expireRenewals 3000 ∧ ∃ id r, (id, r) ∈ k.before.renewals.rows ∧ r.validation.status = .verified ∧
        (id, r) ∉ k.after.renewals.rows) ∧
    ∃ (x : Chronicle (service {})) (q q' : Pool (service {})) (outcome : Except Error Outcome)
      (r : ServerCertificateRenewal), Chronicled (service {}) (fun _ _ => True) x ∧
      x.recorded.pool.threads[8]? = some (.expireRenewals 3000, Op.program {} (.expireRenewals 3000)) ∧
      x.recorded.pool.step (.perform 8 lateAmbient) = some q ∧ Onward (Undisturbed 8 2) q q' ∧
      q'.threads[8]? = some (.expireRenewals 3000, .ret outcome) ∧ (2, r) ∈ x.state.renewals.rows ∧
      Lapsed lateAmbient.now r ∧ ¬ Expired 2 q'.state := by
  constructor
  · obtain ⟨hop, hbefore, hafter⟩ := failedWhileVerified_commit
    obtain ⟨k, hlast, hop⟩ := Option.map_eq_some_iff.mp hop
    rw [hlast] at hbefore hafter
    have hbefore : renewalStates k.before = [(1, .verified, false, "")] := Option.some.inj hbefore
    have hafter : renewalStates k.after = [(1, .failed, true, "Renewal validation expired")] := Option.some.inj hafter
    obtain ⟨r, hr, hstate⟩ := mem_of_renewalStates hbefore (mem_singleton_self _)
    simp only [Prod.mk.injEq] at hstate
    refine ⟨failedWhileVerified, failedWhileVerified_chronicled, k, mem_of_getLast? hlast,
      of_decide_eq_true hop, 1, r, hr,
      hstate.1, ?_⟩
    intro hkept
    have hfailed : (1, r.validation.status, r.completedAt.isSome, r.failureReason) ∈ renewalStates k.after :=
      mem_map_of_mem hkept
    rw [hafter, hstate.1] at hfailed
    simp at hfailed
  · obtain ⟨q, hstep, heq⟩ := Option.map_eq_some_iff.mp sweepAfterCancel_ends
    obtain ⟨hend, hstates⟩ := Prod.mk.inj heq
    obtain ⟨⟨op, outcome⟩, hended, hop⟩ := Option.map_eq_some_iff.mp hend
    obtain rfl : op = .expireRenewals 3000 := (Prod.mk.inj hop).1
    obtain ⟨r, hr, hlapsed⟩ := beforeSweep_lapsed
    refine ⟨beforeSweep, q, sweepAfterCancel q, outcome, r, beforeSweep_chronicled.mono fun _ _ _ => trivial,
      beforeSweep_thread, hstep, ?_, thread_of_outcomeOf hended, hr, hlapsed, ?_⟩
    · exact Onward.follow (fun _ _ _ => undisturbed_of_leavesAlone) q _
    · rintro ⟨r', hr', hdone, _⟩
      have hpending : (2, r'.validation.status, r'.completedAt.isSome, r'.failureReason) ∈
          renewalStates (sweepAfterCancel q).state := mem_map_of_mem hr'
      rw [hstates] at hpending
      simp only [mem_singleton, Prod.mk.injEq, Option.isSome_eq_false_iff, Option.isNone_iff_eq_none] at hpending
      exact hdone hpending.2.2.1

end AgentNameService.Registration
