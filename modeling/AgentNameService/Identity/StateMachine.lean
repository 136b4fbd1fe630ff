/-
Purpose: The life of an identity under races.  Its status moves from pending control to verified to revoked, each nonce is
  consumed at most once, a proof commits on the identity as it was loaded, and a challenge has one holder at a time.
Source: internal/ra/service/identity.go, internal/adapter/store/sqlite/identity.go, internal/domain/identity.go
Trusted boundary: none
-/
import AgentNameService.Identity.Nonces
import AgentNameService.Identity.Protocol

namespace AgentNameService.Identity

open Interleaving List Identities MonitoredPool Registration

variable {D : Deployment} {s t : State D} {c : Call} {φ : Phase}

/-! ### Statuses -/

/-- What a step may make of a status. -/
inductive IdentityStatus.Moves : IdentityStatus → IdentityStatus → Prop
  | stay (status : IdentityStatus) : Moves status status
  | verify : Moves .pendingControl .verified
  | revoke : Moves .verified .revoked

/-- The rows of two states, one step apart: a row keeps its status or moves on, and a new row starts pending. -/
structure StatusesMove (s t : State D) : Prop where
  old : ∀ r ∈ s.identities.rows, ∃ r' ∈ t.identities.rows, r'.id = r.id ∧ r.status.Moves r'.status
  new : ∀ r' ∈ t.identities.rows, (∃ r ∈ s.identities.rows, r.id = r'.id) ∨ r'.status = .pendingControl

theorem StatusesMove.of_eq (h : t.identities = s.identities) : StatusesMove s t where
  old := fun r hr => ⟨r, h ▸ hr, rfl, .stay _⟩
  new := fun r hr => .inl ⟨r, h ▸ hr, rfl⟩

theorem StatusesMove.of_setRow {identityID : String} {change : Row → Row}
    (hrows : t.identities.rows = setRow identityID change s.identities.rows) (hid : ∀ r, (change r).id = r.id)
    (hmoves : ∀ r ∈ s.identities.rows, r.id = identityID → r.status.Moves (change r).status) : StatusesMove s t where
  old := by
    intro r hr
    rw [hrows]
    by_cases hrow : r.id = identityID
    · exact ⟨change r, mem_setRow.mpr (.inl ⟨r, hr, hrow, rfl⟩), hid r, hmoves r hr hrow⟩
    · exact ⟨r, mem_setRow.mpr (.inr ⟨hr, hrow⟩), rfl, .stay _⟩
  new := by
    intro r' hr'
    rw [hrows] at hr'
    rcases mem_setRow.mp hr' with ⟨r, hr, _, rfl⟩ | ⟨hr, _⟩
    · exact .inl ⟨r, hr, (hid r).symm⟩
    · exact .inl ⟨r', hr, rfl⟩

theorem statuses_move {input : Ambient} {reply : c.Reply} (hinv : Inv s) (hpre : Pre c s)
    (h : c.exec input s = .ok (reply, t)) : StatusesMove s t := by
  cases exec_written hpre h with
  | elsewhere _ hidentities _ _ => exact .of_eq hidentities
  | @inserted v identities _ hrows =>
    constructor
    · intro r hr
      refine ⟨r, ?_, rfl, .stay _⟩
      change r ∈ identities.rows
      rw [hrows]
      exact mem_append_left _ hr
    · intro r' hr'
      change r' ∈ identities.rows at hr'
      rw [hrows, mem_append, mem_singleton] at hr'
      rcases hr' with hold | rfl
      · exact .inl ⟨r', hold, rfl⟩
      · exact .inr hpre
  | staged _ _ _ hrows | claimed _ _ _ _ hrows => exact .of_setRow hrows (fun _ => rfl) fun _ _ _ => .stay _
  | @committed a r identities hr hid hopen hrows =>
    refine .of_setRow hrows (fun _ => rfl) ?_
    intro old hold holdID
    obtain rfl := eq_of_id_eq hold hr (holdID.trans hid.symm)
    obtain ⟨_, hcompleted⟩ := hpre.1.completed
    have hverified : (Row.overwrite a.committed old).status = .verified :=
      (VerifiedIdentity.completeVerification_ok hcompleted).2.1
    rw [hverified]
    cases hstatus : old.status with
    | pendingControl => exact .verify
    | verified => exact .stay _
    | revoked =>
      -- A revoked row has no challenge that could be open.
      obtain ⟨challenge, hchallenge, _⟩ := Row.openNonce_eq_some_iff.mp hopen
      rw [((hinv.rows old hold).revoked hstatus).2] at hchallenge
      cases hchallenge
  | released hrows =>
    refine .of_setRow hrows (fun r => ?_) fun r _ _ => ?_
    · split <;> rfl
    · split <;> exact .stay _
  | revoked hr hid hstatus hrows =>
    refine .of_setRow hrows (fun _ => rfl) ?_
    intro old hold holdID
    obtain rfl := eq_of_id_eq hold hr (holdID.trans hid.symm)
    rw [hstatus]
    exact .revoke

/-! ### Claims -/

/-- A call is between a successful `ClaimChallenge` and its release or commit. -/
def Holds (w : MonitoredPool (service D) (protocol D)) (i : Nat) (claim : Claim) : Prop :=
  w.At i fun φ : Phase => φ.claim = some claim

/-- Nonces are fresh, and as long as a call holds a claim the clock has not passed the time for which it was made by
`sealClaimTTL`. -/
def FreshAndTimely (w : MonitoredPool (service D) (protocol D)) (m : Move (service D)) : Prop :=
  (∀ c ∈ w.pool.callOf m, FreshNonce c w.pool.state) ∧
    ∀ φ ∈ (w.phases : List Phase), ∀ claim ∈ φ.claim, w.pool.state.latest < claim.now + sealClaimTTL

/-- What is known of the claims that are held: their nonces were issued, the rows of the open ones are marked with their
time, and no two calls hold one nonce. -/
structure ClaimsSound (w : MonitoredPool (service D) (protocol D)) : Prop where
  issued : ∀ i claim, Holds w i claim → ∃ issue ∈ w.pool.state.issued, issue.nonce = claim.nonce
  marked : ∀ i claim, Holds w i claim → ∀ r ∈ w.pool.state.identities.rows, r.openNonce = some claim.nonce →
    r.claimedAt = some claim.now
  exclusive : ∀ i j claim claim', Holds w i claim → Holds w j claim' → claim.nonce = claim'.nonce → i = j

namespace ClaimsSound

variable {w v : MonitoredPool (service D) (protocol D)} {i j : Nat} {claim claim' : Claim}

/-- Nothing was written and nobody holds what they did not hold before. -/
theorem of_state_eq (h : ClaimsSound w) (hstate : v.pool.state = w.pool.state)
    (hholds : ∀ j claim, Holds v j claim → Holds w j claim) : ClaimsSound v where
  issued := fun j claim hj => by
    rw [hstate]
    exact h.issued j claim (hholds j claim hj)
  marked := fun j claim hj => by
    rw [hstate]
    exact h.marked j claim (hholds j claim hj)
  exclusive := fun i j claim claim' hi hj => h.exclusive i j claim claim' (hholds i claim hi) (hholds j claim' hj)

/-- A challenge that is held cannot be claimed again in time. -/
theorem not_claimable (h : ClaimsSound w) (hholds : Holds w j claim)
    (htimely : w.pool.state.latest < claim.now + sealClaimTTL) (hnow : claim'.now ≤ w.pool.state.latest) {r : Row}
    (hr : r ∈ w.pool.state.identities.rows) (hopen : r.openNonce = some claim'.nonce)
    (hstale : r.claimedBefore (claim'.now - sealClaimTTL) = true) : claim.nonce ≠ claim'.nonce := by
  intro hsame
  have hmarked : r.claimedAt = some claim.now := h.marked j claim hholds r hr (hopen.trans (congrArg some hsame.symm))
  rw [Row.claimedBefore, hmarked, Option.all_some, decide_eq_true_eq] at hstale
  have hlate : claim.now + sealClaimTTL < claim'.now := Nat.add_lt_of_lt_sub hstale
  exact absurd (hlate.trans_le hnow) (Nat.lt_asymm htimely)

/-- A claim that goes on to be held keeps its mark, whatever is written. -/
theorem marked_written (h : ClaimsSound w) {t : State D} (hpre : Pre c w.pool.state)
    (hfresh : FreshNonce c w.pool.state) (hholds : Holds w j claim)
    (htimely : w.pool.state.latest < claim.now + sealClaimTTL)
    (hrelease : ∀ claim', c = .releaseChallenge claim' → claim'.nonce ≠ claim.nonce) (hwritten : Written w.pool.state c t) :
    ∀ r' ∈ t.identities.rows, r'.openNonce = some claim.nonce → r'.claimedAt = some claim.now := by
  obtain ⟨issue, hissue, hnonce⟩ := h.issued j claim hholds
  have hold := h.marked j claim hholds
  intro r' hr' hopen'
  cases hwritten with
  | elsewhere _ hidentities _ _ =>
    rw [hidentities] at hr'
    exact hold r' hr' hopen'
  | @inserted v identities _ hrows =>
    change r' ∈ identities.rows at hr'
    rw [hrows, mem_append, mem_singleton] at hr'
    rcases hr' with hr' | rfl
    · exact hold r' hr' hopen'
    · obtain ⟨challenge, hchallenge, _, hsame⟩ := Row.openNonce_eq_some_iff.mp hopen'
      change v.challenge = some challenge at hchallenge
      refine absurd ?_ (hfresh issue hissue)
      rw [hchallenge, hnonce, ← hsame]
      rfl
  | @staged v _ _ _ r identities hr hid _ hrows =>
    change r' ∈ identities.rows at hr'
    rw [hrows] at hr'
    rcases mem_setRow.mp hr' with ⟨old, _, _, rfl⟩ | ⟨hr', _⟩
    · obtain ⟨challenge, hchallenge, _, hsame⟩ := Row.openNonce_eq_some_iff.mp hopen'
      obtain ⟨challenge', hchallenge', rfl⟩ := Option.map_eq_some_iff.mp hchallenge
      refine absurd ?_ (hfresh issue hissue)
      rw [hchallenge', hnonce, ← hsame]
      rfl
    · exact hold r' hr' hopen'
  | @claimed claim' r identities hr hid hopen hstale hrows =>
    change r' ∈ identities.rows at hr'
    rw [hrows] at hr'
    rcases mem_setRow.mp hr' with ⟨old, holdRow, holdID, rfl⟩ | ⟨hr', _⟩
    · obtain rfl := eq_of_id_eq holdRow hr (holdID.trans hid.symm)
      have hopen'' : old.openNonce = some claim.nonce := hopen'
      rw [hopen] at hopen''
      exact absurd (Option.some.inj hopen'').symm (h.not_claimable hholds htimely hpre.1 hr hopen hstale)
    · exact hold r' hr' hopen'
  | @committed a r identities _ _ _ hrows =>
    change r' ∈ identities.rows at hr'
    rw [hrows] at hr'
    rcases mem_setRow.mp hr' with ⟨old, _, _, rfl⟩ | ⟨hr', _⟩
    · rw [Row.openNonce_overwrite_committed] at hopen'
      cases hopen'
    · exact hold r' hr' hopen'
  | @released claim' identities hrows =>
    change r' ∈ identities.rows at hr'
    rw [hrows] at hr'
    rcases mem_setRow.mp hr' with ⟨old, holdRow, _, rfl⟩ | ⟨hr', _⟩
    · by_cases hreleased : old.openNonce = some claim'.nonce
      · rw [if_pos hreleased] at hopen'
        have hopen'' : old.openNonce = some claim.nonce := hopen'
        rw [hreleased] at hopen''
        exact absurd (Option.some.inj hopen'') (hrelease claim' rfl)
      · rw [if_neg hreleased] at hopen' ⊢
        exact hold old holdRow hopen'
    · exact hold r' hr' hopen'
  | @revoked identityID r identities _ _ _ hrows =>
    change r' ∈ identities.rows at hr'
    rw [hrows] at hr'
    rcases mem_setRow.mp hr' with ⟨old, _, _, rfl⟩ | ⟨hr', _⟩
    · cases hopen'
    · exact hold r' hr' hopen'

end ClaimsSound

/-! ### One move -/

/-- A step gives a claim to a call only if it is the claim's own. -/
theorem Phase.claim_after {result : Except Error c.Reply} {claim : Claim}
    (h : (φ.after c result).claim = some claim) :
    (φ.claim = some claim ∧ ∀ claim', c ≠ .releaseChallenge claim') ∨ (c = .claimChallenge claim ∧ ∃ u, result = .ok u) := by
  cases c with
  | claimChallenge claim' =>
    cases result with
    | ok u =>
      cases h
      exact .inr ⟨rfl, u, rfl⟩
    | error e => exact .inl ⟨h, nofun⟩
  | sealEvent body =>
    cases result with
    | ok acknowledged => cases acknowledged <;> exact .inl ⟨h, nofun⟩
    | error e => exact .inl ⟨h, nofun⟩
  | releaseChallenge claim' => cases result <;> cases h
  | commitVerification | markRevoked | commitLinks | commitUnlink =>
    cases result with
    | ok v => cases h
    | error e => exact .inl ⟨h, nofun⟩
  | _ => cases result <;> exact .inl ⟨h, nofun⟩

section Step

variable {w v : MonitoredPool (service D) (protocol D)} {m : Move (service D)} {rest : Program D Outcome} {op : Op}

/-- A call that failed, or an answer, gives nobody a claim. -/
theorem holds_of_failed {i j : Nat} {e : Error} {claim : Claim}
    (hphase : w.phases[i]? = some φ) (h : Holds (w.resume i op rest (φ.after c (.error e)) w.pool.state) j claim) :
    Holds w j claim := by
  rcases (at_resume hphase).mp h with ⟨rfl, hclaim⟩ | ⟨_, hholds⟩
  · rcases Phase.claim_after hclaim with ⟨hclaim, _⟩ | ⟨_, _, hok⟩
    · exact ⟨φ, hphase, hclaim⟩
    · cases hok
  · exact hholds

/-- Who holds a claim after a call has replied held it before, and it is not released now, or has just made it. -/
theorem holds_of_replied (h : ClaimsSound w) {i j : Nat}
    {r : c.Reply} {t : State D} {claim : Claim} (hphase : w.phases[i]? = some φ) (hadmits : φ.Admits D c)
    (hholds : Holds (w.resume i op rest (φ.after c (.ok r)) t) j claim) :
    (Holds w j claim ∧ ∀ claim', c = .releaseChallenge claim' → claim'.nonce ≠ claim.nonce) ∨
      (j = i ∧ c = .claimChallenge claim) := by
  rcases (at_resume hphase).mp hholds with ⟨rfl, hclaim⟩ | ⟨hother, hheld⟩
  · rcases Phase.claim_after hclaim with ⟨hclaim, hrelease⟩ | ⟨hcall, _⟩
    · exact .inl ⟨⟨φ, hphase, hclaim⟩, fun claim' hcall => absurd hcall (hrelease claim')⟩
    · exact .inr ⟨rfl, hcall⟩
  · refine .inl ⟨hheld, ?_⟩
    rintro claim' rfl hsame
    -- The call that releases holds the claim itself.
    have hown : Holds w i claim' := ⟨φ, hphase, congrArg Phase.claim hadmits⟩
    exact hother (h.exclusive i j claim' claim hown hheld hsame).symm

theorem claims_replied (h : ClaimsSound w) (hinv : Inv w.pool.state) (hnonces : NoncesSound w.pool.state) {i : Nat}
    {input : Ambient} {r : c.Reply} {t : State D}
    (hphase : w.phases[i]? = some φ) (hadmits : φ.Admits D c) (hpre : Pre c w.pool.state)
    (hfresh : FreshNonce c w.pool.state)
    (htimely : ∀ j claim, Holds w j claim → w.pool.state.latest < claim.now + sealClaimTTL)
    (hexec : c.exec input w.pool.state = .ok (r, t)) : ClaimsSound (w.resume i op rest (φ.after c (.ok r)) t) := by
  have hwritten := exec_written hpre hexec
  refine ⟨?_, ?_, ?_⟩
  · intro j claim hholds
    rcases holds_of_replied h hphase hadmits hholds with ⟨hholds, _⟩ | ⟨_, rfl⟩
    · obtain ⟨issue, hissue, hnonce⟩ := h.issued j claim hholds
      exact ⟨issue, (keeps c input r hinv hpre hexec).2.issued hissue, hnonce⟩
    · obtain ⟨issue, hissue, hnonce, _⟩ := hpre.2
      exact ⟨issue, (keeps _ input r hinv hpre hexec).2.issued hissue, hnonce⟩
  · intro j claim hholds r' hr' hopen'
    change r' ∈ t.identities.rows at hr'
    rcases holds_of_replied h hphase hadmits hholds with ⟨hholds, hrelease⟩ | ⟨_, rfl⟩
    · exact h.marked_written hpre hfresh hholds (htimely j claim hholds) hrelease hwritten r' hr' hopen'
    · cases hwritten with
      | elsewhere hcall => exact absurd trivial hcall
      | @claimed _ row identities hrow hid hopen _ hrows =>
        change r' ∈ identities.rows at hr'
        rw [hrows] at hr'
        rcases mem_setRow.mp hr' with ⟨_, _, _, rfl⟩ | ⟨hr', hother⟩
        · rfl
        · -- An open nonce belongs to one row, which is the one that was claimed.
          exact absurd (congrArg Row.id (hnonces.eq_of_openNonce hinv hr' hrow hopen' hopen) |>.trans hid) hother
  · intro j k claim claim' hj hk hsame
    have hclaimed {l : Nat} {held new : Claim} (hheld : Holds w l held) (hcall : c = .claimChallenge new) :
        held.nonce ≠ new.nonce := by
      subst hcall
      cases hwritten with
      | elsewhere hcall => exact absurd trivial hcall
      | claimed hrow _ hopen hstale _ =>
        exact h.not_claimable hheld (htimely l held hheld) hpre.1 hrow hopen hstale
    rcases holds_of_replied h hphase hadmits hj with ⟨hj, _⟩ | ⟨rfl, hcall⟩
    · rcases holds_of_replied h hphase hadmits hk with ⟨hk, _⟩ | ⟨_, hcall⟩
      · exact h.exclusive j k claim claim' hj hk hsame
      · exact absurd hsame (hclaimed hj hcall)
    · rcases holds_of_replied h hphase hadmits hk with ⟨hk, _⟩ | ⟨rfl, _⟩
      · exact absurd hsame.symm (hclaimed hk hcall)
      · rfl

theorem claims_step (h : Monitored (service D) (protocol D) FreshAndTimely w) (hsound : ClaimsSound w)
    (hallows : FreshAndTimely w m) (hstep : w.step m = some v) : ClaimsSound v := by
  have hreach : Reachable (service D) FreshNonce w.pool := h.reachable fun _ _ c hw hcall => hw.1 c hcall
  cases step_eq_some_iff.mp hstep with
  | spawned op =>
    refine hsound.of_state_eq rfl ?_
    intro j claim hholds
    refine (at_spawn ?_).mp hholds
    intro hclaim
    cases hclaim
  | @replied i input op c next φ r t hthread hphase hexec =>
    have hcall : w.pool.callOf (.perform i input) = some c := by simp [Pool.callOf, hthread]
    apply claims_replied hsound ((governs D).sound hreach).1 (nonces_sound hreach) hphase
      (h.admits operation_follows hthread hphase) ((governs D).pre hreach (mem_of_getElem? hthread))
      (hallows.1 c hcall) ?_ hexec
    rintro j claim ⟨ψ, hψ, hclaim⟩
    exact hallows.2 ψ (mem_of_getElem? hψ) claim hclaim
  | refused hthread hphase hexec | faulted e hthread hphase =>
    exact hsound.of_state_eq rfl fun j claim => holds_of_failed hphase
  | answered world hthread hphase =>
    refine hsound.of_state_eq rfl ?_
    exact fun j claim => (at_resume_same hphase Iff.rfl).mp

theorem claims_sound (h : Monitored (service D) (protocol D) FreshAndTimely w) : ClaimsSound w := by
  induction h with
  | start =>
    have hnone (j : Nat) (claim : Claim) : ¬ Holds (start (service D) (protocol D)) j claim := by
      rintro ⟨φ, hphase, _⟩
      cases hphase
    exact ⟨fun j claim hj => absurd hj (hnone j claim), fun j claim hj => absurd hj (hnone j claim),
      fun j _ claim _ hj => absurd hj (hnone j claim)⟩
  | step hrun hallows hstep ih => exact claims_step hrun ih hallows hstep

end Step

/-! ### The life of an identity -/

/-- With fresh nonces and claims that are made in time: statuses move in order, a nonce is consumed once, a commit answers
the open challenge of an identity that is as it was loaded, and no two calls hold one challenge. -/
theorem identity_lives_in_order {w : MonitoredPool (service D) (protocol D)}
    (h : Monitored (service D) (protocol D) FreshAndTimely w) :
    (∀ m v, w.step m = some v → StatusesMove w.pool.state v.pool.state) ∧
    (w.pool.state.commits.map Commit.nonce).Nodup ∧ (∀ c ∈ w.pool.state.commits, c.Answers) ∧
    ∀ i j claim claim', Holds w i claim → Holds w j claim' → claim.nonce = claim'.nonce → i = j := by
  have hreach : Reachable (service D) FreshNonce w.pool := h.reachable fun _ _ c hw hcall => hw.1 c hcall
  refine ⟨?_, (nonces_sound hreach).spent, commit_answers_current hreach, (claims_sound h).exclusive⟩
  intro m v hstep
  rcases (governs D).step_state hreach (step_eq_some_iff.mp hstep).pool with hsame | ⟨c, input, r, _, hinv, hpre, hexec⟩
  · rw [hsame]
    exact .of_eq rfl
  · exact statuses_move hinv hpre hexec

namespace Sample

instance {D : Deployment} (w : MonitoredPool (service D) (protocol D)) (m : Move (service D)) : Decidable (FreshAndTimely w m) :=
  inferInstanceAs (Decidable (_ ∧ _))

/-- A condition on moves that can be evaluated. -/
abbrev Admission := MonitoredPool (service deployment) (protocol deployment) → Move (service deployment) → Bool

/-- A request, the second at which it is made, what is drawn for it, and how many moves it makes. -/
structure Request where
  op : Op
  second : Nat
  identityID : String
  nonce : String
  moves : Nat

/-- Requests that are made one after the other. -/
def script (admits : Admission) (requests : List Request) : MonitoredPool (service deployment) (protocol deployment) :=
  requests.foldl (fun w r => w.serve admits r.op (ambient r.second) (world r.identityID r.nonce) r.moves) (.start _ _)

theorem monitored_script {admits : Admission}
    {allows : MonitoredPool (service deployment) (protocol deployment) → Move (service deployment) → Prop}
    (hadmits : ∀ w m, admits w m = true → allows w m) (requests : List Request) :
    Monitored (service deployment) (protocol deployment) allows (script admits requests) := by
  apply foldlRecOn (motive := fun w => Monitored (service deployment) (protocol deployment) allows w) requests _ .start
  intro w hw r _
  exact hw.serve hadmits r.op _ _ r.moves

/-- One call has claimed the challenge of an identity, and another one has tried to. -/
def contended : MonitoredPool (service deployment) (protocol deployment) :=
  script (fun w m => decide (FreshAndTimely w m)) [
    ⟨.register "owner" "did:key:z1" ⟨""⟩, 1, "id1", "n1", 40⟩,
    ⟨.verifyControl "owner" "id1" (proof "z1" "n1"), 2, "", "", 4⟩,
    ⟨.verifyControl "owner" "id1" (proof "z1" "n1"), 3, "", "", 40⟩]

theorem monitored_contended : Monitored (service deployment) (protocol deployment) FreshAndTimely contended :=
  monitored_script (fun _ _ => of_decide_eq_true) _

end Sample

open Sample

set_option maxRecDepth 20000 in
theorem sample_challenge_has_one_holder :
    Holds contended 1 ⟨"id1", "n1", 2000⟩ ∧ ∀ claim, Holds contended 2 claim → claim.nonce ≠ "n1" := by
  have hholds : Holds contended 1 ⟨"id1", "n1", 2000⟩ := by
    have hphase : @Eq (Option Phase) (contended.phases[1]?) (some ⟨some ⟨"id1", "n1", 2000⟩, none⟩) := by
      decide +kernel
    exact ⟨_, hphase, rfl⟩
  refine ⟨hholds, ?_⟩
  intro claim hother hsame
  have hindex := (identity_lives_in_order monitored_contended).2.2.2 1 2 _ claim hholds hother hsame.symm
  cases hindex

end AgentNameService.Identity
