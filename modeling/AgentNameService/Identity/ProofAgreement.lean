/-
Purpose: The proven values of the authority and the proof events of the log.  They can disagree: a rotation to a value that
  another owner has proven is sealed before the unique index rejects it.  They agree wherever a proof is sealed only if its
  commit cannot fail any more.
Source: internal/ra/service/identity.go, internal/adapter/store/sqlite/identity.go,
  internal/adapter/store/sqlite/migrations/006_identities.sql
Trusted boundary: none
-/
import Mathlib.Data.List.Pairwise
import AgentNameService.Identity.LinkAgreement

namespace AgentNameService.Identity

open Interleaving List Except Identities MonitoredPool Registration TransparencyLog

variable {D : Deployment} {s t : State D} {claim : Claim} {φ : Phase} {i : Nat} {f : Facts} {c : Call}

/-! ### Proofs here and in the log -/

/-- The facts are of a proof of the identity. -/
def Facts.proves (identityID : String) (f : Facts) : Bool := f.eventType.isProof && f.identityID = identityID

/-- The newest `IDENTITY_VERIFIED` or `IDENTITY_UPDATED` leaf of an identity. -/
def newestProof (log : List (Leaf D)) (identityID : String) : Option (Leaf D) := newest (Facts.proves identityID) log

/-- A verified row has the value of the newest proof of its identity, and no two identities that the log does not say to be
revoked have the same kind and value in their newest proofs. -/
structure ProofsAgree (s : State D) : Prop where
  rows : ∀ r ∈ s.identities.rows, r.status = .verified →
    ∃ leaf, newestProof s.log r.id = some leaf ∧ leaf.event.value = r.identity.value
  unique : ∀ identityID identityID' leaf leaf', newestProof s.log identityID = some leaf →
    newestProof s.log identityID' = some leaf' → ¬ RevokedIn s.log identityID → ¬ RevokedIn s.log identityID' →
    leaf.event.kind = leaf'.event.kind → leaf.event.value = leaf'.event.value → identityID = identityID'

/-! ### Proofs that are sealed and not committed -/

/-- The call holds the claim and has sealed a proof of its identity that states the facts. -/
structure ProofSealed (D : Deployment) (claim : Claim) (f : Facts) (φ : Phase) : Prop where
  holds : φ.claim = some claim
  sealed : φ.Sealed D f
  isProof : f.eventType.isProof = true
  identityID : f.identityID = claim.identityID

def ProofInFlight (w : MonitoredPool (service D) (protocol D)) (i : Nat) (claim : Claim) (f : Facts) : Prop :=
  w.At i (ProofSealed D claim f)

/-- A call has one proof in flight. -/
theorem ProofInFlight.unique {w : MonitoredPool (service D) (protocol D)} {claim' : Claim} {g : Facts}
    (hf : ProofInFlight w i claim f) (hg : ProofInFlight w i claim' g) : f = g := by
  obtain ⟨φ, hφ, hsealed⟩ := hf
  obtain ⟨ψ, hψ, hsealed'⟩ := hg
  rw [hφ] at hψ
  cases hψ
  exact hsealed.sealed.unique hsealed'.sealed

theorem not_proofSealed_of_none {held : Option Claim} : ¬ ProofSealed D claim f ⟨held, none⟩ := by
  intro h
  obtain ⟨body, hbody, _⟩ := h.sealed
  cases hbody

theorem not_proofSealed_of_unclaimed (h : φ.claim = none) : ¬ ProofSealed D claim f φ := by
  intro hsealed
  have hclaim := hsealed.holds
  rw [h] at hclaim
  cases hclaim

/-- A step that seals a proof or commits one. -/
def ProofStep (D : Deployment) : Call → Prop
  | .sealEvent body => ∃ f, States D body f ∧ f.eventType.isProof = true
  | .commitVerification _ => True
  | _ => False

/-- Only a proof step changes which proofs a call has sealed. -/
theorem proofSealed_after {result : Except Error c.Reply} (hadmits : φ.Admits D c) (h : ¬ ProofStep D c) :
    ProofSealed D claim f (φ.after c result) ↔ ProofSealed D claim f φ := by
  cases c with
  | claimChallenge claim' =>
    obtain rfl : φ = .idle := hadmits
    cases result <;> exact iff_of_false not_proofSealed_of_none not_proofSealed_of_none
  | releaseChallenge claim' =>
    obtain rfl : φ = ⟨some claim', none⟩ := hadmits
    cases result <;> exact iff_of_false not_proofSealed_of_none not_proofSealed_of_none
  | commitVerification a => exact absurd trivial h
  | sealEvent body =>
    obtain ⟨_, g, hstates, hproof, _⟩ := hadmits
    have hunclaimed : φ.claim = none := by
      by_contra hclaimed
      exact h ⟨g, hstates, hproof.mpr hclaimed⟩
    cases result with
    | error e => exact Iff.rfl
    | ok acknowledged =>
      cases acknowledged with
      | false => exact Iff.rfl
      | true => exact iff_of_false (not_proofSealed_of_unclaimed hunclaimed) (not_proofSealed_of_unclaimed hunclaimed)
  | markRevoked | commitLinks | commitUnlink =>
    have hnot : ¬ ProofSealed D claim f φ := not_proofSealed_of_unclaimed hadmits.1
    cases result with
    | ok _ => exact iff_of_false not_proofSealed_of_none hnot
    | error e => exact Iff.rfl
  | _ => cases result <;> exact Iff.rfl

/-! ### When a commit cannot fail -/

/-- The challenge of the claim is open in the row, and no other row has the kind and the value in an index. -/
structure Ready (rows : List Row) (claim : Claim) (value : String) (r : Row) : Prop where
  nonce : r.openNonce = some claim.nonce
  time : r.unexpiredAt claim.now = true
  clash : ∀ other ∈ rows, other.id ≠ r.id → other.identity.kind = r.identity.kind → other.identity.value = value →
    other.status ≠ .verified ∧ (other.identity.providerID = r.identity.providerID → other.status = .revoked)

/-- The row is as it was, or it was revoked. -/
structure Row.Kept (r r' : Row) : Prop where
  id : r'.id = r.id
  providerID : r'.identity.providerID = r.identity.providerID
  kind : r'.identity.kind = r.identity.kind
  value : r'.identity.value = r.identity.value
  status : r'.status = r.status ∨ r'.status = .revoked

theorem Row.Kept.of_identity {r r' : Row} (h : r'.identity = r.identity) : r.Kept r' :=
  ⟨congrArg VerifiedIdentity.identityID h, congrArg VerifiedIdentity.providerID h, congrArg VerifiedIdentity.kind h,
    congrArg VerifiedIdentity.value h, .inl (congrArg VerifiedIdentity.status h)⟩

theorem Ready.of_kept {rows rows' : List Row} {value : String} {r r' : Row} (h : Ready rows claim value r)
    (hkept : r.Kept r') (hnonce : r'.openNonce = r.openNonce) (htime : r'.unexpiredAt claim.now = r.unexpiredAt claim.now)
    (hrows : ∀ other' ∈ rows', other'.identity.value = value → ∃ other ∈ rows, other.Kept other') :
    Ready rows' claim value r' where
  nonce := hnonce.trans h.nonce
  time := htime.trans h.time
  clash := by
    intro other' hother' hne hkind hvalue
    obtain ⟨other, hother, hkept'⟩ := hrows other' hother' hvalue
    have hne' : other.id ≠ r.id := fun hsame => hne (hkept'.id.trans (hsame.trans hkept.id.symm))
    have hkind' : other.identity.kind = r.identity.kind := hkept'.kind.symm.trans (hkind.trans hkept.kind)
    obtain ⟨hverified, hlive⟩ := h.clash other hother hne' hkind' (hkept'.value.symm.trans hvalue)
    constructor
    · intro hstatus
      rcases hkept'.status with hsame | hrevoked
      · exact hverified (hsame.symm.trans hstatus)
      · cases hrevoked.symm.trans hstatus
    · intro hprovider
      rcases hkept'.status with hsame | hrevoked
      · exact hsame.trans (hlive (hkept'.providerID.symm.trans (hprovider.trans hkept.providerID)))
      · exact hrevoked

/-! ### Runs -/

/-- What a run keeps to.  A proof is sealed only if its event is not in the log, its commit could not fail now (or its identity
is revoked), and no other call has a proof of the same identity or value in flight.  While it is in flight, no identity with
its value is inserted, its identity gets no new challenge, and the commit is not made to fail from outside. -/
structure ProofSealsSafe (w : MonitoredPool (service D) (protocol D)) (m : Move (service D)) : Prop where
  fault : ∀ i e op a next, m = .fault i e → w.pool.threads[i]? ≠ some (op, .call (.commitVerification a) next)
  sealing : ∀ i input body f claim, m = .perform i input → w.pool.callOf m = some (.sealEvent body) → Holds w i claim →
    States D body f → f.eventType.isProof = true →
    (∀ leaf ∈ w.pool.state.log, leaf.canonical ≠ body) ∧
    (∀ r ∈ w.pool.state.identities.rows, r.id = claim.identityID → r.status ≠ .revoked →
      Ready w.pool.state.identities.rows claim f.value r) ∧
    ∀ j claim' g, ProofInFlight w j claim' g → g.identityID ≠ f.identityID ∧ g.value ≠ f.value
  insert : ∀ v, w.pool.callOf m = some (.insert v) → ∀ j claim g, ProofInFlight w j claim g → g.value ≠ v.value
  stage : ∀ v status nonce staleBefore, w.pool.callOf m = some (.stageChallenge v status nonce staleBefore) →
    ∀ j claim g, ProofInFlight w j claim g → g.identityID ≠ v.identityID

/-- What is known along such a run. -/
structure ProofsSound (w : MonitoredPool (service D) (protocol D)) : Prop where
  held : ∀ i claim, Holds w i claim → ∃ r ∈ w.pool.state.identities.rows, r.id = claim.identityID
  newest : ∀ i claim f, ProofInFlight w i claim f →
    ∃ leaf, newestProof w.pool.state.log f.identityID = some leaf ∧ factsOf leaf.event = f
  ready : ∀ i claim f, ProofInFlight w i claim f → ∀ r ∈ w.pool.state.identities.rows, r.id = f.identityID →
    r.status ≠ .revoked → Ready w.pool.state.identities.rows claim f.value r
  apart : ∀ i j claim claim' f g, ProofInFlight w i claim f → ProofInFlight w j claim' g →
    f.identityID = g.identityID ∨ f.value = g.value → i = j
  agree : ∀ identityID leaf, newestProof w.pool.state.log identityID = some leaf →
    ∃ r ∈ w.pool.state.identities.rows, r.id = identityID ∧
      (r.status = .revoked ∨ (∃ i claim f, ProofInFlight w i claim f ∧ f.identityID = identityID) ∨
        r.status = .verified ∧ leaf.event.kind = r.identity.kind.text ∧ leaf.event.value = r.identity.value)

namespace ProofsSound

variable {w v : MonitoredPool (service D) (protocol D)}

/-- A row that accounts for the newest proof of its identity, as `agree` has it. -/
def Accounts (w : MonitoredPool (service D) (protocol D)) (identityID : String) (leaf : Leaf D) (r : Row) : Prop :=
  r.status = .revoked ∨ (∃ i claim f, ProofInFlight w i claim f ∧ f.identityID = identityID) ∨
    r.status = .verified ∧ leaf.event.kind = r.identity.kind.text ∧ leaf.event.value = r.identity.value

theorem Accounts.kept {identityID : String} {leaf : Leaf D} {r r' : Row} (h : Accounts w identityID leaf r)
    (hrow : r.Kept r')
    (hflight : ∀ i claim f, ProofInFlight w i claim f → f.identityID = identityID → ProofInFlight v i claim f) :
    Accounts v identityID leaf r' := by
  rcases h with hrevoked | ⟨i, claim, f, hf, hfid⟩ | ⟨hverified, hkind, hvalue⟩
  · exact .inl (hrow.status.elim (fun hsame => hsame.trans hrevoked) fun hrevoked' => hrevoked')
  · exact .inr (.inl ⟨i, claim, f, hflight i claim f hf hfid, hfid⟩)
  · rcases hrow.status with hsame | hrevoked
    · exact .inr (.inr ⟨hsame.trans hverified, hkind.trans (congrArg _ hrow.kind.symm), hvalue.trans hrow.value.symm⟩)
    · exact .inl hrevoked

/-- A move after which the rows are still there, the newest proofs and what is in flight are the same, and what is in flight
can still commit. -/
theorem of_rows (h : ProofsSound w)
    (hheld : ∀ i claim, Holds v i claim → ∃ r ∈ v.pool.state.identities.rows, r.id = claim.identityID)
    (hkept : ∀ r ∈ w.pool.state.identities.rows, ∃ r' ∈ v.pool.state.identities.rows, r.Kept r')
    (hnewest : ∀ identityID, newestProof v.pool.state.log identityID = newestProof w.pool.state.log identityID)
    (hflight : ∀ i claim f, ProofInFlight v i claim f ↔ ProofInFlight w i claim f)
    (hready : ∀ i claim f, ProofInFlight w i claim f → ∀ r ∈ v.pool.state.identities.rows, r.id = f.identityID →
      r.status ≠ .revoked → Ready v.pool.state.identities.rows claim f.value r) : ProofsSound v where
  held := hheld
  newest := by
    intro i claim f hf
    rw [hnewest]
    exact h.newest i claim f ((hflight i claim f).mp hf)
  ready := fun i claim f hf => hready i claim f ((hflight i claim f).mp hf)
  apart := fun i j claim claim' f g hf hg =>
    h.apart i j claim claim' f g ((hflight i claim f).mp hf) ((hflight j claim' g).mp hg)
  agree := by
    intro identityID leaf hleaf
    rw [hnewest] at hleaf
    obtain ⟨r, hr, hid, hcases⟩ := h.agree identityID leaf hleaf
    obtain ⟨r', hr', hrow⟩ := hkept r hr
    exact ⟨r', hr', hrow.id.trans hid, Accounts.kept hcases hrow fun i claim f hf _ => (hflight i claim f).mpr hf⟩

/-- Nothing was written. -/
theorem of_state_eq (h : ProofsSound w) (hstate : v.pool.state = w.pool.state)
    (hholds : ∀ i claim, Holds v i claim → Holds w i claim)
    (hflight : ∀ i claim f, ProofInFlight v i claim f ↔ ProofInFlight w i claim f) : ProofsSound v := by
  refine h.of_rows ?_ ?_ ?_ hflight ?_
  · intro i claim hi
    rw [hstate]
    exact h.held i claim (hholds i claim hi)
  · intro r hr
    exact ⟨r, hstate ▸ hr, .of_identity rfl⟩
  · intro identityID
    rw [hstate]
  · rw [hstate]
    exact h.ready

/-- One row is changed, which has nothing in flight or keeps its challenge. -/
theorem of_setRow (h : ProofsSound w) {identityID : String} {change : Row → Row}
    (hheld : ∀ i claim, Holds v i claim → ∃ r ∈ v.pool.state.identities.rows, r.id = claim.identityID)
    (hrows : v.pool.state.identities.rows = setRow identityID change w.pool.state.identities.rows)
    (hlog : v.pool.state.log = w.pool.state.log)
    (hflight : ∀ i claim f, ProofInFlight v i claim f ↔ ProofInFlight w i claim f) (hkept : ∀ r : Row, r.Kept (change r))
    (hown : ∀ i claim f, ProofInFlight w i claim f → f.identityID = identityID → ∀ r : Row, (change r).status ≠ .revoked →
      (change r).openNonce = r.openNonce ∧ (change r).unexpiredAt claim.now = r.unexpiredAt claim.now) : ProofsSound v := by
  have hback : ∀ r' ∈ setRow identityID change w.pool.state.identities.rows,
      ∃ r ∈ w.pool.state.identities.rows, r.Kept r' := by
    intro r' hr'
    rcases mem_setRow.mp hr' with ⟨r, hr, _, rfl⟩ | ⟨hr, _⟩
    · exact ⟨r, hr, hkept r⟩
    · exact ⟨r', hr, .of_identity rfl⟩
  refine h.of_rows hheld ?_ (fun _ => by rw [hlog]) hflight ?_
  · intro r hr
    rw [hrows]
    by_cases hid : r.id = identityID
    · exact ⟨change r, mem_setRow.mpr (.inl ⟨r, hr, hid, rfl⟩), hkept r⟩
    · exact ⟨r, mem_setRow.mpr (.inr ⟨hr, hid⟩), .of_identity rfl⟩
  · intro i claim f hf r' hr' hid hlive
    rw [hrows] at hr' ⊢
    rcases mem_setRow.mp hr' with ⟨r, hr, hrid, rfl⟩ | ⟨hr, _⟩
    · have hfid : f.identityID = identityID := hid.symm.trans ((hkept r).id.trans hrid)
      obtain ⟨hnonce, htime⟩ := hown i claim f hf hfid r hlive
      have hold : r.status ≠ .revoked := by
        intro hrevoked
        rcases (hkept r).status with hsame | hrevoked'
        · exact hlive (hsame.trans hrevoked)
        · exact hlive hrevoked'
      refine (h.ready i claim f hf r hr ((hkept r).id.symm.trans hid) hold).of_kept (hkept r) hnonce htime ?_
      exact fun other hother _ => hback other hother
    · refine (h.ready i claim f hf r' hr hid hlive).of_kept (.of_identity rfl) rfl rfl ?_
      exact fun other hother _ => hback other hother

/-- A new row is inserted, with a value that nothing in flight has. -/
theorem of_inserted (h : ProofsSound w) {new : Row}
    (hheld : ∀ i claim, Holds v i claim → ∃ r ∈ v.pool.state.identities.rows, r.id = claim.identityID)
    (hnew : ∀ r ∈ w.pool.state.identities.rows, r.id ≠ new.id)
    (hrows : v.pool.state.identities.rows = w.pool.state.identities.rows ++ [new])
    (hlog : v.pool.state.log = w.pool.state.log)
    (hflight : ∀ i claim f, ProofInFlight v i claim f ↔ ProofInFlight w i claim f)
    (hvalue : ∀ i claim f, ProofInFlight w i claim f → f.value ≠ new.identity.value) : ProofsSound v := by
  refine h.of_rows hheld ?_ (fun _ => by rw [hlog]) hflight ?_
  · intro r hr
    rw [hrows]
    exact ⟨r, mem_append_left _ hr, .of_identity rfl⟩
  · intro i claim f hf r' hr' hid hlive
    rw [hrows] at hr' ⊢
    rcases mem_append.mp hr' with hr | hnewRow
    · refine (h.ready i claim f hf r' hr hid hlive).of_kept (.of_identity rfl) rfl rfl ?_
      intro other hother hothers
      rcases mem_append.mp hother with hold | hnewRow
      · exact ⟨other, hold, .of_identity rfl⟩
      · rw [mem_singleton.mp hnewRow] at hothers
        exact absurd hothers.symm (hvalue i claim f hf)
    · -- An identity with something in flight has its row already.
      obtain ⟨leaf, hleaf, _⟩ := h.newest i claim f hf
      obtain ⟨r, hr, hrid, _⟩ := h.agree f.identityID leaf hleaf
      rw [mem_singleton.mp hnewRow] at hid
      exact absurd (hrid.trans hid.symm) (hnew r hr)

/-- A proof is sealed whose commit could not fail. -/
theorem of_sealed (h : ProofsSound w) {leaf : Leaf D} (hclaim : Holds w i claim)
    (hproof : f.eventType.isProof = true) (hid : f.identityID = claim.identityID) (hfacts : factsOf leaf.event = f)
    (hidentities : v.pool.state.identities = w.pool.state.identities)
    (hlog : v.pool.state.log = w.pool.state.log ++ [leaf]) (hholds : ∀ j claim, Holds v j claim → Holds w j claim)
    (hflight : ∀ j claim' g, ProofInFlight v j claim' g ↔ (j = i ∧ claim' = claim ∧ g = f) ∨ ProofInFlight w j claim' g)
    (hready : ∀ r ∈ w.pool.state.identities.rows, r.id = claim.identityID → r.status ≠ .revoked →
      Ready w.pool.state.identities.rows claim f.value r)
    (hapart : ∀ j claim' g, ProofInFlight w j claim' g → g.identityID ≠ f.identityID ∧ g.value ≠ f.value) :
    ProofsSound v := by
  have hnewest : newestProof v.pool.state.log f.identityID = some leaf := by
    unfold newestProof
    rw [hlog]
    apply newest_append_of_true
    simp [hfacts, Facts.proves, hproof]
  have hother {identityID : String} (hne : identityID ≠ f.identityID) :
      newestProof v.pool.state.log identityID = newestProof w.pool.state.log identityID := by
    unfold newestProof
    rw [hlog]
    apply newest_append_of_false
    simp [hfacts, Facts.proves, hne.symm]
  refine ⟨?_, ?_, ?_, ?_, ?_⟩
  · intro j claim' hj
    rw [hidentities]
    exact h.held j claim' (hholds j claim' hj)
  · intro j claim' g hg
    rcases (hflight j claim' g).mp hg with ⟨_, _, rfl⟩ | hold
    · exact ⟨leaf, hnewest, hfacts⟩
    · rw [hother (hapart j claim' g hold).1]
      exact h.newest j claim' g hold
  · intro j claim' g hg r hr hrid hlive
    rw [hidentities] at hr ⊢
    rcases (hflight j claim' g).mp hg with ⟨_, rfl, rfl⟩ | hold
    · exact hready r hr (hrid.trans hid) hlive
    · exact h.ready j claim' g hold r hr hrid hlive
  · intro j k claim' claim'' g g' hg hg' hsame
    rcases (hflight j claim' g).mp hg with ⟨rfl, _, rfl⟩ | hold
    · rcases (hflight k claim'' g').mp hg' with ⟨rfl, _, _⟩ | hold'
      · rfl
      · obtain ⟨hne, hne'⟩ := hapart k claim'' g' hold'
        exact absurd hsame (not_or.mpr ⟨hne.symm, hne'.symm⟩)
    · rcases (hflight k claim'' g').mp hg' with ⟨rfl, _, rfl⟩ | hold'
      · obtain ⟨hne, hne'⟩ := hapart j claim' g hold
        exact absurd hsame (not_or.mpr ⟨hne, hne'⟩)
      · exact h.apart j k claim' claim'' g g' hold hold' hsame
  · intro identityID found hfound
    by_cases hown : identityID = f.identityID
    · obtain ⟨r, hr, hrid⟩ := h.held i claim hclaim
      refine ⟨r, hidentities ▸ hr, hrid.trans (hid.symm.trans hown.symm), .inr (.inl ?_)⟩
      exact ⟨i, claim, f, (hflight i claim f).mpr (.inl ⟨rfl, rfl, rfl⟩), hown.symm⟩
    · rw [hother hown] at hfound
      obtain ⟨r, hr, hrid, hcases⟩ := h.agree identityID found hfound
      refine ⟨r, hidentities ▸ hr, hrid, Accounts.kept hcases (.of_identity rfl) ?_⟩
      exact fun j claim' g hg _ => (hflight j claim' g).mpr (.inr hg)

/-- A proof is committed: its row has the value of the newest proof now. -/
theorem of_committed (h : ProofsSound w) {change : Row → Row} (hf : ProofInFlight w i claim f)
    (hheld : ∀ i claim, Holds v i claim → ∃ r ∈ v.pool.state.identities.rows, r.id = claim.identityID)
    (hrows : v.pool.state.identities.rows = setRow f.identityID change w.pool.state.identities.rows)
    (hlog : v.pool.state.log = w.pool.state.log)
    (hflight : ∀ j claim' g, ProofInFlight v j claim' g ↔ j ≠ i ∧ ProofInFlight w j claim' g)
    (hchange : ∀ r ∈ w.pool.state.identities.rows, r.id = f.identityID → (change r).id = r.id ∧
      (change r).status = .verified ∧ f.kind = (change r).identity.kind.text ∧ (change r).identity.value = f.value) :
    ProofsSound v := by
  refine ⟨hheld, ?_, ?_, ?_, ?_⟩
  · intro j claim' g hg
    rw [hlog]
    exact h.newest j claim' g ((hflight j claim' g).mp hg).2
  · intro j claim' g hg r' hr' hid hlive
    obtain ⟨hj, hold⟩ := (hflight j claim' g).mp hg
    have hids : g.identityID ≠ f.identityID := fun hsame => hj (h.apart j i claim' claim g f hold hf (.inl hsame))
    have hvalues : g.value ≠ f.value := fun hsame => hj (h.apart j i claim' claim g f hold hf (.inr hsame))
    rw [hrows] at hr' ⊢
    rcases mem_setRow.mp hr' with ⟨r, hr, hrid, rfl⟩ | ⟨hr, _⟩
    · exact absurd (hid.symm.trans ((hchange r hr hrid).1.trans hrid)) hids
    · refine (h.ready j claim' g hold r' hr hid hlive).of_kept (.of_identity rfl) rfl rfl ?_
      intro other' hother' hvalue
      rcases mem_setRow.mp hother' with ⟨other, hother, hotherID, rfl⟩ | ⟨hother, _⟩
      · exact absurd (hvalue.symm.trans (hchange other hother hotherID).2.2.2) hvalues
      · exact ⟨other', hother, .of_identity rfl⟩
  · exact fun j k claim' claim'' g g' hg hg' =>
      h.apart j k claim' claim'' g g' ((hflight j claim' g).mp hg).2 ((hflight k claim'' g').mp hg').2
  · intro identityID leaf hleaf
    rw [hlog] at hleaf
    obtain ⟨r, hr, hid, hcases⟩ := h.agree identityID leaf hleaf
    rw [hrows]
    by_cases hown : identityID = f.identityID
    · obtain ⟨newestLeaf, hnewest, hfacts⟩ := h.newest i claim f hf
      rw [hown, hnewest] at hleaf
      cases hleaf
      obtain ⟨hsame, hverified, hkind, hvalue⟩ := hchange r hr (hid.trans hown)
      refine ⟨change r, mem_setRow.mpr (.inl ⟨r, hr, hid.trans hown, rfl⟩), hsame.trans hid, .inr (.inr ⟨hverified, ?_, ?_⟩)⟩
      · exact (congrArg Facts.kind hfacts).trans hkind
      · exact (congrArg Facts.value hfacts).trans hvalue.symm
    · have hne : ¬ r.id = f.identityID := fun hrid => hown (hid.symm.trans hrid)
      refine ⟨r, mem_setRow.mpr (.inr ⟨hr, hne⟩), hid, Accounts.kept hcases (.of_identity rfl) ?_⟩
      intro j claim' g hg hgid
      refine (hflight j claim' g).mpr ⟨?_, hg⟩
      rintro rfl
      exact hown (hgid.symm.trans (congrArg Facts.identityID (hg.unique hf)))

/-- A commit is refused: the identity of the proof was revoked. -/
theorem of_refused (h : ProofsSound w) (hf : ProofInFlight w i claim f)
    (hstate : v.pool.state = w.pool.state) (hholds : ∀ j claim, Holds v j claim → Holds w j claim)
    (hflight : ∀ j claim' g, ProofInFlight v j claim' g ↔ j ≠ i ∧ ProofInFlight w j claim' g)
    (hrevoked : ∀ r ∈ w.pool.state.identities.rows, r.id = f.identityID → r.status = .revoked) : ProofsSound v := by
  refine ⟨?_, ?_, ?_, ?_, ?_⟩
  · intro j claim' hj
    rw [hstate]
    exact h.held j claim' (hholds j claim' hj)
  · intro j claim' g hg
    rw [hstate]
    exact h.newest j claim' g ((hflight j claim' g).mp hg).2
  · intro j claim' g hg
    rw [hstate]
    exact h.ready j claim' g ((hflight j claim' g).mp hg).2
  · exact fun j k claim' claim'' g g' hg hg' =>
      h.apart j k claim' claim'' g g' ((hflight j claim' g).mp hg).2 ((hflight k claim'' g').mp hg').2
  · intro identityID leaf hleaf
    rw [hstate] at hleaf ⊢
    obtain ⟨r, hr, hid, hcases⟩ := h.agree identityID leaf hleaf
    refine ⟨r, hr, hid, ?_⟩
    rcases hcases with hgone | ⟨j, claim', g, hg, hgid⟩ | hverified
    · exact .inl hgone
    · by_cases hj : j = i
      · subst hj
        have hsame := congrArg Facts.identityID (hg.unique hf)
        exact .inl (hrevoked r hr (hid.trans (hgid.symm.trans hsame)))
      · exact .inr (.inl ⟨j, claim', g, (hflight j claim' g).mpr ⟨hj, hg⟩, hgid⟩)
    · exact .inr (.inr hverified)

end ProofsSound

/-! ### One move -/

section Step

variable {w v : MonitoredPool (service D) (protocol D)} {m : Move (service D)} {rest : Program D Outcome} {op : Op}
variable {a : Attempt}

/-- A move of a call that keeps its claim. -/
theorem holds_resume_same {j : Nat} {ψ : Phase}
    (hphase : w.phases[i]? = some φ) (hclaim : ψ.claim = φ.claim) (h : Holds (w.resume i op rest ψ t) j claim) :
    Holds w j claim := by
  refine (at_resume_same hphase ?_).mp h
  rw [hclaim]

/-- A claim is on a row that is there. -/
theorem held_replied (h : ProofsSound w) (hinv : Inv w.pool.state) (op : Op) (rest : Program D Outcome)
    {input : Ambient} {reply : c.Reply} {t : State D} (hphase : w.phases[i]? = some φ) (hpre : Pre c w.pool.state)
    (hexec : c.exec input w.pool.state = .ok (reply, t)) (j : Nat) (claim : Claim)
    (hholds : Holds (w.resume i op rest (φ.after c (.ok reply)) t) j claim) :
    ∃ r ∈ t.identities.rows, r.id = claim.identityID := by
  have hold : ∃ r ∈ w.pool.state.identities.rows, r.id = claim.identityID := by
    rcases (at_resume hphase).mp hholds with ⟨rfl, hclaim⟩ | ⟨_, hheld⟩
    · rcases Phase.claim_after hclaim with ⟨hclaim, _⟩ | ⟨rfl, _⟩
      · exact h.held j claim ⟨φ, hphase, hclaim⟩
      · cases exec_written hpre hexec with
        | elsewhere hcall => exact absurd trivial hcall
        | claimed hr hid => exact ⟨_, hr, hid⟩
    · exact h.held j claim hheld
  obtain ⟨r, hr, hid⟩ := hold
  obtain ⟨r', hr', hid', _⟩ := (keeps c input reply hinv hpre hexec).2.rows r hr
  exact ⟨r', hr', hid'.trans hid⟩

/-- A step that neither seals nor commits a proof. -/
theorem proofs_elsewhere (h : ProofsSound w)
    {input : Ambient} {reply : c.Reply} {t : State D} (hphase : w.phases[i]? = some φ) (hadmits : φ.Admits D c)
    (hinv : Inv w.pool.state) (hpre : Pre c w.pool.state) (hproof : ¬ ProofStep D c)
    (hinsert : ∀ v, c = .insert v → ∀ j claim g, ProofInFlight w j claim g → g.value ≠ v.value)
    (hstage : ∀ v status nonce staleBefore, c = .stageChallenge v status nonce staleBefore →
      ∀ j claim g, ProofInFlight w j claim g → g.identityID ≠ v.identityID)
    (hexec : c.exec input w.pool.state = .ok (reply, t)) :
    ProofsSound (w.resume i op rest (φ.after c (.ok reply)) t) := by
  have hflight (j : Nat) (claim : Claim) (f : Facts) :
      ProofInFlight (w.resume i op rest (φ.after c (.ok reply)) t) j claim f ↔ ProofInFlight w j claim f :=
    at_resume_same hphase (proofSealed_after hadmits hproof)
  have hheld := held_replied h hinv op rest hphase hpre hexec
  cases exec_written hpre hexec with
  | elsewhere hcall hidentities _ _ =>
    have hnewest (identityID : String) : newestProof t.log identityID = newestProof w.pool.state.log identityID := by
      cases exec_published hexec with
      | elsewhere _ hlog _ => rw [hlog]
      | @sealed body log happend =>
        obtain ⟨_, g, hstates, _⟩ := hadmits
        change newestProof log identityID = _
        rcases hstates.appendEvent_ok happend with ⟨rfl, _⟩ | ⟨leaf, rfl, hfacts⟩
        · rfl
        · apply newest_append_of_false
          have hother : g.eventType.isProof = false := Bool.eq_false_iff.mpr fun hp => hproof ⟨g, hstates, hp⟩
          simp [hfacts, Facts.proves, hother]
      | linked | unlinked => rfl
    refine h.of_rows hheld ?_ hnewest hflight ?_
    · intro r hr
      exact ⟨r, hidentities ▸ hr, .of_identity rfl⟩
    · change ∀ i claim (f : Facts), _ → ∀ r ∈ t.identities.rows, _ → _ → Ready t.identities.rows claim f.value r
      rw [hidentities]
      exact h.ready
  | @inserted new identities hnew hrows =>
    refine h.of_inserted hheld ?_ hrows rfl hflight (hinsert new rfl)
    intro r hr hid
    rw [rowByID_eq_some_iff.mpr ⟨hr, hid⟩] at hnew
    cases hnew
  | @staged new _ _ _ r identities hr hid _ hrows =>
    refine h.of_setRow hheld hrows rfl hflight (fun r => ⟨rfl, rfl, rfl, rfl, .inl rfl⟩) ?_
    intro j claim f hf hfid
    exact absurd hfid (hstage new _ _ _ rfl j claim f hf)
  | claimed _ _ _ _ hrows =>
    exact h.of_setRow hheld hrows rfl hflight (fun r => ⟨rfl, rfl, rfl, rfl, .inl rfl⟩) fun _ _ _ _ _ _ _ => ⟨rfl, rfl⟩
  | committed => exact absurd trivial hproof
  | released hrows =>
    refine h.of_setRow hheld hrows rfl hflight (fun r => .of_identity ?_) fun _ _ _ _ _ r _ => ?_
    · split <;> rfl
    · split <;> exact ⟨rfl, rfl⟩
  | revoked _ _ _ hrows =>
    refine h.of_setRow hheld hrows rfl hflight (fun r => ⟨rfl, rfl, rfl, rfl, .inr rfl⟩) ?_
    intro j claim f _ _ r hlive
    exact absurd rfl hlive

/-- A proof is sealed, and acknowledged. -/
theorem proofs_seal (h : ProofsSound w) {body : Json}
    {log : List (Leaf D)} (hphase : w.phases[i]? = some φ) (hadmits : φ.Admits D (.sealEvent body))
    (hclaim : φ.claim = some claim) (hstates : States D body f) (hproof : f.eventType.isProof = true)
    (hnew : ∀ leaf ∈ w.pool.state.log, leaf.canonical ≠ body)
    (hready : ∀ r ∈ w.pool.state.identities.rows, r.id = claim.identityID → r.status ≠ .revoked →
      Ready w.pool.state.identities.rows claim f.value r)
    (hapart : ∀ j claim' g, ProofInFlight w j claim' g → g.identityID ≠ f.identityID ∧ g.value ≠ f.value)
    (happend : appendEvent D w.pool.state.log body = .ok log) :
    ProofsSound (w.resume i op rest (φ.after (.sealEvent body) (.ok true)) { w.pool.state with log }) := by
  obtain ⟨held, sealed⟩ := φ
  obtain ⟨rfl, g, hstates', _, hid⟩ : sealed = none ∧ _ := hadmits
  obtain rfl : held = some claim := hclaim
  rw [hstates'.unique hstates] at hid
  rcases hstates.appendEvent_ok happend with ⟨_, leaf, hleaf, hsame⟩ | ⟨leaf, hlog, hfacts⟩
  · exact absurd hsame (hnew leaf hleaf)
  · refine h.of_sealed ⟨_, hphase, rfl⟩ hproof (hid claim rfl) hfacts rfl hlog ?_ ?_ hready hapart
    · exact fun j claim' => holds_resume_same hphase rfl
    · intro j claim' g
      have hown : ProofSealed D claim' g ⟨some claim, some body⟩ ↔ claim' = claim ∧ g = f := by
        constructor
        · intro hsealed
          obtain ⟨body', hbody', hstates''⟩ := hsealed.sealed
          cases hbody'
          exact ⟨(Option.some.inj hsealed.holds).symm, hstates''.unique hstates⟩
        · rintro ⟨rfl, rfl⟩
          exact ⟨rfl, ⟨body, rfl, hstates⟩, hproof, hid claim' rfl⟩
      refine (at_resume_gained hphase not_proofSealed_of_none).trans (or_congr_left ?_)
      exact and_congr_right fun _ => hown

/-- A call whose commit has ended has no proof in flight. -/
theorem proofInFlight_none {j : Nat} {held : Option Claim} {g : Facts} (hphase : w.phases[i]? = some φ) :
    ProofInFlight (w.resume i op rest (⟨held, none⟩ : Phase) t) j claim g ↔ j ≠ i ∧ ProofInFlight w j claim g :=
  at_resume_lost hphase not_proofSealed_of_none

/-- A call that commits has its proof in flight. -/
theorem inFlight_of_admits (hphase : w.phases[i]? = some φ)
    (hadmits : φ.Admits D (.commitVerification a)) : ∃ f, ProofInFlight w i a.claim f ∧ f.identityID = a.loaded.identityID ∧
      f.kind = a.loaded.kind.text ∧ f.value = a.verified.value := by
  obtain ⟨hclaim, _, f, hsealed, hproof, hid, hkind, hvalue⟩ := hadmits
  exact ⟨f, ⟨φ, hphase, hclaim, hsealed, hproof, hid⟩, hid, hkind, hvalue⟩

theorem proofs_commit (h : ProofsSound w)
    (input : Ambient) {reply : VerifiedIdentity} {t : State D} (hphase : w.phases[i]? = some φ)
    (hadmits : φ.Admits D (.commitVerification a)) (hinv : Inv w.pool.state) (hpre : Pre (.commitVerification a) w.pool.state)
    (hexec : (Call.commitVerification a).exec input w.pool.state = .ok (reply, t)) :
    ProofsSound (w.resume i op rest Phase.idle t) := by
  have hheld := held_replied h hinv op rest hphase hpre hexec
  obtain ⟨f, hf, hid, hkind, hvalue⟩ := inFlight_of_admits hphase hadmits
  cases exec_written hpre hexec with
  | elsewhere hcall => exact absurd trivial hcall
  | @committed _ r identities hr hrid hopen hrows =>
    have hrows' : identities.rows = setRow f.identityID (Row.overwrite a.committed) w.pool.state.identities.rows := by
      rw [hid]
      exact hrows
    refine h.of_committed hf hheld hrows' rfl (fun j claim' g => proofInFlight_none hphase) ?_
    intro r' hr' hrid'
    obtain ⟨known, hknown, hknownID, _, hknownKind⟩ := hpre.1.known
    obtain rfl := eq_of_id_eq hknown hr' (hknownID.trans (hid.symm.trans hrid'.symm))
    obtain ⟨_, hcompleted⟩ := hpre.1.completed
    refine ⟨rfl, (VerifiedIdentity.completeVerification_ok hcompleted).2.1, ?_, hvalue.symm⟩
    change f.kind = known.identity.kind.text
    rw [hkind, hknownKind]

theorem proofs_refused (h : ProofsSound w)
    (input : Ambient) {e : Error} (hphase : w.phases[i]? = some φ) (hadmits : φ.Admits D (.commitVerification a))
    (hexec : (Call.commitVerification a).exec input w.pool.state = .error e) :
    ProofsSound (w.resume i op rest ({ φ with sealed := none } : Phase) w.pool.state) := by
  obtain ⟨f, hf, hid, _, hvalue⟩ := inFlight_of_admits hphase hadmits
  refine h.of_refused hf rfl ?_ (fun j claim' g => proofInFlight_none hphase) ?_
  · exact fun j claim => holds_resume_same hphase rfl
  · intro r hr hrid
    by_contra hlive
    have hready := h.ready i a.claim f hf r hr hrid hlive
    rw [hvalue] at hready
    obtain ⟨t, hcommit⟩ := State.commitVerification_of_open hr (hrid.trans hid) hadmits.2.1 hready.nonce hready.time
      hready.clash
    simp only [Call.exec, hcommit] at hexec
    cases hexec

theorem proofs_step (h : Monitored (service D) (protocol D) (fun w m => Acknowledged w m ∧ ProofSealsSafe w m) w)
    (hsound : ProofsSound w) (hallows : Acknowledged w m ∧ ProofSealsSafe w m) (hstep : w.step m = some v) :
    ProofsSound v := by
  have hfailed {i : Nat} {op : Op} {rest : Program D Outcome} {c : Call} {φ : Phase} {e : Error}
      (hphase : w.phases[i]? = some φ) (hadmits : φ.Admits D c) (hcommit : ∀ a, c ≠ .commitVerification a) :
      ProofsSound (w.resume i op rest (φ.after c (.error e)) w.pool.state) := by
    refine hsound.of_state_eq rfl (fun j claim => holds_of_failed hphase) fun j claim f => ?_
    refine at_resume_same hphase ?_
    by_cases hproof : ProofStep D c
    · cases c <;> first | exact Iff.rfl | exact absurd rfl (hcommit _) | cases hproof
    · exact proofSealed_after hadmits hproof
  cases step_eq_some_iff.mp hstep with
  | spawned op =>
    refine hsound.of_state_eq rfl (fun j claim hholds => ?_) fun j claim f => ?_
    · refine (at_spawn ?_).mp hholds
      intro hclaim
      cases hclaim
    · exact at_spawn not_proofSealed_of_none
  | @replied i input op c next φ reply t hthread hphase hexec =>
    have hadmits : φ.Admits D c := h.admits operation_follows hthread hphase
    have hpre : Pre c w.pool.state := (governs D).pre h.reached (mem_of_getElem? hthread)
    have hinv : Inv w.pool.state := ((governs D).sound h.reached).1
    have hcall : w.pool.callOf (.perform i input) = some c := by simp [Pool.callOf, hthread]
    by_cases hproof : ProofStep D c
    · cases c with
      | sealEvent body =>
        obtain ⟨f, hstates, hisProof⟩ := hproof
        obtain ⟨_, g, hstates', hiff, _⟩ := hadmits
        rw [hstates'.unique hstates] at hiff
        obtain ⟨claim, hclaim⟩ := Option.ne_none_iff_exists'.mp (hiff.mp hisProof)
        obtain ⟨hnew, hready, hapart⟩ := hallows.2.sealing i input body f claim rfl hcall ⟨φ, hphase, hclaim⟩ hstates hisProof
        obtain ⟨log, hseal, heq⟩ := map_eq_ok_iff.mp hexec
        obtain rfl : reply = true := (congrArg Prod.fst heq).symm.trans hallows.1
        obtain rfl : _ = t := congrArg Prod.snd heq
        exact proofs_seal hsound hphase (h.admits operation_follows hthread hphase) hclaim hstates hisProof hnew hready
          hapart (mapError_eq_ok_iff.mp hseal)
      | commitVerification a => exact proofs_commit hsound input hphase hadmits hinv hpre hexec
      | _ => cases hproof
    · refine proofs_elsewhere hsound hphase hadmits hinv hpre hproof ?_ ?_ hexec
      · rintro v rfl
        exact hallows.2.insert v hcall
      · rintro v status nonce staleBefore rfl
        exact hallows.2.stage v status nonce staleBefore hcall
  | @refused i input op c next φ e hthread hphase hexec =>
    have hadmits : φ.Admits D c := h.admits operation_follows hthread hphase
    by_cases hcommit : ∃ a, c = .commitVerification a
    · obtain ⟨a, rfl⟩ := hcommit
      exact proofs_refused hsound input hphase hadmits hexec
    · exact hfailed hphase hadmits fun a heq => hcommit ⟨a, heq⟩
  | @faulted i op c next φ e hthread hphase =>
    refine hfailed hphase (h.admits operation_follows hthread hphase) ?_
    rintro a rfl
    exact hallows.2.fault i e op a next rfl hthread
  | answered world hthread hphase =>
    exact hsound.of_state_eq rfl (fun j claim => holds_resume_same hphase rfl) fun _ _ _ =>
      at_resume_same hphase Iff.rfl

theorem proofs_sound (h : Monitored (service D) (protocol D) (fun w m => Acknowledged w m ∧ ProofSealsSafe w m) w) :
    ProofsSound w := by
  induction h with
  | start =>
    have hnone {P : Phase → Prop} (i : Nat) : ¬ (start (service D) (protocol D)).At i P := by
      rintro ⟨φ, hφ, _⟩
      cases hφ
    refine ⟨fun i _ hi => absurd hi (hnone i), fun i _ _ hi => absurd hi (hnone i), fun i _ _ hi => absurd hi (hnone i),
      fun i _ _ _ _ _ hi => absurd hi (hnone i), ?_⟩
    intro identityID leaf hleaf
    cases hleaf
  | step hrun hallows hstep ih => exact proofs_step hrun ih hallows hstep

end Step

/-! ### States without a call in flight -/

/-- No call is in flight. -/
def Ended (p : Pool (service D)) : Prop := ∀ thread ∈ p.threads, ∃ result, thread.2 = .ret result

/-- Where proofs are sealed only if their commits cannot fail: with no call in flight, the log and the rows say the same of
proven values. -/
theorem proofs_agree_with_log {w : MonitoredPool (service D) (protocol D)}
    (h : Monitored (service D) (protocol D) (fun w m => Acknowledged w m ∧ ProofSealsSafe w m) w) (hended : Ended w.pool) :
    ProofsAgree w.pool.state := by
  have hsound := proofs_sound h
  have hinv : Inv w.pool.state := ((governs D).sound h.reached).1
  have hquiet (i : Nat) (claim : Claim) (f : Facts) : ¬ ProofInFlight w i claim f := by
    rintro ⟨φ, hphase, hsealed⟩
    obtain ⟨op, result, _, hends⟩ := h.ended operation_follows hended hphase
    exact not_proofSealed_of_unclaimed hends.1 hsealed
  -- With nothing in flight an identity with a proof in the log has a row that is revoked or agrees with it.
  have hrow {identityID : String} {leaf : Leaf D} (hleaf : newestProof w.pool.state.log identityID = some leaf) :
      ∃ r ∈ w.pool.state.identities.rows, r.id = identityID ∧ (r.status = .revoked ∨
        r.status = .verified ∧ leaf.event.kind = r.identity.kind.text ∧ leaf.event.value = r.identity.value) := by
    obtain ⟨r, hr, hid, hrevoked | ⟨i, claim, f, hf, _⟩ | hverified⟩ := hsound.agree identityID leaf hleaf
    · exact ⟨r, hr, hid, .inl hrevoked⟩
    · exact absurd hf (hquiet i claim f)
    · exact ⟨r, hr, hid, .inr hverified⟩
  constructor
  · intro r hr hverified
    obtain ⟨proof, hproof, hisProof, hid, _⟩ := (hinv.rows r hr).proven hverified
    have hproves : Facts.proves r.id (factsOf proof.event) = true := by simp [Facts.proves, factsOf, hisProof, hid]
    obtain ⟨leaf, hleaf⟩ := exists_newest hproof hproves
    obtain ⟨r', hr', hid', hcases⟩ := hrow hleaf
    obtain rfl := eq_of_id_eq hr' hr hid'
    rcases hcases with hrevoked | ⟨_, _, hvalue⟩
    · cases hverified.symm.trans hrevoked
    · exact ⟨leaf, hleaf, hvalue⟩
  · intro identityID identityID' leaf leaf' hleaf hleaf' hlive hlive' hkind hvalue
    obtain ⟨r, hr, rfl, hrevoked | ⟨hverified, hrkind, hrvalue⟩⟩ := hrow hleaf
    · exact absurd ((hinv.rows r hr).revoked hrevoked).1 hlive
    · obtain ⟨r', hr', rfl, hrevoked | ⟨hverified', hrkind', hrvalue'⟩⟩ := hrow hleaf'
      · exact absurd ((hinv.rows r' hr').revoked hrevoked).1 hlive'
      · -- The unique index on proven values admits one of the two rows only.
        have hkinds : r.identity.kind = r'.identity.kind :=
          IdentifierKind.text_injective (hrkind.symm.trans (hkind.trans hrkind'))
        have hsymm : Std.Symm fun a b : Row => ¬ a.SameProven b := ⟨fun _ _ hab hba => hab hba.symm⟩
        by_contra hne
        refine w.pool.state.identities.indexed.proven.forall hr hr' (fun hsame => hne (congrArg Row.id hsame)) ?_
        exact ⟨hverified, hverified', hkinds, hrvalue.symm.trans (hvalue.trans hrvalue')⟩

namespace Sample

/-- One identity only, whose challenge is open when its proof is sealed, and nothing else in flight. -/
def solitary : Admission := fun w m =>
  decide (Acknowledged w m) && (match m with
    | .fault .. => false
    | _ => true) &&
  match w.pool.callOf m with
    | some (.sealEvent body) => w.pool.state.log.all (·.canonical ≠ body) && (w.phases : List Phase).all (·.sealed = none) &&
        w.pool.state.identities.rows.length = 1 &&
        (w.phases : List Phase).all fun φ => φ.claim.all fun claim => w.pool.state.identities.rows.all fun r =>
          r.openNonce = some claim.nonce && r.unexpiredAt claim.now
    | some (.insert _) | some (.stageChallenge ..) => (w.phases : List Phase).all (·.sealed = none)
    | _ => true

theorem safe_of_solitary (w : MonitoredPool (service deployment) (protocol deployment)) (m : Move (service deployment))
    (h : solitary w m = true) : Acknowledged w m ∧ ProofSealsSafe w m := by
  simp only [solitary, Bool.and_eq_true, decide_eq_true_eq] at h
  obtain ⟨⟨hacknowledged, hfault⟩, hcall⟩ := h
  have hquiet (hnone : (w.phases : List Phase).all (·.sealed = none) = true) (j : Nat) (claim : Claim) (g : Facts) :
      ¬ ProofInFlight w j claim g := by
    rintro ⟨φ, hφ, hsealed⟩
    obtain ⟨body, hbody, _⟩ := hsealed.sealed
    have hsealedNone := of_decide_eq_true (all_eq_true.mp hnone φ (mem_of_getElem? hφ))
    rw [hbody] at hsealedNone
    cases hsealedNone
  refine ⟨hacknowledged, ?_, ?_, ?_, ?_⟩
  · rintro i e op a next rfl
    cases hfault
  · rintro i input body f claim rfl hseal ⟨φ, hφ, hclaim⟩ _ _
    rw [hseal] at hcall
    simp only [Bool.and_eq_true, all_eq_true, decide_eq_true_eq] at hcall
    obtain ⟨⟨⟨hnew, hnone⟩, hone⟩, hopen⟩ := hcall
    refine ⟨hnew, ?_, fun j claim' g hg => absurd hg (hquiet ?_ j claim' g)⟩
    · intro r hr _ _
      have hready := hopen φ (mem_of_getElem? hφ)
      rw [hclaim, Option.all_some, all_eq_true] at hready
      have hrow := hready r hr
      rw [Bool.and_eq_true, decide_eq_true_eq] at hrow
      refine ⟨hrow.1, hrow.2, ?_⟩
      intro other hother hne
      obtain ⟨only, honly⟩ := length_eq_one_iff.mp hone
      rw [honly, mem_singleton] at hr hother
      exact absurd (congrArg Row.id (hother.trans hr.symm)) hne
    · exact all_eq_true.mpr fun φ hφ => decide_eq_true (hnone φ hφ)
  · intro v hinsert j claim g hg
    rw [hinsert] at hcall
    exact absurd hg (hquiet hcall j claim g)
  · intro v status nonce staleBefore hstage j claim g hg
    rw [hstage] at hcall
    exact absurd hg (hquiet hcall j claim g)

/-- An identity is proven, rotated and proven again. -/
def rotating : List Request := [
  ⟨.register "o1" "did:key:z1" ⟨""⟩, 1, "id1", "n1", 40⟩,
  ⟨.verifyControl "o1" "id1" (proof "z1" "n1"), 2, "", "", 40⟩,
  ⟨.rotate "o1" "id1" "did:key:z2" ⟨""⟩, 3, "", "n2", 40⟩,
  ⟨.verifyControl "o1" "id1" (proof "z2" "n2"), 4, "", "", 40⟩]

/-- Another owner has proven the value before. -/
def rotatingLate : List Request :=
  [⟨.register "o2" "did:key:z2" ⟨""⟩, 1, "id2", "n0", 40⟩,
    ⟨.verifyControl "o2" "id2" (proof "z2" "n0"), 1, "", "", 40⟩] ++ rotating

/-- A pool whose calls have all ended. -/
def allEnded (p : Pool (service deployment)) : Bool :=
  p.threads.all fun thread => match thread.2 with
    | .ret _ => true
    | _ => false

theorem ended_of_allEnded {p : Pool (service deployment)} (h : allEnded p = true) : Ended p := by
  intro thread hmem
  have hret := all_eq_true.mp h thread hmem
  split at hret
  · exact ⟨_, ‹_›⟩
  · cases hret

end Sample

open Sample

set_option maxRecDepth 20000 in
theorem sample_proofs_agree_with_log : (script solitary rotating).pool.state.log.length = 2 ∧
    ProofsAgree (script solitary rotating).pool.state := by
  have hrun : (script solitary rotating).pool.state.log.length = 2 ∧
      allEnded (script solitary rotating).pool = true := by
    decide +kernel
  refine ⟨hrun.1, ?_⟩
  apply proofs_agree_with_log (monitored_script safe_of_solitary _)
  exact ended_of_allEnded hrun.2

set_option maxRecDepth 20000 in
/-- A rotation to a value that another owner has proven: it is sealed, and then the commit is rejected. -/
theorem rotated_to_a_proven_value : ∃ w : MonitoredPool (service deployment) (protocol deployment),
    Monitored (service deployment) (protocol deployment) Acknowledged w ∧ Ended w.pool ∧
    (∃ r ∈ w.pool.state.identities.rows, r.id = "id1" ∧ r.status = .verified ∧ r.identity.value = "did:key:z1") ∧
    (newestProof w.pool.state.log "id1").map (fun leaf => (leaf.event.kind, leaf.event.value)) = some ("did:key", "did:key:z2") ∧
    (newestProof w.pool.state.log "id2").map (fun leaf => (leaf.event.kind, leaf.event.value)) = some ("did:key", "did:key:z2") ∧
    ∀ leaf ∈ w.pool.state.log, leaf.event.eventType ≠ .identityRevoked := by
  let w := script (fun w m => decide (Acknowledged w m)) rotatingLate
  have hrun : allEnded w.pool = true ∧
      (∃ r ∈ w.pool.state.identities.rows, r.id = "id1" ∧ r.status = .verified ∧ r.identity.value = "did:key:z1") ∧
      (newestProof w.pool.state.log "id1").map (fun leaf => (leaf.event.kind, leaf.event.value)) =
        some ("did:key", "did:key:z2") ∧
      (newestProof w.pool.state.log "id2").map (fun leaf => (leaf.event.kind, leaf.event.value)) =
        some ("did:key", "did:key:z2") ∧
      ∀ leaf ∈ w.pool.state.log, leaf.event.eventType ≠ .identityRevoked := by
    decide +kernel
  exact ⟨w, monitored_script (fun _ _ => of_decide_eq_true) _, ended_of_allEnded hrun.1, hrun.2⟩

end AgentNameService.Identity
