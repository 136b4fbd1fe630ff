/-
Purpose: Every operation of the identity service keeps the contract: what it commits was sealed before, from an identity whose
  owner asked for it.
Source: internal/ra/service/{identity,identitykinds}.go
Trusted boundary: none
-/
import AgentNameService.Identity.Contract
import AgentNameService.Identity.Service

namespace AgentNameService.Identity

open Interleaving List Except Prog Registration TransparencyLog.Identity

variable {D : Deployment} {c : Call}

/-! ### Rules of the programs -/

section Rules

variable {α β : Type} {s : State D} {Q : β → State D → Prop}

theorem safe_run {f : c.Reply → Program D β} (hpre : ∀ t, Grows s t → Inv t → Pre c t)
    (hf : ∀ input r t u, Grows s t → Inv t → c.exec input t = .ok (r, u) → Grows s u → (f r).Safe (discipline D) Q u) :
    (run c >>= f).Safe (discipline D) Q s := by
  apply Safe.perform
  intro t hst hinv
  refine ⟨hpre t hst hinv, ?_⟩
  intro input r u hsu _ hexec
  exact hf input r t u hst hinv hexec hsu

theorem safe_tryRun {f : Except Error c.Reply → Program D β} (hpre : ∀ t, Grows s t → Inv t → Pre c t)
    (hok : ∀ input r t u, Grows s t → Inv t → c.exec input t = .ok (r, u) → Grows s u →
      (f (.ok r)).Safe (discipline D) Q u)
    (herr : ∀ e t, Grows s t → (f (.error e)).Safe (discipline D) Q t) : (tryRun c >>= f).Safe (discipline D) Q s := by
  intro t hst hinv
  refine ⟨hpre t hst hinv, ?_, fun e => herr e t hst⟩
  intro input r u hexec
  exact hok input r t u hst hinv hexec (hst.trans (keeps c input r hinv (hpre t hst hinv) hexec).2)

theorem safe_orFail {result : Except Error α} {f : α → Program D β}
    (h : ∀ a, result = .ok a → (f a).Safe (discipline D) Q s) : (orFail result >>= f).Safe (discipline D) Q s :=
  Safe.lift h

theorem safe_check {condition : Prop} [Decidable condition] {failure : Error} {f : Unit → Program D β}
    (h : condition → (f ()).Safe (discipline D) Q s) : (check condition failure >>= f).Safe (discipline D) Q s :=
  Safe.lift fun _ hok => h (require_eq_ok_iff.mp hok)

theorem safe_lastCheck {condition : Prop} [Decidable condition] {failure : Error} {Q : Unit → State D → Prop}
    (h : condition → Q () s) : (check condition failure : Program D Unit).Safe (discipline D) Q s := by
  unfold check require
  split
  · exact h ‹_›
  · trivial

end Rules

/-! ### Steps that require nothing -/

/-- The steps that have nothing to do with claims and seals. -/
def Quiet : Call → Prop
  | .claimChallenge _ | .sealEvent _ | .commitVerification _ | .releaseChallenge _ | .markRevoked _ | .commitLinks ..
  | .commitUnlink .. => False
  | _ => True

/-- A step that has nothing to do with claims and seals, and that requires nothing of the tables. -/
def Free (D : Deployment) (c : Call) : Prop := Quiet c ∧ ∀ s : State D, Pre c s

/-- A read, or another step without a precondition. -/
theorem free (hquiet : Quiet c := by trivial) (hpre : ∀ s : State D, Pre c s := by exact fun _ => trivial) :
    Free D c :=
  ⟨hquiet, hpre⟩

theorem safe_of_free {α : Type} {s : State D} {p : Program D α} {R : α → Prop} (h : p.Calls (Free D) R) :
    p.Safe (discipline D) (fun a _ => R a) s :=
  Safe.of_calls (fun _ _ _ _ => trivial) trivial (h.mono fun _ hc t _ => hc.2 t)

/-! ### Reading an identity -/

/-- What is known of an identity that was read: where it is stored, and that its open challenge was issued to it. -/
structure Loaded (v : VerifiedIdentity) (s : State D) : Prop where
  known : Known v s
  issued : ∀ i, (⟨v, none⟩ : Row).issue? = some i → i ∈ s.issued

theorem Loaded.mono {v : VerifiedIdentity} {s t : State D} (h : Grows s t) (hloaded : Loaded v s) : Loaded v t :=
  ⟨hloaded.known.mono h, fun i hi => h.issued (hloaded.issued i hi)⟩

theorem Loaded.of_mem {r : Row} {s : State D} (hinv : Inv s) (hr : r ∈ s.identities.rows) : Loaded r.identity s :=
  ⟨⟨r, hr, rfl, rfl, rfl⟩, fun i hi => (hinv.rows r hr).issued i hi⟩

variable (providerID identityID : String)

theorem ownedIdentityForWrite_safe (s : State D) :
    (ownedIdentityForWrite D providerID identityID).Safe (discipline D)
      (fun v t => v.identityID = identityID ∧ v.providerID = providerID ∧ Loaded v t) s := by
  unfold ownedIdentityForWrite
  apply safe_check
  intro _
  apply safe_run (fun _ _ _ => by trivial)
  intro input (v : VerifiedIdentity) t u _ hinv hexec _
  apply safe_check
  intro howner
  obtain ⟨found, hfound, heq⟩ := map_eq_ok_iff.mp hexec
  cases heq
  obtain ⟨r, hr, hid, rfl⟩ := Identities.findByID_eq_ok_iff.mp hfound
  exact ⟨hid, howner, Loaded.of_mem hinv hr⟩

/-! ### Sealing -/

theorem sealIdentityEvent_safe {inner : Event} (hraID : inner.raID = D.raID) (s : State D) :
    (sealIdentityEvent D inner).Safe (discipline D)
      (fun result t => result = .ok () → ∃ leaf ∈ t.log, factsOf leaf.event = factsOf inner) s := by
  unfold sealIdentityEvent
  cases hbody : canonicalizeEvent D inner with
  | error text => exact nofun
  | ok body =>
    apply safe_tryRun (fun _ _ _ => by trivial)
    · intro input (acknowledged : Bool) t u _ _ hexec _ _
      obtain ⟨log, hseal, heq⟩ := map_eq_ok_iff.mp hexec
      cases heq
      rcases appendEvent_ok hbody hraID (mapError_eq_ok_iff.mp hseal) with
        ⟨rfl, leaf, hleaf, hcanonical⟩ | ⟨leaf, rfl, hcanonical, _⟩
      · exact ⟨leaf, hleaf, leaf.facts_eq (hcanonical ▸ hbody)⟩
      · exact ⟨leaf, mem_append_right _ (mem_singleton.mpr rfl), leaf.facts_eq (hcanonical ▸ hbody)⟩
    · intro e t _
      exact nofun

/-! ### Register and Rotate -/

theorem ownedIdentityForWrite_free :
    (ownedIdentityForWrite D providerID identityID).Calls (Free D) fun _ => True := by
  apply Calls.lift
  intro _ _
  apply Calls.perform free
  intro (identity : VerifiedIdentity)
  apply Calls.lift
  intro _ _
  trivial

variable (identity : VerifiedIdentity)

theorem stagePresentation_free (opts : RegisterOptions) :
    (stagePresentation D identity opts).Calls (Free D) fun presented => presented.1.status = identity.status := by
  unfold stagePresentation
  cases identity.kind with
  | didWeb | didKey => exact (rfl : identity.status = identity.status)
  | lei =>
    have hpresentation : (registerPresentation D identity.effectiveValue opts).Calls (Free D) fun _ => True := by
      apply Calls.lift
      intro _ _
      apply Calls.query
      intro answer
      apply Calls.lift
      intro res _
      apply Calls.lift
      intro _ _
      apply Calls.lift
      intro _ _
      trivial
    apply hpresentation.bind
    intro presented _
    apply Calls.lift
    intro staged hstaged
    simp only [VerifiedIdentity.stageSubjectAID, bind_eq_ok_iff, pure_eq_ok_iff] at hstaged
    obtain ⟨_, _, rfl⟩ := hstaged
    exact (rfl : identity.status = identity.status)

theorem challenges_free (signingInput : String) :
    (challenges D identity signingInput).Calls (Free D) fun _ => True := by
  unfold challenges
  cases identity.kind with
  | didWeb =>
    apply Calls.perform free
    intro (doc : DIDDocument)
    split <;> trivial
  | didKey =>
    apply Calls.lift
    intro decoded _
    trivial
  | lei =>
    apply Calls.lift
    intro _ _
    trivial

theorem persistChallenge_free (loaded identity : VerifiedIdentity) (now : Time) (isNew : Bool)
    (hnew : isNew = true → identity.status = .pendingControl) (hstatus : loaded.status ≠ .revoked) :
    (persistChallenge D loaded identity now isNew).Calls (Free D) fun _ => True := by
  unfold persistChallenge
  cases isNew with
  | true =>
    apply Calls.attempt ⟨trivial, fun _ => hnew rfl⟩
    intro result
    cases result <;> trivial
  | false => exact ⟨⟨trivial, fun _ => hstatus⟩, fun r => .of_ret r⟩

theorem challenge_free (loaded : VerifiedIdentity) (now : Time) (isNew : Bool) (opts : RegisterOptions)
    (hnew : isNew = true → loaded.status = .pendingControl) :
    (challenge D loaded now isNew opts).Calls (Free D) fun _ => True := by
  apply Calls.lift
  intro _ _
  apply (stagePresentation_free loaded opts).bind
  intro presented hpresented
  apply Calls.query
  intro answer
  cases answer with
  | none => trivial
  | some nonce =>
    apply Calls.lift
    intro identity hissued
    obtain ⟨hlive, hidentity⟩ := VerifiedIdentity.issueChallenge_ok hissued
    have hstatus : identity.status = loaded.status := by
      rw [hidentity]
      exact hpresented
    apply Calls.lift
    intro signingInput _
    apply (challenges_free identity signingInput).bind
    intro offered _
    apply (persistChallenge_free presented.1 identity now isNew (fun h => hstatus.trans (hnew h)) hlive).bind
    intro _ _
    trivial

theorem register_free (providerID rawValue : String) (opts : RegisterOptions) :
    (register D providerID rawValue opts).Calls (Free D) fun _ => True := by
  unfold register
  generalize inferIdentifierKind rawValue = inferred
  apply Calls.lift
  intro _ _
  apply Calls.perform free
  intro asked
  apply Calls.perform free
  intro (allowed : Bool)
  apply Calls.lift
  intro _ _
  apply Calls.lift
  intro kindAndValue _
  apply Calls.lift
  intro _ _
  apply Calls.perform free
  intro now
  apply Calls.attempt free
  intro found
  cases found with
  | ok existing =>
    change (if existing.status = .verified then _ else _ : Program D _).Calls (Free D) _
    split
    · trivial
    · exact challenge_free existing now false opts nofun
  | error e =>
    apply Calls.lift
    intro _ _
    apply Calls.perform free
    intro (taken : Bool)
    apply Calls.lift
    intro _ _
    apply Calls.query
    intro answer
    cases answer with
    | none => trivial
    | some identityID =>
      apply Calls.lift
      intro identity hidentity
      simp only [newVerifiedIdentity, bind_eq_ok_iff, pure_eq_ok_iff] at hidentity
      obtain ⟨_, _, _, _, kind, _, rfl⟩ := hidentity
      exact challenge_free _ now true opts fun _ => rfl

theorem rotate_free (providerID identityID rawValue : String) (opts : RegisterOptions) :
    (rotate D providerID identityID rawValue opts).Calls (Free D) fun _ => True := by
  apply Calls.perform free
  intro asked
  apply Calls.perform free
  intro (allowed : Bool)
  apply Calls.lift
  intro _ _
  apply (ownedIdentityForWrite_free providerID identityID).bind
  intro identity _
  apply Calls.perform free
  intro now
  apply Calls.lift
  intro staged _
  exact challenge_free staged now false opts nofun

/-! ### VerifyControl -/

theorem verifyLEIProof_free (sub : ProofSubmission) (signingInput : String) :
    (verifyLEIProof D identity sub signingInput).Calls (Free D) fun _ => True := by
  apply Calls.lift
  intro _ _
  apply Calls.lift
  intro _ _
  apply Calls.query
  intro answer
  apply Calls.lift
  intro auth _
  apply Calls.lift
  intro _ _
  apply Calls.lift
  intro _ _
  apply Calls.query
  intro answer'
  apply Calls.lift
  intro ok _
  apply Calls.lift
  intro _ _
  trivial

theorem verifyProofs_free (sub : ProofSubmission) (signingInput : String) :
    (verifyProofs D identity sub signingInput).Calls (Free D) fun _ => True := by
  unfold verifyProofs
  cases identity.kind with
  | didWeb =>
    apply Calls.lift
    intro parsed _
    apply Calls.perform free
    intro (doc : DIDDocument)
    exact .of_ret _
  | didKey =>
    apply Calls.lift
    intro parsed _
    exact .of_ret _
  | lei => exact verifyLEIProof_free identity sub signingInput

/-- The keys that a kind's proofs yield are proven, under keys that the resolver or the identifier named. -/
theorem verifyProofs_safe {identity : VerifiedIdentity} {sub : ProofSubmission} {nonce signingInput : String}
    (hinput : (identity.proofInput D nonce).signingInput D = .ok signingInput) (s : State D) :
    (verifyProofs D identity sub signingInput).Safe (discipline D)
      (fun keys t => identity.kind ≠ .lei → ∀ key ∈ keys, KeyProven identity nonce key t) s := by
  have hproven {t : State D} {selectKey : String → Except Error (D.Key × Json)} {parsed : List JWSProof}
      {keys : List ProvenKey} (hparsed : parseJWSProofs D sub signingInput = .ok parsed)
      (hsealed : sealJWSProofs D parsed identity.effectiveValue selectKey = .ok keys)
      (hselects : ∀ kid pub method, selectKey kid = .ok (pub, method) → Selects identity kid pub method t) :
      ∀ key ∈ keys, KeyProven identity nonce key t := by
    intro key hkey
    obtain ⟨item, hitem, pub, method, hselect, hverify, rfl⟩ := mem_sealEachJWSProof hsealed key hkey
    have hdecoded := decodeStandardJWS_of_parseJWSProofs hparsed item.1 (fst_mem_of_mem_zipIdx hitem)
    exact ⟨item.1.header, signingInput, pub, method, hdecoded, hinput, hverify, hselects _ _ _ hselect, rfl⟩
  unfold verifyProofs
  cases hkind : identity.kind with
  | didWeb =>
    apply safe_orFail
    intro parsed hparsed
    apply safe_run (fun _ _ _ => by trivial)
    intro input (doc : DIDDocument) t u _ _ hexec _
    obtain ⟨doc', _, heq⟩ := map_eq_ok_iff.mp hexec
    cases heq
    cases hkeys : didWebKeys D doc identity.effectiveValue parsed with
    | error e => trivial
    | ok keys =>
      intro _
      simp only [didWebKeys, bind_eq_ok_iff, require_eq_ok_iff] at hkeys
      obtain ⟨_, hid, hsealed⟩ := hkeys
      apply hproven hparsed hsealed
      intro kid pub method hselect
      exact .document hkind (mem_append_right _ (mem_singleton.mpr rfl)) hid hselect
  | didKey =>
    apply safe_orFail
    intro parsed hparsed
    cases hkeys : didKeyKeys D identity.effectiveValue parsed with
    | error e => trivial
    | ok keys =>
      intro _
      simp only [didKeyKeys, bind_eq_ok_iff, mapError_eq_ok_iff] at hkeys
      obtain ⟨⟨pub, expectedKid⟩, hdecode, hsealed⟩ := hkeys
      apply hproven hparsed hsealed
      intro kid pub' method hselect
      simp only [selectDIDKey, bind_eq_ok_iff, require_eq_ok_iff, pure_eq_ok_iff,
        Prod.mk.injEq] at hselect
      obtain ⟨_, rfl, rfl, rfl⟩ := hselect
      exact .identifier hkind hdecode rfl
  | lei =>
    have hlei : (verifyLEIProof D identity sub signingInput).Safe (discipline D) (fun _ _ => True) s :=
      safe_of_free (verifyLEIProof_free identity sub signingInput)
    exact hlei.mono fun _ _ _ _ hne => absurd rfl hne

theorem releaseAndFail_safe {α : Type} {claim : Claim} {e : Error} {Q : α → State D → Prop} (s : State D) :
    (releaseAndFail D claim e : Program D α).Safe (discipline D) Q s := by
  intro t _ _
  exact ⟨trivial, fun _ _ _ _ => trivial, fun _ => trivial⟩

theorem completeProof_safe {loaded : VerifiedIdentity} {challenge : IdentityChallenge} {keys : List ProvenKey} {now : Time}
    {s : State D} (hloaded : Loaded loaded s) (hchallenge : loaded.challenge = some challenge)
    (hopen : challenge.consumedAt = none) (hnow : now ≤ s.latest)
    (hkeys : loaded.kind ≠ .lei → ∀ key ∈ keys, KeyProven loaded challenge.nonce key s) :
    (completeProof D loaded challenge keys now).Safe (discipline D) (fun _ _ => True) s := by
  have hissue : ⟨challenge.nonce, loaded.identityID, loaded.status, loaded.value, loaded.pendingValue⟩ ∈ s.issued := by
    apply hloaded.issued
    rw [Row.issue?_eq_some_iff, Row.openNonce_eq_some_iff]
    exact ⟨⟨challenge, hchallenge, hopen, rfl⟩, rfl⟩
  unfold completeProof
  apply safe_run
  · intro t hst _
    exact ⟨hnow.trans hst.latest, _, hst.issued hissue, rfl, rfl⟩
  intro _ _ _ u _ _ _ hsu
  cases hcompleted : loaded.completeVerification with
  | error e => exact releaseAndFail_safe u
  | ok completed =>
    obtain ⟨verified, previousValue⟩ := completed
    obtain ⟨_, _, hid, _, hkind, _, _⟩ := VerifiedIdentity.completeVerification_ok hcompleted
    apply (sealIdentityEvent_safe rfl u).bind
    intro result v huv hsealed
    have hsv := hsu.trans huv
    cases result with
    | error e => exact releaseAndFail_safe v
    | ok _ =>
      obtain ⟨leaf, hleaf, hfacts⟩ := hsealed rfl
      have hproven : Proven v.log loaded.identityID loaded.kind verified.value := by
        simp only [factsOf, proofEvent, buildIdentityEvent, Facts.mk.injEq] at hfacts
        obtain ⟨htype, hidentity, hleafKind, hvalue, _⟩ := hfacts
        refine ⟨leaf, hleaf, ?_, hidentity.trans hid, ?_, hvalue⟩
        · rw [htype]
          unfold proofEventType
          split <;> rfl
        · rw [hleafKind, hkind]
      apply safe_tryRun
      · intro w hvw _
        have hsw := hsv.trans hvw
        refine ⟨⟨hloaded.known.mono hsw, hsw.issued hissue, ⟨previousValue, hcompleted⟩, hnow.trans hsw.latest, ?_⟩,
          hproven.mono hvw.log⟩
        exact fun hne key hkey => (hkeys hne key hkey).mono hsw
      · intro _ _ _ _ _ _ _ _
        trivial
      · intro e w _
        exact releaseAndFail_safe w

theorem verifyControl_safe (sub : ProofSubmission) (s : State D) :
    (verifyControl D providerID identityID sub).Safe (discipline D) (fun _ _ => True) s := by
  unfold verifyControl
  apply (ownedIdentityForWrite_safe providerID identityID s).bind
  intro identity t _ hidentity
  obtain ⟨_, _, hloaded⟩ := hidentity
  apply safe_run (fun _ _ _ => by trivial)
  intro input (now : Time) t' u _ _ hclock htu
  have hnow : now ≤ u.latest := by
    cases hclock
    exact Nat.le_max_right _ _
  apply safe_check
  intro _
  apply safe_orFail
  intro challenge hchallenge
  obtain ⟨hchallenge, hopen, _⟩ := VerifiedIdentity.checkChallenge_eq_ok_iff.mp hchallenge
  apply safe_orFail
  intro _ _
  apply safe_orFail
  intro _ _
  apply safe_orFail
  intro expectedPayload hpayload
  rw [mapError_eq_ok_iff] at hpayload
  apply (verifyProofs_safe hpayload u).bind
  intro keys v huv hkeys
  have hcomplete {w : State D} (hvw : Grows v w) :
      (completeProof D identity challenge keys now).Safe (discipline D) (fun _ _ => True) w :=
    completeProof_safe (hloaded.mono (htu.trans (huv.trans hvw))) hchallenge hopen (hnow.trans (huv.trans hvw).latest)
      fun hne key hkey => (hkeys hne key hkey).mono hvw
  split
  · apply safe_run (fun _ _ _ => by trivial)
    intro _ (taken : Bool) _ w _ _ _ hvw
    apply safe_check
    intro _
    exact hcomplete hvw
  · exact hcomplete (Grows.refl v)

/-! ### Revoke -/

theorem revoke_safe (s : State D) :
    (revoke D providerID identityID).Safe (discipline D) (fun _ _ => True) s := by
  unfold revoke
  apply (ownedIdentityForWrite_safe providerID identityID s).bind
  intro identity t _ _
  apply safe_run (fun _ _ _ => by trivial)
  intro _ now _ u _ _ _ _
  apply safe_orFail
  intro revoked _
  apply (sealIdentityEvent_safe rfl u).bind
  intro result v _ hsealed
  apply safe_orFail
  intro _ hresult
  obtain ⟨leaf, hleaf, hfacts⟩ := hsealed hresult
  simp only [factsOf, revocationEvent, buildIdentityEvent, Facts.mk.injEq] at hfacts
  have hrevoked : RevokedIn v.log revoked.identityID := ⟨leaf, hleaf, hfacts.1, hfacts.2.1⟩
  apply safe_run
  · intro w hvw _
    exact hrevoked.mono hvw.log
  · intro _ _ _ _ _ _ _ _
    trivial

/-! ### Links -/

/-- The agent is the caller's. -/
def OwnAgent (providerID agentID : String) (s : State D) : Prop :=
  ∃ a ∈ s.agents, a.agentID = agentID ∧ a.ownerID = providerID

theorem OwnAgent.mono {providerID agentID : String} {s t : State D} (h : Grows s t) (hown : OwnAgent providerID agentID s) :
    OwnAgent providerID agentID t := by
  obtain ⟨a, ha, hid, howner⟩ := hown
  obtain ⟨b, hb, hid', howner'⟩ := h.agents a ha
  exact ⟨b, hb, hid'.trans hid, howner'.trans howner⟩

theorem checkLinkable_free (providerID agentID : String) :
    (checkLinkable D providerID agentID).Calls (Free D) fun _ => True := by
  apply Calls.attempt free
  intro found
  cases found with
  | error e => trivial
  | ok a =>
    apply Calls.lift
    intro _ _
    exact .of_ret _

theorem checkLinkable_safe (providerID agentID : String) (s : State D) :
    (checkLinkable D providerID agentID).Safe (discipline D) (fun _ => OwnAgent providerID agentID) s := by
  unfold checkLinkable
  apply safe_tryRun (fun _ _ _ => by trivial)
  · intro _ (a : AgentRecord) t u _ _ hexec _
    apply safe_check
    intro howner
    simp only [Call.exec] at hexec
    split at hexec
    · rename_i found hfound
      cases hexec
      have hown : OwnAgent providerID agentID t :=
        ⟨a, mem_of_find?_eq_some hfound, by simpa using find?_some hfound, howner⟩
      exact safe_lastCheck fun _ => hown
    · cases hexec
  · intro e t _
    trivial

theorem link_safe (agentIDs : List String) (s : State D) :
    (link D providerID identityID agentIDs).Safe (discipline D) (fun _ _ => True) s := by
  unfold link
  apply safe_run (fun _ _ _ => by trivial)
  intro _ asked _ _ _ _ _ _
  apply safe_run (fun _ _ _ => by trivial)
  intro _ (allowed : Bool) _ u _ _ _ _
  apply safe_check
  intro _
  apply (ownedIdentityForWrite_safe providerID identityID u).bind
  intro identity t _ hidentity
  obtain ⟨hid, hprovider, hloaded⟩ := hidentity
  apply safe_check
  intro _
  apply safe_check
  intro _
  apply safe_check
  intro _
  apply safe_check
  intro _
  have hagents : (forEach agentIDs.reverse.dedup.reverse (checkLinkable D providerID)).Safe (discipline D)
      (fun _ t => ∀ agentID ∈ agentIDs.reverse.dedup.reverse, OwnAgent providerID agentID t) t :=
    Safe.forEach (fun _ _ _ h hown => hown.mono h) fun agentID _ t' _ => checkLinkable_safe providerID agentID t'
  apply hagents.bind
  intro _ v htv howned
  apply safe_run (fun _ _ _ => by trivial)
  intro _ (existing : List IdentityLink) _ w _ _ _ hvw
  generalize hnew : agentIDs.reverse.dedup.reverse.filter (· ∉ existing.map IdentityLink.agentID) = newlyLinked
  have hlinkable : ∀ agentID ∈ newlyLinked, SameOwner identityID agentID w := by
    intro agentID hagent
    rw [← hnew] at hagent
    obtain ⟨a, ha, hagentID, howner⟩ := (howned agentID (mem_of_mem_filter hagent)).mono hvw
    obtain ⟨r, hr, hrid, hrprovider, _⟩ := hloaded.known.mono (htv.trans hvw)
    exact ⟨r, hr, hrid.trans hid, a, ha, hagentID, howner.trans (hprovider.symm.trans hrprovider.symm)⟩
  change (if newlyLinked = [] then _ else _ : Program D _).Safe _ _ w
  split
  · trivial
  · apply safe_run (fun _ _ _ => by trivial)
    intro _ now _ x _ _ _ hwx
    apply (sealIdentityEvent_safe rfl x).bind
    intro result y hxy hsealed
    apply safe_orFail
    intro _ hresult
    obtain ⟨leaf, hleaf, hfacts⟩ := hsealed hresult
    simp only [factsOf, linkEvent, buildIdentityEvent, Facts.mk.injEq] at hfacts
    obtain ⟨htype, hidentity, _, _, hids⟩ := hfacts
    apply safe_run
    · intro z hyz _ agentID hagent
      refine ⟨?_, (hlinkable agentID hagent).mono (hwx.trans (hxy.trans hyz))⟩
      exact ⟨leaf, hyz.log hleaf, htype, hidentity.trans hid, hids ▸ hagent⟩
    · intro _ _ _ _ _ _ _ _
      trivial

theorem unlink_safe (providerID identityID agentID : String) (s : State D) :
    (unlink D providerID identityID agentID).Safe (discipline D) (fun _ _ => True) s := by
  unfold unlink
  apply safe_run (fun _ _ _ => by trivial)
  intro _ asked _ _ _ _ _ _
  apply safe_run (fun _ _ _ => by trivial)
  intro _ (allowed : Bool) _ u _ _ _ _
  apply safe_check
  intro _
  apply (ownedIdentityForWrite_safe providerID identityID u).bind
  intro identity _ _ _
  apply safe_run (fun _ _ _ => by trivial)
  intro _ (existing : List IdentityLink) _ _ _ _ _ _
  apply safe_check
  intro _
  apply safe_run (fun _ _ _ => by trivial)
  intro _ now _ v _ _ _ _
  apply (sealIdentityEvent_safe rfl v).bind
  intro result w _ _
  apply safe_orFail
  intro _ _ x _ _
  exact ⟨trivial, fun _ _ _ _ => trivial, fun _ => trivial⟩

/-! ### The service -/

/-- The contract governs the service. -/
theorem governs (D : Deployment) : (discipline D).Governs (service D) (fun _ _ _ => True) where
  init := inv_init
  guarantee := fun _ _ h => h
  stable := fun _ _ _ _ _ _ => trivial
  body := by
    intro op s _
    cases op with
    | register providerID rawValue opts =>
      exact (safe_of_free (register_free providerID rawValue opts)).bind fun _ _ _ _ => trivial
    | rotate providerID identityID rawValue opts =>
      exact (safe_of_free (rotate_free providerID identityID rawValue opts)).bind fun _ _ _ _ => trivial
    | verifyControl providerID identityID sub =>
      exact (verifyControl_safe providerID identityID sub s).bind fun _ _ _ _ => trivial
    | revoke providerID identityID => exact (revoke_safe providerID identityID s).bind fun _ _ _ _ => trivial
    | link providerID identityID agentIDs => exact (link_safe providerID identityID agentIDs s).bind fun _ _ _ _ => trivial
    | unlink providerID identityID agentID =>
      exact (unlink_safe providerID identityID agentID s).bind fun _ _ _ _ => trivial
    | setAgent | restart => exact safe_run (fun _ _ _ => by trivial) fun _ _ _ _ _ _ _ _ => trivial

end AgentNameService.Identity
