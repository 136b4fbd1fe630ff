/-
Purpose: The order in which an operation of the identity service claims, seals and commits.  A call that holds a claim has
  sealed nothing or its own proof; what is committed is what was sealed; and every operation gives its claim back.
Source: internal/ra/service/identity.go
Trusted boundary: none
-/
import AgentNameService.Foundation.Monitor
import AgentNameService.Identity.Conduct

namespace AgentNameService.Identity

open Interleaving Prog Registration TransparencyLog.Identity
open TransparencyLog (EventType)

variable {D : Deployment} {Q : Except Error VerifiedIdentity → Phase → Prop}

/-! ### What sealed bytes state -/

/-- The bytes are those of an event of this authority, which states the facts. -/
def States (D : Deployment) (body : Json) (f : Facts) : Prop :=
  ∃ e, canonicalizeEvent D e = .ok body ∧ e.raID = D.raID ∧ factsOf e = f

theorem States.unique {body : Json} {f g : Facts} (hf : States D body f) (hg : States D body g) : f = g := by
  obtain ⟨a, ha, _, rfl⟩ := hf
  obtain ⟨b, hb, _, rfl⟩ := hg
  exact facts_eq_of_canonical ha hb

/-- A seal leaves the log as it is when the event is in it, and otherwise adds a leaf that states its facts. -/
theorem States.appendEvent_ok {log log' : List (Leaf D)} {body : Json} {f : Facts} (hstates : States D body f)
    (h : appendEvent D log body = .ok log') : (log' = log ∧ ∃ leaf ∈ log, leaf.canonical = body) ∨
      ∃ leaf : Leaf D, log' = log ++ [leaf] ∧ factsOf leaf.event = f := by
  obtain ⟨e, hbody, hraID, rfl⟩ := hstates
  rcases Identity.appendEvent_ok hbody hraID h with hold | ⟨leaf, hlog, hcanonical, _⟩
  · exact .inl hold
  · exact .inr ⟨leaf, hlog, leaf.facts_eq (hcanonical ▸ hbody)⟩

/-! ### The phases of a call -/

/-- What a call holds: a claim on a challenge, and an acknowledged event that is not committed yet. -/
structure Phase where
  claim : Option Claim
  sealed : Option Json
deriving DecidableEq

namespace Phase

def idle : Phase := ⟨none, none⟩

/-- The call has sealed an event that states the facts. -/
def Sealed (D : Deployment) (φ : Phase) (f : Facts) : Prop := ∃ body, φ.sealed = some body ∧ States D body f

theorem Sealed.unique {φ : Phase} {f g : Facts} (hf : φ.Sealed D f) (hg : φ.Sealed D g) : f = g := by
  obtain ⟨body, hbody, hstates⟩ := hf
  obtain ⟨body', hbody', hstates'⟩ := hg
  rw [hbody] at hbody'
  cases hbody'
  exact hstates.unique hstates'

/-- What a step that replied, or failed, means for its call. -/
def after (φ : Phase) : (c : Call) → Except Error c.Reply → Phase
  | .claimChallenge claim, .ok _ => { φ with claim := some claim }
  | .sealEvent body, .ok (acknowledged : Bool) => if acknowledged then { φ with sealed := some body } else φ
  | .commitVerification _, .error _ => { φ with sealed := none }
  | .commitVerification _, .ok _ | .markRevoked _, .ok _ | .commitLinks .., .ok _ | .commitUnlink .., .ok _
  | .releaseChallenge _, _ => idle
  | _, _ => φ

/-- In which phase a call makes a step. -/
def Admits (D : Deployment) (φ : Phase) : Call → Prop
  | .claimChallenge _ => φ = idle
  | .sealEvent body => φ.sealed = none ∧ ∃ f, States D body f ∧
      (f.eventType.isProof = true ↔ φ.claim ≠ none) ∧ ∀ claim, φ.claim = some claim → f.identityID = claim.identityID
  | .commitVerification a => φ.claim = some a.claim ∧ a.verified.identityID = a.loaded.identityID ∧
      ∃ f, φ.Sealed D f ∧ f.eventType.isProof = true ∧ f.identityID = a.loaded.identityID ∧
        f.kind = a.loaded.kind.text ∧ f.value = a.verified.value
  | .releaseChallenge claim => φ = ⟨some claim, none⟩
  | .markRevoked identityID => φ.claim = none ∧ ∃ f, φ.Sealed D f ∧ f.eventType = .identityRevoked ∧
      f.identityID = identityID
  | .commitLinks identityID agentIDs _ => φ.claim = none ∧ ∃ f, φ.Sealed D f ∧ f.eventType = .identityLinked ∧
      f.identityID = identityID ∧ f.ansIDs = agentIDs
  | .commitUnlink identityID agentID => φ.claim = none ∧ ∃ f, φ.Sealed D f ∧ f.eventType = .identityUnlinked ∧
      f.identityID = identityID ∧ f.ansIDs = [agentID]
  | _ => φ = idle

end Phase

/-- What every reply says: `FindByID` returns the identity that it was asked for. -/
def Replies : (c : Call) → c.Reply → Prop
  | .findByID identityID, (v : VerifiedIdentity) => v.identityID = identityID
  | _, _ => True

theorem replies_exec (c : Call) (input : Ambient) (s : State D) (r : c.Reply) (t : State D)
    (h : c.exec input s = .ok (r, t)) : Replies c r := by
  cases c with
  | findByID identityID =>
    obtain ⟨v, hfound, heq⟩ := Except.map_eq_ok_iff.mp h
    cases heq
    obtain ⟨_, _, hid, rfl⟩ := Identities.findByID_eq_ok_iff.mp hfound
    exact hid
  | _ => trivial

def protocol (D : Deployment) : Monitor (RA D) where
  Phase := Phase
  start := .idle
  after := Phase.after
  admits := Phase.Admits D
  replies := Replies
  replies_exec := replies_exec

theorem Phase.after_of_quiet {c : Call} (h : Quiet c) (φ : Phase) (r : Except Error c.Reply) : φ.after c r = φ := by
  cases c <;> first | rfl | cases h

theorem Phase.admits_of_quiet {c : Call} (h : Quiet c) : Phase.idle.Admits D c := by
  cases c <;> first | rfl | cases h

/-- A program of free steps stays idle. -/
theorem follows_of_free {α : Type} {p : Program D α} {R : α → Prop} {Q : Except Error α → Phase → Prop}
    (h : p.Calls (Free D) R) (hok : ∀ a, R a → Q (.ok a) .idle) (herr : ∀ e, Q (.error e) .idle) :
    p.Follows (protocol D) Phase.idle Q := by
  refine Follows.of_calls (h.mono fun c hc => ?_) hok herr
  exact ⟨Phase.admits_of_quiet hc.1, Phase.after_of_quiet hc.1 _⟩

theorem follows_free_bind {α β : Type} {p : Program D α} {f : α → Program D β} {Q : Except Error β → Phase → Prop}
    (h : p.Calls (Free D) fun _ => True) (hok : ∀ a, (f a).Follows (protocol D) Phase.idle Q)
    (herr : ∀ e, Q (.error e) .idle) : (p >>= f).Follows (protocol D) Phase.idle Q := by
  apply Follows.bind
  exact follows_of_free h (fun a _ => hok a) herr

/-! ### Sealing -/

/-- After an identity was read for a write; `FindByID` returned the one that was asked for. -/
theorem follows_owned {α : Type} {providerID identityID : String} {f : VerifiedIdentity → Program D α}
    {Q : Except Error α → Phase → Prop} (hok : ∀ v, v.identityID = identityID → (f v).Follows (protocol D) Phase.idle Q)
    (herr : ∀ e, Q (.error e) .idle) :
    (ownedIdentityForWrite D providerID identityID >>= f).Follows (protocol D) Phase.idle Q := by
  apply Follows.bind
  unfold ownedIdentityForWrite
  apply Follows.lift
  · intro _ _
    apply Follows.perform rfl
    · intro (v : VerifiedIdentity) hid
      apply Follows.lift
      · intro _ _
        exact hok v hid
      · exact herr
    · exact herr
  · exact herr

/-- A seal without an acknowledgement leaves the phase as it is; with one the event is held. -/
theorem sealIdentityEvent_follows {inner : Event} {claim : Option Claim} (hraID : inner.raID = D.raID)
    (hproof : inner.eventType.isProof = true ↔ claim ≠ none)
    (hid : ∀ c, claim = some c → inner.identityID = c.identityID) {Q : Except Error (Except Error Unit) → Phase → Prop}
    (hok : ∀ φ : Phase, φ.claim = claim → φ.Sealed D (factsOf inner) → Q (.ok (.ok ())) φ)
    (herr : ∀ e, Q (.ok (.error e)) ⟨claim, none⟩) :
    (sealIdentityEvent D inner).Follows (protocol D) (⟨claim, none⟩ : Phase) Q := by
  unfold sealIdentityEvent
  cases hbody : canonicalizeEvent D inner with
  | error text => exact herr _
  | ok body =>
    have hstates : States D body (factsOf inner) := ⟨inner, hbody, hraID, rfl⟩
    apply Follows.attempt
    · exact ⟨rfl, factsOf inner, hstates, hproof, hid⟩
    · intro result
      cases result with
      | error e => exact herr e
      | ok acknowledged =>
        cases acknowledged with
        | false => exact herr tlUnavailable
        | true => exact hok ⟨claim, some body⟩ rfl ⟨body, rfl, hstates⟩

/-- The operations that seal without a claim. -/
def Op.IsLinkOrRevoke : Op → Prop
  | .link .. | .unlink .. | .revoke .. => True
  | _ => False

/-- How a call ends: it holds no claim, and nothing that it sealed is uncommitted, except after a failed change of links
or a failed revocation. -/
def Ends (op : Op) (result : Except Error Outcome) (φ : Phase) : Prop :=
  φ.claim = none ∧ (φ = .idle ∨ op.IsLinkOrRevoke ∧ ∃ e, result = .error e)

/-! ### VerifyControl -/

theorem releaseAndFail_follows {α : Type} {claim : Claim} {e : Error} {Q : Except Error α → Phase → Prop}
    (herr : ∀ e, Q (.error e) .idle) :
    (releaseAndFail D claim e : Program D α).Follows (protocol D) (⟨some claim, none⟩ : Phase) Q := by
  apply Follows.attempt rfl
  intro result
  exact herr e

theorem completeProof_follows (loaded : VerifiedIdentity) (challenge : IdentityChallenge) (keys : List ProvenKey)
    (now : Time) (hok : ∀ v, Q (.ok v) .idle) (herr : ∀ e, Q (.error e) .idle) :
    (completeProof D loaded challenge keys now).Follows (protocol D) Phase.idle Q := by
  apply Follows.perform rfl
  · intro _ _
    change Follows (protocol D) _ (⟨some ⟨loaded.identityID, challenge.nonce, now⟩, none⟩ : Phase) Q
    cases hcompleted : loaded.completeVerification with
    | error e => exact releaseAndFail_follows herr
    | ok completed =>
      obtain ⟨_, _, hid, _, hkind, _⟩ := VerifiedIdentity.completeVerification_ok hcompleted
      have hproof : (proofEventType loaded.status).isProof = true := by
        unfold proofEventType
        split <;> rfl
      apply Follows.bind
      apply sealIdentityEvent_follows rfl
      · exact iff_of_true hproof nofun
      · rintro c ⟨⟩
        exact hid
      · intro φ hclaim hsealed
        apply Follows.attempt
         
        · refine ⟨hclaim, hid, _, hsealed, hproof, hid, ?_, rfl⟩
          change completed.1.kind.text = loaded.kind.text
          rw [hkind]
        · intro result
          cases result with
          | ok v => exact hok v
          | error e =>
            change Follows (protocol D) _ ({ φ with sealed := none } : Phase) Q
            rw [hclaim]
            exact releaseAndFail_follows herr
      · intro e
        exact releaseAndFail_follows herr
  · exact herr

variable (providerID identityID : String)

theorem verifyControl_follows (sub : ProofSubmission)
    (hok : ∀ v, Q (.ok v) .idle) (herr : ∀ e, Q (.error e) .idle) :
    (verifyControl D providerID identityID sub).Follows (protocol D) Phase.idle Q := by
  apply follows_owned ?_ herr
  intro identity _
  apply Follows.perform rfl ?_ herr
  intro now _
  apply Follows.lift ?_ herr
  intro _ _
  apply Follows.lift ?_ herr
  intro challenge _
  apply Follows.lift ?_ herr
  intro _ _
  apply Follows.lift ?_ herr
  intro _ _
  apply Follows.lift ?_ herr
  intro expectedPayload _
  apply follows_free_bind (verifyProofs_free identity sub expectedPayload) ?_ herr
  intro provenKeys
  have hcomplete : (completeProof D identity challenge provenKeys now).Follows (protocol D) Phase.idle Q :=
    completeProof_follows identity challenge provenKeys now hok herr
  change (if identity.status ≠ .verified then _ else _ : Program D _).Follows (protocol D) Phase.idle Q
  split
  · apply Follows.perform rfl ?_ herr
    intro (taken : Bool) _
    apply Follows.lift ?_ herr
    intro _ _
    exact hcomplete
  · exact hcomplete

/-! ### Revoke and links -/

/-- After a seal that no claim goes with. -/
theorem follows_seal {α : Type} {inner : Event} {p : Program D α} (hraID : inner.raID = D.raID)
    (hproof : inner.eventType.isProof = false) {Q : Except Error α → Phase → Prop}
    (hok : ∀ φ : Phase, φ.claim = none → φ.Sealed D (factsOf inner) → p.Follows (protocol D) φ Q)
    (herr : ∀ e, Q (.error e) .idle) :
    (do orFail (← sealIdentityEvent D inner); p : Program D α).Follows (protocol D) Phase.idle Q := by
  apply Follows.bind
  apply sealIdentityEvent_follows hraID
  · simp [hproof]
  · nofun
  · exact hok
  · exact herr

theorem revoke_follows
    (hok : ∀ v, Q (.ok v) .idle) (herr : ∀ e φ, φ.claim = none → Q (.error e) φ) :
    (revoke D providerID identityID).Follows (protocol D) Phase.idle Q := by
  have hidle (e : Error) : Q (.error e) .idle := herr e .idle rfl
  apply follows_owned ?_ hidle
  intro identity hid
  apply Follows.perform rfl ?_ hidle
  intro now _
  apply Follows.lift ?_ hidle
  intro revoked _
  apply follows_seal rfl rfl ?_ hidle
  intro φ hclaim hsealed
  apply Follows.perform
  · exact ⟨hclaim, _, hsealed, rfl, rfl⟩
  · exact fun _ _ => hok revoked
  · exact fun e => herr e φ hclaim

theorem link_follows (agentIDs : List String) {Q : Except Error Nat → Phase → Prop}
    (hok : ∀ n, Q (.ok n) .idle) (herr : ∀ e φ, φ.claim = none → Q (.error e) φ) :
    (link D providerID identityID agentIDs).Follows (protocol D) Phase.idle Q := by
  have hidle (e : Error) : Q (.error e) .idle := herr e .idle rfl
  apply Follows.perform rfl ?_ hidle
  intro (asked : Time) _
  apply Follows.perform rfl ?_ hidle
  intro (allowed : Bool) _
  apply Follows.lift ?_ hidle
  intro _ _
  apply follows_owned ?_ hidle
  intro identity hid
  apply Follows.lift ?_ hidle
  intro _ _
  apply Follows.lift ?_ hidle
  intro _ _
  apply Follows.lift ?_ hidle
  intro _ _
  apply Follows.lift ?_ hidle
  intro _ _
  apply follows_free_bind (Calls.forEach fun agentID _ => checkLinkable_free providerID agentID) ?_ hidle
  intro _
  apply Follows.perform rfl ?_ hidle
  intro (existing : List IdentityLink) _
  change (if _ then _ else _ : Program D _).Follows (protocol D) Phase.idle Q
  split
  · exact hok 0
  · apply Follows.perform rfl ?_ hidle
    intro (now : Time) _
    apply follows_seal rfl rfl ?_ hidle
    intro φ hclaim hsealed
    apply Follows.perform
    · exact ⟨hclaim, _, hsealed, rfl, hid, rfl⟩
    · exact fun _ _ => hok _
    · exact fun e => herr e φ hclaim

theorem unlink_follows (providerID identityID agentID : String) {Q : Except Error Unit → Phase → Prop}
    (hok : Q (.ok ()) .idle) (herr : ∀ e φ, φ.claim = none → Q (.error e) φ) :
    (unlink D providerID identityID agentID).Follows (protocol D) Phase.idle Q := by
  have hidle (e : Error) : Q (.error e) .idle := herr e .idle rfl
  apply Follows.perform rfl ?_ hidle
  intro (asked : Time) _
  apply Follows.perform rfl ?_ hidle
  intro (allowed : Bool) _
  apply Follows.lift ?_ hidle
  intro _ _
  apply follows_owned ?_ hidle
  intro identity hid
  apply Follows.perform rfl ?_ hidle
  intro (existing : List IdentityLink) _
  apply Follows.lift ?_ hidle
  intro _ _
  apply Follows.perform rfl ?_ hidle
  intro (now : Time) _
  apply follows_seal rfl rfl ?_ hidle
  intro φ hclaim hsealed
  refine ⟨⟨hclaim, _, hsealed, rfl, hid, rfl⟩, ?_⟩
  intro result _
  cases result with
  | ok _ => exact hok
  | error e => exact herr e φ hclaim

/-! ### The service -/

theorem operation_follows (op : Op) : (operation D op).Follows (protocol D) Phase.idle (Ends op) := by
  have hidle (op : Op) (result : Except Error Outcome) : Ends op result .idle := ⟨rfl, .inl rfl⟩
  have hfree {op : Op} {p : Program D Outcome} (h : p.Calls (Free D) fun _ => True) :
      p.Follows (protocol D) Phase.idle (Ends op) :=
    follows_of_free h (fun out _ => hidle op (.ok out)) fun e => hidle op (.error e)
  cases op with
  | register providerID rawValue opts =>
    apply hfree
    apply (register_free providerID rawValue opts).bind
    intro _ _
    trivial
  | rotate providerID identityID rawValue opts =>
    apply hfree
    apply (rotate_free providerID identityID rawValue opts).bind
    intro _ _
    trivial
  | verifyControl providerID identityID sub =>
    apply Follows.bind
    exact verifyControl_follows providerID identityID sub (fun v => hidle _ (.ok (.identity v))) fun e => hidle _ (.error e)
  | revoke providerID identityID =>
    apply Follows.bind
    apply revoke_follows providerID identityID (fun v => hidle _ (.ok (.identity v)))
    intro e φ hclaim
    exact ⟨hclaim, .inr ⟨trivial, e, rfl⟩⟩
  | link providerID identityID agentIDs =>
    apply Follows.bind
    apply link_follows providerID identityID agentIDs (fun n => hidle _ (.ok (.linked n)))
    intro e φ hclaim
    exact ⟨hclaim, .inr ⟨trivial, e, rfl⟩⟩
  | unlink providerID identityID agentID =>
    apply Follows.bind
    apply unlink_follows providerID identityID agentID (hidle _ (.ok .done))
    intro e φ hclaim
    exact ⟨hclaim, .inr ⟨trivial, e, rfl⟩⟩
  | setAgent | restart => exact hfree (Calls.perform ⟨trivial, fun _ => trivial⟩ fun _ => trivial)

end AgentNameService.Identity
