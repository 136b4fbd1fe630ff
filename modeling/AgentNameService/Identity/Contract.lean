/-
Purpose: What the operations of the identity service rely on and guarantee.  The tables are never ahead of the log: a verified
  row has its proof in it, a revoked row its revocation, a live link its event.  What an operation has read, sealed or checked
  stays true in the terms of this contract until it commits.
Source: internal/ra/service/identity.go
Trusted boundary: none
-/
import AgentNameService.Identity.Effects

namespace AgentNameService.Identity

open List Except Identities Registration TransparencyLog.Identity

variable {D : Deployment} {s t u : State D} {identityID : String} {v : VerifiedIdentity} {agentID : String}

/-! ### What the log says -/

/-- The log holds a proof of an identity with its kind and value. -/
def Proven (log : List (Leaf D)) (identityID : String) (kind : IdentifierKind) (value : String) : Prop :=
  ∃ leaf ∈ log, leaf.event.eventType.isProof = true ∧ leaf.event.identityID = identityID ∧
    leaf.event.kind = kind.text ∧ leaf.event.value = value

/-- The log holds a revocation of an identity. -/
def RevokedIn (log : List (Leaf D)) (identityID : String) : Prop :=
  ∃ leaf ∈ log, leaf.event.eventType = .identityRevoked ∧ leaf.event.identityID = identityID

/-- The log holds a link of an identity that names an agent. -/
def LinkedIn (log : List (Leaf D)) (identityID agentID : String) : Prop :=
  ∃ leaf ∈ log, leaf.event.eventType = .identityLinked ∧ leaf.event.identityID = identityID ∧ agentID ∈ leaf.event.ansIDs

/-! ### What no step takes back -/

structure Grows (s t : State D) : Prop where
  rows : ∀ r ∈ s.identities.rows, ∃ r' ∈ t.identities.rows, r'.id = r.id ∧
    r'.identity.providerID = r.identity.providerID ∧ r'.identity.kind = r.identity.kind
  agents : ∀ a ∈ s.agents, ∃ b ∈ t.agents, b.agentID = a.agentID ∧ b.ownerID = a.ownerID
  log : s.log ⊆ t.log
  latest : s.latest ≤ t.latest
  issued : s.issued ⊆ t.issued
  resolved : s.resolved ⊆ t.resolved

namespace Grows

theorem refl (s : State D) : Grows s s where
  rows := fun r hr => ⟨r, hr, rfl, rfl, rfl⟩
  agents := fun a ha => ⟨a, ha, rfl, rfl⟩
  log := Subset.refl _
  latest := Nat.le_refl _
  issued := Subset.refl _
  resolved := Subset.refl _

theorem trans (h : Grows s t) (h' : Grows t u) : Grows s u where
  rows := by
    intro r hr
    obtain ⟨r', hr', hid, hprovider, hkind⟩ := h.rows r hr
    obtain ⟨r'', hr'', hid', hprovider', hkind'⟩ := h'.rows r' hr'
    exact ⟨r'', hr'', hid'.trans hid, hprovider'.trans hprovider, hkind'.trans hkind⟩
  agents := by
    intro a ha
    obtain ⟨b, hb, hid, howner⟩ := h.agents a ha
    obtain ⟨c, hc, hid', howner'⟩ := h'.agents b hb
    exact ⟨c, hc, hid'.trans hid, howner'.trans howner⟩
  log := Subset.trans h.log h'.log
  latest := h.latest.trans h'.latest
  issued := Subset.trans h.issued h'.issued
  resolved := Subset.trans h.resolved h'.resolved

/-- A row that is changed stays the row of its identity. -/
theorem rows_setRow {change : Row → Row} {rows : List Row}
    (hchange : ∀ r, (change r).id = r.id ∧ (change r).identity.providerID = r.identity.providerID ∧
      (change r).identity.kind = r.identity.kind) : ∀ r ∈ rows, ∃ r' ∈ setRow identityID change rows, r'.id = r.id ∧
      r'.identity.providerID = r.identity.providerID ∧ r'.identity.kind = r.identity.kind := by
  intro r hr
  by_cases hid : r.id = identityID
  · exact ⟨change r, mem_setRow.mpr (.inl ⟨r, hr, hid, rfl⟩), hchange r⟩
  · exact ⟨r, mem_setRow.mpr (.inr ⟨hr, hid⟩), rfl, rfl, rfl⟩

end Grows

theorem Proven.mono {log log' : List (Leaf D)} {value : String} {kind : IdentifierKind} (h : log ⊆ log')
    (hproven : Proven log identityID kind value) : Proven log' identityID kind value := by
  obtain ⟨leaf, hleaf, hfacts⟩ := hproven
  exact ⟨leaf, h hleaf, hfacts⟩

theorem RevokedIn.mono {log log' : List (Leaf D)} (h : log ⊆ log')
    (hrevoked : RevokedIn log identityID) : RevokedIn log' identityID := by
  obtain ⟨leaf, hleaf, hfacts⟩ := hrevoked
  exact ⟨leaf, h hleaf, hfacts⟩

theorem LinkedIn.mono {log log' : List (Leaf D)} (h : log ⊆ log')
    (hlinked : LinkedIn log identityID agentID) : LinkedIn log' identityID agentID := by
  obtain ⟨leaf, hleaf, hfacts⟩ := hlinked
  exact ⟨leaf, h hleaf, hfacts⟩

/-! ### What an operation knows -/

/-- The identity is stored, with its owner and kind. -/
def Known (v : VerifiedIdentity) (s : State D) : Prop :=
  ∃ r ∈ s.identities.rows, r.id = v.identityID ∧ r.identity.providerID = v.providerID ∧ r.identity.kind = v.kind

theorem Known.mono (h : Grows s t) (hknown : Known v s) : Known v t := by
  obtain ⟨r, hr, hid, hprovider, hkind⟩ := hknown
  obtain ⟨r', hr', hid', hprovider', hkind'⟩ := h.rows r hr
  exact ⟨r', hr', hid'.trans hid, hprovider'.trans hprovider, hkind'.trans hkind⟩

/-- An agent of the owner of an identity. -/
def SameOwner (identityID agentID : String) (s : State D) : Prop :=
  ∃ r ∈ s.identities.rows, r.id = identityID ∧ ∃ a ∈ s.agents, a.agentID = agentID ∧ a.ownerID = r.identity.providerID

theorem SameOwner.mono (h : Grows s t) (howner : SameOwner identityID agentID s) :
    SameOwner identityID agentID t := by
  obtain ⟨r, hr, hid, a, ha, hagent, hsame⟩ := howner
  obtain ⟨r', hr', hid', hprovider, _⟩ := h.rows r hr
  obtain ⟨b, hb, hagent', hsame'⟩ := h.agents a ha
  exact ⟨r', hr', hid'.trans hid, b, hb, hagent'.trans hagent, hsame'.trans (hsame.trans hprovider.symm)⟩

/-- How the kid of a proof selects a key of an identity and the method that is sealed for it: from a document that the
resolver returned for the identifier, or from the identifier itself. -/
inductive Selects (identity : VerifiedIdentity) (kid : String) (pub : D.Key) (method : Json) (s : State D) : Prop where
  | document {doc : DIDDocument} (kind : identity.kind = .didWeb) (resolved : (identity.effectiveValue, doc) ∈ s.resolved)
      (id : doc.id = identity.effectiveValue)
      (key : selectDocumentKey D doc identity.effectiveValue kid = .ok (pub, method))
  | identifier (kind : identity.kind = .didKey) (key : decodeDIDKey D identity.effectiveValue = .ok (pub, kid))
      (sealed : method = didKeyMethod identity.effectiveValue kid)

/-- A sealed key that is proven: the signature has the signing input of the identity and the nonce as its payload, and it
verifies under the key that its kid selects. -/
def KeyProven (identity : VerifiedIdentity) (nonce : String) (key : ProvenKey) (s : State D) : Prop :=
  ∃ header payload pub method, decodeStandardJWS D key.signedProof = .ok (header, payload) ∧
    (identity.proofInput D nonce).signingInput D = .ok payload ∧ D.verifyJWS pub key.signedProof = .ok () ∧
    Selects identity header.kid pub method s ∧ key.verificationMethod = some method

theorem KeyProven.mono {identity : VerifiedIdentity} {nonce : String} {key : ProvenKey} (h : Grows s t)
    (hproven : KeyProven identity nonce key s) : KeyProven identity nonce key t := by
  obtain ⟨header, payload, pub, method, hdecode, hpayload, hverify, hselects, hmethod⟩ := hproven
  refine ⟨header, payload, pub, method, hdecode, hpayload, hverify, ?_, hmethod⟩
  cases hselects with
  | document kind resolved id key => exact .document kind (h.resolved resolved) id key
  | identifier kind key sealed => exact .identifier kind key sealed

/-- The challenge that an attempt answers, with the identity as it was loaded. -/
def Attempt.issue (a : Attempt) : Issue :=
  ⟨a.challenge.nonce, a.loaded.identityID, a.loaded.status, a.loaded.value, a.loaded.pendingValue⟩

/-- What `VerifyControl` has made sure of before it claims the challenge. -/
structure Attempt.Sound (a : Attempt) (s : State D) : Prop where
  known : Known a.loaded s
  issued : a.issue ∈ s.issued
  completed : ∃ previousValue, a.loaded.completeVerification = .ok (a.verified, previousValue)
  now : a.now ≤ s.latest
  keys : a.loaded.kind ≠ .lei → ∀ key ∈ a.keys, KeyProven a.loaded a.challenge.nonce key s

theorem Attempt.Sound.mono {a : Attempt} (h : Grows s t) (hsound : a.Sound s) : a.Sound t where
  known := hsound.known.mono h
  issued := h.issued hsound.issued
  completed := hsound.completed
  now := hsound.now.trans h.latest
  keys := fun hkind key hkey => (hsound.keys hkind key hkey).mono h

/-! ### The invariant -/

structure RowSound (r : Row) (s : State D) : Prop where
  proven : r.status = .verified → Proven s.log r.id r.identity.kind r.identity.value
  revoked : r.status = .revoked → RevokedIn s.log r.id ∧ r.identity.challenge = none
  issued : ∀ i, r.issue? = some i → i ∈ s.issued

theorem RowSound.mono {r : Row} (h : Grows s t) (hsound : RowSound r s) : RowSound r t where
  proven := fun hstatus => (hsound.proven hstatus).mono h.log
  revoked := fun hstatus => ⟨(hsound.revoked hstatus).1.mono h.log, (hsound.revoked hstatus).2⟩
  issued := fun i hi => h.issued (hsound.issued i hi)

/-- A claim on the row does not matter to it. -/
theorem RowSound.congr {r r' : Row} (h : r'.identity = r.identity) (hsound : RowSound r s) : RowSound r' s := by
  obtain ⟨v, claimedAt⟩ := r
  obtain ⟨v', claimedAt'⟩ := r'
  cases h
  exact ⟨hsound.proven, hsound.revoked, hsound.issued⟩

/-- A live link has its event in the log, and joins an identity and an agent of one owner. -/
def LinkSound (l : IdentityLink) (s : State D) : Prop :=
  l.status = .linked → LinkedIn s.log l.identityID l.agentID ∧ SameOwner l.identityID l.agentID s

theorem LinkSound.mono {l : IdentityLink} (h : Grows s t) (hsound : LinkSound l s) : LinkSound l t := fun hlinked =>
  ⟨(hsound hlinked).1.mono h.log, (hsound hlinked).2.mono h⟩

/-- A committed proof was sound, and the row it was written over had its challenge open. -/
structure Commit.Sound (c : Commit) (s : State D) : Prop where
  attempt : c.attempt.Sound s
  kind : c.current.kind = c.attempt.loaded.kind
  current : ∃ i ∈ s.issued, (⟨c.current, none⟩ : Row).issue? = some i ∧ i.nonce = c.attempt.challenge.nonce ∧
    i.identityID = c.attempt.loaded.identityID

theorem Commit.Sound.mono {c : Commit} (h : Grows s t) (hsound : c.Sound s) : c.Sound t where
  attempt := hsound.attempt.mono h
  kind := hsound.kind
  current := by
    obtain ⟨i, hi, hfacts⟩ := hsound.current
    exact ⟨i, h.issued hi, hfacts⟩

structure Inv (s : State D) : Prop where
  rows : ∀ r ∈ s.identities.rows, RowSound r s
  links : ∀ l ∈ s.links.rows, LinkSound l s
  commits : ∀ c ∈ s.commits, c.Sound s

/-- The invariant is kept where the state grows and what is new is sound. -/
theorem Inv.of_grows (hinv : Inv s) (h : Grows s t)
    (hrows : ∀ r ∈ t.identities.rows, r ∈ s.identities.rows ∨ RowSound r t)
    (hlinks : ∀ l ∈ t.links.rows, l ∈ s.links.rows ∨ LinkSound l t)
    (hcommits : ∀ c ∈ t.commits, c ∈ s.commits ∨ c.Sound t) : Inv t where
  rows := fun r hr => (hrows r hr).elim (fun hold => (hinv.rows r hold).mono h) id
  links := fun l hl => (hlinks l hl).elim (fun hold => (hinv.links l hold).mono h) id
  commits := fun c hc => (hcommits c hc).elim (fun hold => (hinv.commits c hold).mono h) id

/-! ### What a call requires -/

/-- What the program that makes a call has made sure of. -/
def Pre : Call → State D → Prop
  | .insert v, _ => v.status = .pendingControl
  | .stageChallenge _ expectedStatus _ _, _ => expectedStatus ≠ .revoked
  | .claimChallenge claim, s => claim.now ≤ s.latest ∧
      ∃ i ∈ s.issued, i.nonce = claim.nonce ∧ i.identityID = claim.identityID
  | .commitVerification a, s => a.Sound s ∧ Proven s.log a.loaded.identityID a.loaded.kind a.verified.value
  | .markRevoked identityID, s => RevokedIn s.log identityID
  | .commitLinks identityID agentIDs _, s =>
    ∀ agentID ∈ agentIDs, LinkedIn s.log identityID agentID ∧ SameOwner identityID agentID s
  | _, _ => True

/-! ### Every call keeps the invariant -/

/-- A call that only touches what no invariant is about, or adds to what has happened. -/
theorem inv_of_same (hinv : Inv s) (h : Grows s t) (hrows : t.identities = s.identities) (hlinks : t.links = s.links)
    (hcommits : t.commits = s.commits) : Inv t ∧ Grows s t := by
  refine ⟨hinv.of_grows h ?_ ?_ ?_, h⟩
  · rw [hrows]
    exact fun r hr => .inl hr
  · rw [hlinks]
    exact fun l hl => .inl hl
  · rw [hcommits]
    exact fun c hc => .inl hc

/-- A row is changed, or a challenge is issued to it. -/
theorem inv_of_rows (hinv : Inv s) (h : Grows s t) (hrows : ∀ r ∈ t.identities.rows, r ∈ s.identities.rows ∨ RowSound r t)
    (hlinks : t.links = s.links) (hcommits : t.commits = s.commits) : Inv t ∧ Grows s t := by
  refine ⟨hinv.of_grows h hrows ?_ ?_, h⟩
  · rw [hlinks]
    exact fun l hl => .inl hl
  · rw [hcommits]
    exact fun c hc => .inl hc

theorem keeps_insert (hinv : Inv s) (hstatus : v.status = .pendingControl)
    (h : s.insert v = .ok t) : Inv t ∧ Grows s t := by
  obtain ⟨_, identities, hrows, rfl⟩ := State.insert_ok h
  have hgrows : Grows s (s.issue identities v.identityID) := { Grows.refl s with
    rows := fun r hr => ⟨r, by
      change r ∈ identities.rows
      rw [hrows]
      exact mem_append_left _ hr, rfl, rfl, rfl⟩
    issued := subset_append_left _ _ }
  refine inv_of_rows hinv hgrows ?_ rfl rfl
  intro r hr
  change r ∈ identities.rows at hr
  have hmem := hr
  rw [hrows] at hr
  rcases mem_append.mp hr with hold | hnew
  · exact .inl hold
  · rw [mem_singleton] at hnew
    right
    refine ⟨fun hverified => ?_, fun hrevoked => ?_, ?_⟩
    · subst hnew
      cases hstatus.symm.trans hverified
    · subst hnew
      cases hstatus.symm.trans hrevoked
    · intro i hi
      apply mem_append_right
      rw [rowByID_eq_some_iff.mpr ⟨hmem, by rw [hnew]⟩]
      simp [hi]

theorem keeps_stageChallenge {expectedStatus : IdentityStatus} {expectedNonce : String}
    {staleBefore : Time} (hinv : Inv s) (hpre : expectedStatus ≠ .revoked)
    (h : s.stageChallenge v expectedStatus expectedNonce staleBefore = .ok t) : Inv t ∧ Grows s t := by
  obtain ⟨r, hr, hid, hstatus, identities, hrows, rfl⟩ := State.stageChallenge_ok h
  have hgrows : Grows s (s.issue identities v.identityID) := { Grows.refl s with
    rows := by
      change ∀ r ∈ s.identities.rows, ∃ r' ∈ identities.rows, _
      rw [hrows]
      exact Grows.rows_setRow fun _ => ⟨rfl, rfl, rfl⟩
    issued := subset_append_left _ _ }
  refine inv_of_rows hinv hgrows ?_ rfl rfl
  intro r' hr'
  change r' ∈ identities.rows at hr'
  have hmem := hr'
  rw [hrows] at hr'
  rcases mem_setRow.mp hr' with ⟨old, hold, holdID, rfl⟩ | ⟨hold, _⟩
  · right
    obtain rfl := eq_of_id_eq hold hr (holdID.trans hid.symm)
    refine ⟨fun hverified => ((hinv.rows old hold).proven hverified).mono hgrows.log, fun hrevoked => ?_, ?_⟩
    · exact absurd (hstatus.symm.trans hrevoked) hpre
    · intro i hi
      apply mem_append_right
      rw [rowByID_eq_some_iff.mpr ⟨hmem, holdID⟩]
      simp [hi]
  · exact .inl hold

/-- A change of a claim alone. -/
theorem keeps_claims {change : Row → Row} {identities : Identities} (hinv : Inv s)
    (hchange : ∀ r, (change r).identity = r.identity)
    (hrows : identities.rows = setRow identityID change s.identities.rows) :
    Inv { s with identities } ∧ Grows s { s with identities } := by
  have hgrows : Grows s { s with identities } := { Grows.refl s with
    rows := by
      change ∀ r ∈ s.identities.rows, ∃ r' ∈ identities.rows, _
      rw [hrows]
      exact Grows.rows_setRow fun r => by simp [Row.id, hchange r] }
  refine inv_of_rows hinv hgrows ?_ rfl rfl
  intro r' hr'
  change r' ∈ identities.rows at hr'
  rw [hrows] at hr'
  rcases mem_setRow.mp hr' with ⟨old, hold, _, rfl⟩ | ⟨hold, _⟩
  · exact .inr (((hinv.rows old hold).mono hgrows).congr (hchange old))
  · exact .inl hold

theorem keeps_commitVerification {a : Attempt} (hinv : Inv s) (hsound : a.Sound s)
    (hproven : Proven s.log a.loaded.identityID a.loaded.kind a.verified.value)
    (h : s.commitVerification a = .ok t) : Inv t ∧ Grows s t := by
  obtain ⟨previousValue, hcompleted⟩ := hsound.completed
  obtain ⟨_, hverified, hid, _, hkind, _⟩ := VerifiedIdentity.completeVerification_ok hcompleted
  obtain ⟨r, hr, hrid, hopen, _, identities, hrows, rfl⟩ := State.commitVerification_ok hid h
  obtain ⟨known, hknown, hknownID, _, hknownKind⟩ := hsound.known
  rw [eq_of_id_eq hknown hr (hknownID.trans hrid.symm)] at hknownKind
  have hgrows : Grows s { s with identities, commits := s.commits ++ [⟨a, r.identity⟩] } := { Grows.refl s with
    rows := by
      change ∀ r ∈ s.identities.rows, ∃ r' ∈ identities.rows, _
      rw [hrows]
      exact Grows.rows_setRow fun _ => ⟨rfl, rfl, rfl⟩ }
  refine ⟨hinv.of_grows hgrows ?_ (fun l hl => .inl hl) ?_, hgrows⟩
  · intro r' hr'
    change r' ∈ identities.rows at hr'
    rw [hrows] at hr'
    rcases mem_setRow.mp hr' with ⟨old, hold, holdID, rfl⟩ | ⟨hold, _⟩
    · right
      rw [eq_of_id_eq hold hr (holdID.trans hrid.symm)]
      refine ⟨fun _ => ?_, fun hrevoked => ?_, ?_⟩
      · change Proven s.log r.identity.identityID r.identity.kind a.verified.value
        rw [hknownKind, show r.identity.identityID = a.loaded.identityID from hrid]
        exact hproven
      · change a.verified.status = .revoked at hrevoked
        cases hverified.symm.trans hrevoked
      · intro i hi
        rw [Row.issue?_eq_some_iff, Row.openNonce_overwrite_committed] at hi
        cases hi.1
    · exact .inl hold
  · intro c hc
    rcases mem_append.mp hc with hold | hnew
    · exact .inl hold
    · rw [mem_singleton] at hnew
      subst hnew
      right
      have hissue : (⟨r.identity, none⟩ : Row).issue? = r.issue? := rfl
      have hsome : r.issue? = some ⟨a.claim.nonce, r.id, r.status, r.identity.value, r.identity.pendingValue⟩ := by
        rw [Row.issue?_eq_some_iff]
        exact ⟨hopen, rfl⟩
      exact ⟨hsound.mono hgrows, hknownKind, _, (hinv.rows r hr).issued _ hsome, hissue.trans hsome, rfl, hrid⟩

theorem keeps_markRevoked {identities : Identities} (hinv : Inv s) (hlog : RevokedIn s.log identityID)
    (hrows : identities.rows = setRow identityID Row.markRevoked s.identities.rows) :
    Inv { s with identities } ∧ Grows s { s with identities } := by
  have hgrows : Grows s { s with identities } := { Grows.refl s with
    rows := by
      change ∀ r ∈ s.identities.rows, ∃ r' ∈ identities.rows, _
      rw [hrows]
      exact Grows.rows_setRow fun _ => ⟨rfl, rfl, rfl⟩ }
  refine inv_of_rows hinv hgrows ?_ rfl rfl
  intro r' hr'
  change r' ∈ identities.rows at hr'
  rw [hrows] at hr'
  rcases mem_setRow.mp hr' with ⟨old, hold, holdID, rfl⟩ | ⟨hold, _⟩
  · right
    refine ⟨fun hverified => ?_, fun _ => ⟨?_, rfl⟩, ?_⟩
    · cases hverified
    · change RevokedIn s.log old.id
      rw [holdID]
      exact hlog
    · intro i hi
      cases hi
  · exact .inl hold

theorem keeps_commitLinks {agentIDs : List String} {now : Time} (hinv : Inv s)
    (hpre : ∀ agentID ∈ agentIDs, LinkedIn s.log identityID agentID ∧ SameOwner identityID agentID s)
    (h : s.commitLinks identityID agentIDs now = .ok t) : Inv t ∧ Grows s t := by
  obtain ⟨_, links, hlinks, rfl⟩ := State.commitLinks_ok h
  obtain ⟨_, hnew, _⟩ := State.linkEach_ok hlinks
  have hgrows : Grows s { s with links } := { Grows.refl s with }
  refine ⟨hinv.of_grows hgrows (fun r hr => .inl hr) ?_ (fun c hc => .inl hc), hgrows⟩
  intro l hl
  rcases hnew l hl with hold | ⟨hid, hmem⟩
  · exact .inl hold
  · right
    intro _
    rw [hid]
    exact hpre l.agentID hmem

theorem keeps_commitUnlink (hinv : Inv s)
    (h : s.commitUnlink identityID agentID = .ok t) : Inv t ∧ Grows s t := by
  obtain ⟨links, hrows, rfl⟩ := State.commitUnlink_ok h
  have hgrows : Grows s { s with links } := { Grows.refl s with }
  refine ⟨hinv.of_grows hgrows (fun r hr => .inl hr) ?_ (fun c hc => .inl hc), hgrows⟩
  intro l hl
  change l ∈ links.rows at hl
  rw [hrows, mem_map] at hl
  obtain ⟨old, hold, rfl⟩ := hl
  unfold Links.endRow
  split
  · exact .inr nofun
  · exact .inl hold

theorem grows_setAgent (a : AgentRecord) : Grows s (s.setAgent a) := by
  unfold State.setAgent
  split
  · exact { Grows.refl s with agents := fun b hb => ⟨b, mem_append_left _ hb, rfl, rfl⟩ }
  · refine { Grows.refl s with agents := ?_ }
    intro b hb
    refine ⟨_, mem_map_of_mem hb, ?_⟩
    split <;> exact ⟨rfl, rfl⟩

theorem grows_seal {log : List (Leaf D)} {body : Json} (h : appendEvent D s.log body = .ok log) : Grows s { s with log } := by
  refine { Grows.refl s with log := ?_ }
  simp only [appendEvent, bind_eq_ok_iff, pure_eq_ok_iff] at h
  obtain ⟨_, _, leaf, _, rfl⟩ := h
  change s.log ⊆ if _ then _ else _
  split
  · exact Subset.refl _
  · exact subset_append_left _ _

theorem keeps (c : Call) (input : Ambient) (r : c.Reply) (hinv : Inv s) (hpre : Pre c s)
    (h : c.exec input s = .ok (r, t)) : Inv t ∧ Grows s t := by
  cases c with
  | clock =>
    cases h
    exact inv_of_same hinv { Grows.refl s with latest := Nat.le_max_left _ _ } rfl rfl rfl
  | allow budget owner now =>
    cases budget with
    | register | link =>
      cases h
      exact inv_of_same hinv { Grows.refl s with } rfl rfl rfl
  | findByID | findLive =>
    obtain ⟨_, _, heq⟩ := map_eq_ok_iff.mp h
    cases heq
    exact ⟨hinv, Grows.refl s⟩
  | existsVerified | listLiveByIdentity =>
    cases h
    exact ⟨hinv, Grows.refl s⟩
  | findByAgentID agentID =>
    simp only [Call.exec] at h
    split at h <;> cases h
    exact ⟨hinv, Grows.refl s⟩
  | resolve did hints =>
    obtain ⟨_, _, heq⟩ := map_eq_ok_iff.mp h
    cases heq
    exact inv_of_same hinv { Grows.refl s with resolved := subset_append_left _ _ } rfl rfl rfl
  | insert v =>
    obtain ⟨_, hinsert, heq⟩ := map_eq_ok_iff.mp h
    cases heq
    exact keeps_insert hinv hpre hinsert
  | stageChallenge v expectedStatus expectedNonce staleBefore =>
    obtain ⟨_, hstage, heq⟩ := map_eq_ok_iff.mp h
    cases heq
    exact keeps_stageChallenge hinv hpre hstage
  | claimChallenge claim =>
    obtain ⟨_, _, _, _, _, identities, hrows, rfl⟩ := claimChallenge_ok h
    have hchange (r : Row) : ({ r with claimedAt := some claim.now } : Row).identity = r.identity := rfl
    exact keeps_claims hinv hchange hrows
  | sealEvent body =>
    obtain ⟨log, hseal, heq⟩ := map_eq_ok_iff.mp h
    cases heq
    exact inv_of_same hinv (grows_seal (mapError_eq_ok_iff.mp hseal)) rfl rfl rfl
  | commitVerification a =>
    obtain ⟨_, hcommit, heq⟩ := map_eq_ok_iff.mp h
    cases heq
    exact keeps_commitVerification hinv hpre.1 hpre.2 hcommit
  | releaseChallenge claim =>
    obtain ⟨identities, hrows, rfl⟩ := releaseChallenge_ok h
    refine keeps_claims hinv (fun r => ?_) hrows
    split <;> rfl
  | markRevoked identityID =>
    obtain ⟨_, _, _, _, identities, hrows, rfl⟩ := markRevoked_ok h
    exact keeps_markRevoked hinv hpre hrows
  | commitLinks identityID agentIDs now =>
    obtain ⟨_, hcommit, heq⟩ := map_eq_ok_iff.mp h
    cases heq
    exact keeps_commitLinks hinv hpre hcommit
  | commitUnlink identityID agentID =>
    obtain ⟨_, hcommit, heq⟩ := map_eq_ok_iff.mp h
    cases heq
    exact keeps_commitUnlink hinv hcommit
  | setAgent a =>
    cases h
    refine inv_of_same hinv (grows_setAgent a) ?_ ?_ ?_ <;> (unfold State.setAgent; split <;> rfl)
  | restart =>
    cases h
    exact inv_of_same hinv { Grows.refl s with } rfl rfl rfl

/-- Every call keeps the invariant and what is known; other calls do the same to it. -/
def discipline (D : Deployment) : Interleaving.Discipline (RA D) where
  Inv := Inv
  Rely := Grows
  Grows := Grows
  Pre := Pre
  refl := Grows.refl
  trans := fun _ _ _ => Grows.trans
  grows := fun _ _ h => h
  grows_trans := fun _ _ _ => Grows.trans
  keeps := fun c input _ r _ => keeps c input r

theorem inv_init : Inv (State.init D) where
  rows := forall_mem_nil _
  links := forall_mem_nil _
  commits := forall_mem_nil _

end AgentNameService.Identity
