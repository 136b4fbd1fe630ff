/-
Purpose: What fresh nonces give.  A nonce stands for one challenge of one identity in one state, it is consumed at most once,
  a committed proof answers the challenge that is open when it commits, and no signature is part of two commits.
Source: internal/ra/service/{identity,identitykinds}.go, internal/adapter/store/sqlite/identity.go
Trusted boundary: none
-/
import AgentNameService.Identity.Sealed

namespace AgentNameService.Identity

open Interleaving List Except Identities Json Registration TransparencyLog.Identity

variable {D : Deployment} {s t : State D} {identities : Identities} {r : Row} {c : Commit}

/-! ### What a step writes to the identities -/

def Call.WritesRows : Call → Prop
  | .insert _ | .stageChallenge .. | .claimChallenge _ | .commitVerification _ | .releaseChallenge _ | .markRevoked _ => True
  | _ => False

/-- What a step has done to the identities, the challenges that were issued and the proofs that were committed. -/
inductive Written (s : State D) : Call → State D → Prop
  | elsewhere {c t : _} (hcall : ¬ c.WritesRows) (hidentities : t.identities = s.identities) (hissued : t.issued = s.issued)
      (hcommits : t.commits = s.commits) : Written s c t
  | inserted {v identities : _} (hnew : s.identities.rowByID v.identityID = none)
      (hrows : identities.rows = s.identities.rows ++ [⟨v, none⟩]) : Written s (.insert v) (s.issue identities v.identityID)
  | staged {v expectedStatus expectedNonce staleBefore r identities : _} (hr : r ∈ s.identities.rows) (hid : r.id = v.identityID)
      (hstatus : r.status = expectedStatus) (hrows : identities.rows = setRow v.identityID (Row.stage v) s.identities.rows) :
      Written s (.stageChallenge v expectedStatus expectedNonce staleBefore) (s.issue identities v.identityID)
  | claimed {claim r identities : _} (hr : r ∈ s.identities.rows) (hid : r.id = claim.identityID)
      (hopen : r.openNonce = some claim.nonce) (hstale : r.claimedBefore (claim.now - sealClaimTTL) = true)
      (hrows : identities.rows = setRow claim.identityID (fun r => { r with claimedAt := some claim.now }) s.identities.rows) :
      Written s (.claimChallenge claim) { s with identities  : _}
  | committed {a r identities : _} (hr : r ∈ s.identities.rows) (hid : r.id = a.claim.identityID)
      (hopen : r.openNonce = some a.claim.nonce)
      (hrows : identities.rows = setRow a.claim.identityID (Row.overwrite a.committed) s.identities.rows) :
      Written s (.commitVerification a) { s with identities, commits := s.commits ++ [⟨a, r.identity⟩] }
  | released {claim identities : _} (hrows : identities.rows = setRow claim.identityID
      (fun r => if r.openNonce = some claim.nonce then { r with claimedAt := none } else r) s.identities.rows) :
      Written s (.releaseChallenge claim) { s with identities  : _}
  | revoked {identityID r identities : _} (hr : r ∈ s.identities.rows) (hid : r.id = identityID) (hstatus : r.status = .verified)
      (hrows : identities.rows = setRow identityID Row.markRevoked s.identities.rows) :
      Written s (.markRevoked identityID) { s with identities  : _}

theorem Attempt.Sound.verified_identityID {a : Attempt} (h : a.Sound s) : a.verified.identityID = a.loaded.identityID := by
  obtain ⟨_, hcompleted⟩ := h.completed
  exact (VerifiedIdentity.completeVerification_ok hcompleted).2.2.1

theorem exec_written {c : Call} {input : Ambient} {r : c.Reply} (hpre : Pre c s) (h : c.exec input s = .ok (r, t)) :
    Written s c t := by
  cases c with
  | clock | existsVerified | listLiveByIdentity | restart =>
    cases h
    exact .elsewhere id rfl rfl rfl
  | allow budget owner now =>
    cases budget with
    | register | link =>
      cases h
      exact .elsewhere id rfl rfl rfl
  | findByID | findLive | resolve | sealEvent =>
    obtain ⟨_, _, heq⟩ := map_eq_ok_iff.mp h
    cases heq
    exact .elsewhere id rfl rfl rfl
  | findByAgentID agentID =>
    simp only [Call.exec] at h
    split at h <;> cases h
    exact .elsewhere id rfl rfl rfl
  | insert v =>
    obtain ⟨_, hinsert, heq⟩ := map_eq_ok_iff.mp h
    cases heq
    obtain ⟨hnew, identities, hrows, rfl⟩ := State.insert_ok hinsert
    exact .inserted hnew hrows
  | stageChallenge v expectedStatus expectedNonce staleBefore =>
    obtain ⟨_, hstage, heq⟩ := map_eq_ok_iff.mp h
    cases heq
    obtain ⟨r, hr, hid, hstatus, identities, hrows, rfl⟩ := State.stageChallenge_ok hstage
    exact .staged hr hid hstatus hrows
  | claimChallenge claim =>
    obtain ⟨r, hr, hid, hopen, hstale, identities, hrows, rfl⟩ := claimChallenge_ok h
    exact .claimed hr hid hopen hstale hrows
  | commitVerification a =>
    obtain ⟨_, hcommit, heq⟩ := map_eq_ok_iff.mp h
    cases heq
    obtain ⟨r, hr, hid, hopen, _, identities, hrows, rfl⟩ :=
      State.commitVerification_ok hpre.1.verified_identityID hcommit
    exact .committed hr hid hopen hrows
  | releaseChallenge claim =>
    obtain ⟨identities, hrows, rfl⟩ := releaseChallenge_ok h
    exact .released hrows
  | markRevoked identityID =>
    obtain ⟨r, hr, hid, hstatus, identities, hrows, rfl⟩ := markRevoked_ok h
    exact .revoked hr hid hstatus hrows
  | commitLinks identityID agentIDs now =>
    obtain ⟨_, hcommit, heq⟩ := map_eq_ok_iff.mp h
    cases heq
    obtain ⟨_, links, _, rfl⟩ := State.commitLinks_ok hcommit
    exact .elsewhere id rfl rfl rfl
  | commitUnlink identityID agentID =>
    obtain ⟨_, hcommit, heq⟩ := map_eq_ok_iff.mp h
    cases heq
    obtain ⟨links, _, rfl⟩ := State.commitUnlink_ok hcommit
    exact .elsewhere id rfl rfl rfl
  | setAgent a =>
    cases h
    refine .elsewhere id ?_ ?_ ?_ <;> (unfold State.setAgent; split <;> rfl)

/-! ### Fresh nonces -/

/-- A nonce that is written to a row was not written before. -/
def FreshNonce : Call → State D → Prop
  | .insert v, s | .stageChallenge v _ _ _, s =>
    ∀ i ∈ s.issued, v.challenge.map IdentityChallenge.nonce ≠ some i.nonce
  | _, _ => True

instance (c : Call) (s : State D) : Decidable (FreshNonce c s) := by
  cases c <;> unfold FreshNonce <;> infer_instance

abbrev Commit.nonce (c : Commit) : String := c.attempt.challenge.nonce

structure NoncesSound (s : State D) : Prop where
  issued : (s.issued.map Issue.nonce).Nodup
  spent : (s.commits.map Commit.nonce).Nodup
  unspent : ∀ r ∈ s.identities.rows, ∀ nonce, r.openNonce = some nonce → nonce ∉ s.commits.map Commit.nonce

/-- One nonce, one challenge. -/
theorem NoncesSound.eq_of_nonce_eq (h : NoncesSound s) {i j : Issue} (hi : i ∈ s.issued) (hj : j ∈ s.issued)
    (hnonce : i.nonce = j.nonce) : i = j :=
  inj_on_of_nodup_map h.issued hi hj hnonce

theorem Row.issue?_of_openNonce {nonce : String} (h : r.openNonce = some nonce) :
    r.issue? = some ⟨nonce, r.id, r.status, r.identity.value, r.identity.pendingValue⟩ :=
  Row.issue?_eq_some_iff.mpr ⟨h, rfl⟩

/-- An open nonce belongs to one row. -/
theorem NoncesSound.eq_of_openNonce (h : NoncesSound s) (hinv : Inv s) {r' : Row} {nonce : String}
    (hr : r ∈ s.identities.rows) (hr' : r' ∈ s.identities.rows) (hopen : r.openNonce = some nonce)
    (hopen' : r'.openNonce = some nonce) : r = r' := by
  have hi := (hinv.rows r hr).issued _ (Row.issue?_of_openNonce hopen)
  have hi' := (hinv.rows r' hr').issued _ (Row.issue?_of_openNonce hopen')
  have hsame := h.eq_of_nonce_eq hi hi' rfl
  exact eq_of_id_eq hr hr' (congrArg Issue.identityID hsame)

theorem State.issued_issue (hr : r ∈ identities.rows) :
    (s.issue identities r.id).issued = s.issued ++ r.issue?.toList := by
  unfold issue
  rw [rowByID_eq_some_iff.mpr ⟨hr, rfl⟩]
  rfl

/-- A row with a fresh nonce is written, and the open nonces of the other rows are as before. -/
theorem NoncesSound.issue (h : NoncesSound s) (hinv : Inv s) (hr : r ∈ identities.rows)
    (hfresh : ∀ nonce, r.openNonce = some nonce → ∀ i ∈ s.issued, i.nonce ≠ nonce)
    (hold : ∀ r' ∈ identities.rows, r' = r ∨ r' ∈ s.identities.rows) : NoncesSound (s.issue identities r.id) where
  issued := by
    rw [State.issued_issue hr]
    cases hissue : r.issue? with
    | none => simpa using h.issued
    | some i =>
      have hopen := (Row.issue?_eq_some_iff.mp hissue).1
      simp only [Option.toList_some, map_append, map_cons, map_nil]
      rw [nodup_append]
      refine ⟨h.issued, nodup_singleton _, ?_⟩
      intro nonce hmem nonce' hmem'
      obtain ⟨j, hj, rfl⟩ := mem_map.mp hmem
      rw [mem_singleton] at hmem'
      rw [hmem']
      exact hfresh i.nonce hopen j hj
  spent := h.spent
  unspent := by
    intro r' hr' nonce hopen hspent
    rcases hold r' hr' with rfl | hr'
    · obtain ⟨c, hc, hsame⟩ := mem_map.mp hspent
      exact hfresh nonce hopen _ (hinv.commits c hc).attempt.issued hsame
    · exact h.unspent r' hr' nonce hopen hspent

/-- The rows change in their claims only, or lose their challenge. -/
theorem NoncesSound.of_rows (h : NoncesSound s)
    (hold : ∀ r' ∈ identities.rows, r'.openNonce = none ∨ ∃ r ∈ s.identities.rows, r'.openNonce = r.openNonce) :
    NoncesSound { s with identities } where
  issued := h.issued
  spent := h.spent
  unspent := by
    intro r' hr' nonce hopen
    rcases hold r' hr' with hnone | ⟨r, hr, hsame⟩
    · rw [hnone] at hopen
      cases hopen
    · exact h.unspent r hr nonce (hsame.symm.trans hopen)

theorem NoncesSound.commit (h : NoncesSound s) (hinv : Inv s) {a : Attempt}
    (hr : r ∈ s.identities.rows) (hid : r.id = a.claim.identityID) (hopen : r.openNonce = some a.claim.nonce)
    (hrows : identities.rows = setRow a.claim.identityID (Row.overwrite a.committed) s.identities.rows) :
    NoncesSound { s with identities, commits := s.commits ++ [⟨a, r.identity⟩] } where
  issued := h.issued
  spent := by
    change ((s.commits ++ [_]).map Commit.nonce).Nodup
    rw [map_append, nodup_append]
    refine ⟨h.spent, nodup_singleton _, ?_⟩
    intro nonce hmem nonce' hmem' hsame
    rw [map_singleton, mem_singleton] at hmem'
    rw [hsame, hmem'] at hmem
    exact h.unspent r hr _ hopen hmem
  unspent := by
    intro r' hr' nonce hopen'
    change r' ∈ identities.rows at hr'
    rw [hrows] at hr'
    rcases mem_setRow.mp hr' with ⟨old, _, _, rfl⟩ | ⟨hold, hother⟩
    · rw [Row.openNonce_overwrite_committed] at hopen'
      cases hopen'
    · change nonce ∉ (s.commits ++ [_]).map Commit.nonce
      rw [map_append, mem_append, map_singleton, mem_singleton]
      rintro (hspent | rfl)
      · exact h.unspent r' hold nonce hopen' hspent
      · exact hother ((congrArg Row.id (h.eq_of_openNonce hinv hold hr hopen' hopen)).trans hid)

theorem nonces_keep {c : Call} {input : Ambient} {reply : c.Reply} (hinv : Inv s) (hpre : Pre c s) (hfresh : FreshNonce c s)
    (h : NoncesSound s) (hexec : c.exec input s = .ok (reply, t)) : NoncesSound t := by
  have hclaims {identityID : String} {change : Row → Row} {identities : Identities}
      (hchange : ∀ r, (change r).openNonce = none ∨ (change r).openNonce = r.openNonce)
      (hrows : identities.rows = setRow identityID change s.identities.rows) : NoncesSound { s with identities } := by
    apply h.of_rows
    intro r' hr'
    rw [hrows] at hr'
    rcases mem_setRow.mp hr' with ⟨old, hold, _, rfl⟩ | ⟨hold, _⟩
    · exact (hchange old).imp_right fun hsame => ⟨old, hold, hsame⟩
    · exact .inr ⟨r', hold, rfl⟩
  cases exec_written hpre hexec with
  | elsewhere _ hidentities hissued hcommits =>
    refine ⟨?_, ?_, ?_⟩
    · rw [hissued]
      exact h.issued
    · rw [hcommits]
      exact h.spent
    · rw [hidentities, hcommits]
      exact h.unspent
  | @inserted v identities _ hrows =>
    refine h.issue (r := ⟨v, none⟩) hinv ?_ ?_ ?_
    · rw [hrows]
      exact mem_append_right _ (mem_singleton.mpr rfl)
    · intro nonce hopen i hi hsame
      obtain ⟨challenge, hchallenge, _, hnonce⟩ := Row.openNonce_eq_some_iff.mp hopen
      apply hfresh i hi
      change v.challenge = some challenge at hchallenge
      rw [hchallenge, hsame, ← hnonce]
      rfl
    · intro r' hr'
      rw [hrows, mem_append, mem_singleton] at hr'
      exact hr'.symm
  | @staged v _ _ _ r identities hr hid _ hrows =>
    have hmem : Row.stage v r ∈ identities.rows := by
      rw [hrows]
      exact mem_setRow.mpr (.inl ⟨r, hr, hid, rfl⟩)
    have hstaged : (Row.stage v r).id = v.identityID := hid
    rw [← hstaged]
    refine h.issue hinv hmem ?_ ?_
    · intro nonce hopen i hi hsame
      obtain ⟨challenge, hchallenge, _, hnonce⟩ := Row.openNonce_eq_some_iff.mp hopen
      obtain ⟨challenge', hchallenge', rfl⟩ := Option.map_eq_some_iff.mp hchallenge
      apply hfresh i hi
      rw [hchallenge', hsame, ← hnonce]
      rfl
    · intro r' hr'
      rw [hrows] at hr'
      rcases mem_setRow.mp hr' with ⟨old, hold, holdID, rfl⟩ | ⟨hold, _⟩
      · rw [eq_of_id_eq hold hr (holdID.trans hid.symm)]
        exact .inl rfl
      · exact .inr hold
  | claimed _ _ _ _ hrows =>
    refine hclaims (fun r => .inr ?_) hrows
    rfl
  | committed hr hid hopen hrows => exact h.commit hinv hr hid hopen hrows
  | released hrows =>
    refine hclaims (fun r => .inr ?_) hrows
    split <;> rfl
  | revoked _ _ _ hrows => exact hclaims (fun r => .inl rfl) hrows

theorem nonces_sound {p : Pool (service D)} (h : Reachable (service D) FreshNonce p) : NoncesSound p.state := by
  apply (governs D).invariant ?_ ?_ h
  · exact ⟨nodup_nil, nodup_nil, forall_mem_nil _⟩
  · exact fun c input s r t hinv hpre hfresh hsound hexec => nonces_keep hinv hpre hfresh hsound hexec

/-! ### What a commit answers -/

/-- A proof that commits answers the open challenge of its identity, which is as it was loaded. -/
structure Commit.Answers (c : Commit) : Prop where
  identityID : c.current.identityID = c.attempt.loaded.identityID
  kind : c.current.kind = c.attempt.loaded.kind
  status : c.current.status = c.attempt.loaded.status
  value : c.current.value = c.attempt.loaded.value
  pendingValue : c.current.pendingValue = c.attempt.loaded.pendingValue
  nonce : (⟨c.current, none⟩ : Row).openNonce = some c.nonce

theorem commit_answers_current {p : Pool (service D)} (h : Reachable (service D) FreshNonce p) :
    ∀ c ∈ p.state.commits, c.Answers := by
  intro c hc
  have hsound := ((governs D).sound h).1.commits c hc
  obtain ⟨i, hi, hissue, hnonce, _⟩ := hsound.current
  obtain ⟨hopen, heq⟩ := Row.issue?_eq_some_iff.mp hissue
  have hsame : i = c.attempt.issue := (nonces_sound h).eq_of_nonce_eq hi hsound.attempt.issued hnonce
  rw [hsame] at heq
  exact ⟨(congrArg Issue.identityID heq).symm, hsound.kind, (congrArg Issue.status heq).symm,
    (congrArg Issue.value heq).symm, (congrArg Issue.pendingValue heq).symm, hopen.trans (congrArg some hnonce)⟩

theorem Commit.Answers.effectiveValue (h : c.Answers) :
    c.current.effectiveValue = c.attempt.loaded.effectiveValue := by
  unfold VerifiedIdentity.effectiveValue
  rw [h.value, h.pendingValue]

theorem Commit.Answers.proofInput (h : c.Answers) (nonce : String) :
    c.current.proofInput D nonce = c.attempt.loaded.proofInput D nonce := by
  unfold VerifiedIdentity.proofInput
  rw [h.effectiveValue, h.identityID, h.kind]

/-! ### Signatures -/

/-- The signatures of a commit; a vLEI holder signs in another form. -/
def Commit.signedProofs (c : Commit) : List String :=
  if c.current.kind = .lei then [] else c.attempt.keys.map ProvenKey.signedProof

/-- A key of a DID: one that its own document names for assertions and that no other DID controls, or the one it
encodes. -/
inductive KeyOf (did kid : String) (pub : D.Key) (s : State D) : Prop
  | document {doc : DIDDocument} {vm : VerificationMethod} (resolved : (did, doc) ∈ s.resolved) (id : doc.id = did)
      (method : doc.findAssertionMethod kid = some vm) (controller : vm.controller = "" ∨ vm.controller = did)
      (key : vm.key D = .ok pub)
  | identifier (key : decodeDIDKey D did = .ok (pub, kid))

theorem decodeDIDKey_kid {did kid : String} {pub : D.Key} (h : decodeDIDKey D did = .ok (pub, kid)) :
    (did ++ "#").toList <+: kid.toList := by
  unfold decodeDIDKey at h
  split at h
  · cases h
  · rename_i msid _
    simp only [bind_eq_ok_iff, pure_eq_ok_iff, Prod.mk.injEq] at h
    obtain ⟨_, _, _, _, _, rfl⟩ := h
    have hkid : (did ++ "#" ++ msid).toList = (did ++ "#").toList ++ msid.toList := String.toList_append
    rw [hkid]
    exact prefix_append _ _

/-- A selected key is one of the DID, and its kid is a fragment of it. -/
theorem Selects.keyOf {identity : VerifiedIdentity} {kid : String} {pub : D.Key} {method : Json}
    (h : Selects identity kid pub method s) : (identity.effectiveValue ++ "#").toList <+: kid.toList ∧
      KeyOf identity.effectiveValue kid pub s := by
  cases h with
  | document _ resolved id key =>
    obtain ⟨hinitial, vm, hfound, hcontroller, hkey, _⟩ := selectDocumentKey_eq_ok_iff.mp key
    exact ⟨ isPrefixOf_iff_prefix.mp hinitial, .document resolved id hfound hcontroller hkey⟩
  | identifier _ key _ => exact ⟨decodeDIDKey_kid key, .identifier key⟩

/-- A signature of a commit has the signing input of the identity and the challenge as its payload. -/
theorem payload_of_signedProof (hinv : Inv s) (hc : c ∈ s.commits) {jws : String} (hjws : jws ∈ c.signedProofs) :
    ∃ header payload, decodeStandardJWS D jws = .ok (header, payload) ∧
      (c.attempt.loaded.proofInput D c.nonce).signingInput D = .ok payload := by
  unfold Commit.signedProofs at hjws
  split at hjws
  · cases hjws
  · rename_i hkind
    obtain ⟨key, hkey, rfl⟩ := mem_map.mp hjws
    have hsound := hinv.commits c hc
    rw [hsound.kind] at hkind
    obtain ⟨header, payload, _, _, hdecode, hpayload, _⟩ := hsound.attempt.keys hkind key hkey
    exact ⟨header, payload, hdecode, hpayload⟩

/-- Where nonces are fresh and signing inputs tell their fields: no signature is part of two commits, and each signature
of a commit signs the identity's id, identifier, scheme, authority and open nonce, under a key of that identifier. -/
theorem signatures_not_replayed (hencoding : ∀ (a b : IdentityProofInput) (text : String),
      a.signingInput D = .ok text → b.signingInput D = .ok text → a = b)
    {p : Pool (service D)} (h : Reachable (service D) FreshNonce p) :
    (p.state.commits.Pairwise fun c d => ∀ jws ∈ c.signedProofs, jws ∉ d.signedProofs) ∧
    ∀ c ∈ p.state.commits, c.current.kind ≠ .lei → ∀ key ∈ c.attempt.keys, ∃ header payload pub nonce,
      decodeStandardJWS D key.signedProof = .ok (header, payload) ∧ (⟨c.current, none⟩ : Row).openNonce = some nonce ∧
      (c.current.proofInput D nonce).signingInput D = .ok payload ∧ D.verifyJWS pub key.signedProof = .ok () ∧
      (c.current.effectiveValue ++ "#").toList <+: header.kid.toList ∧
      KeyOf c.current.effectiveValue header.kid pub p.state := by
  have hinv : Inv p.state := ((governs D).sound h).1
  constructor
  · have hspent := pairwise_map.mp (nonces_sound h).spent
    apply hspent.imp_of_mem
    intro c d hc hd hne jws hjws hjws'
    obtain ⟨_, payload, hdecode, hpayload⟩ := payload_of_signedProof hinv hc hjws
    obtain ⟨_, payload', hdecode', hpayload'⟩ := payload_of_signedProof hinv hd hjws'
    rw [hdecode] at hdecode'
    cases hdecode'
    exact hne (congrArg IdentityProofInput.nonce (hencoding _ _ payload hpayload hpayload'))
  · intro c hc hkind key hkey
    have hanswers := commit_answers_current h c hc
    rw [hanswers.kind] at hkind
    obtain ⟨header, payload, pub, method, hdecode, hpayload, hverify, hselects, _⟩ :=
      (hinv.commits c hc).attempt.keys hkind key hkey
    refine ⟨header, payload, pub, c.nonce, hdecode, hanswers.nonce, ?_, hverify, ?_⟩
    · rw [hanswers.proofInput]
      exact hpayload
    · rw [hanswers.effectiveValue]
      exact hselects.keyOf

/-- The document that is signed is in canonical form. -/
theorem IdentityProofInput.signingInput_eq (input : IdentityProofInput) :
    input.signingInput D = .ok (D.base64url input.document) := by
  have hcanonical : canonicalize D.log.numbers input.document = .ok input.document := by
    rw [IdentityProofInput.document, canonicalize_object]
    constructor
    · rfl
    · apply congrArg object
      apply sortMembers_eq_self
      have hnames : ["identifier", "identityId", "nonce", "purpose", "raId", "scheme"].Pairwise
          fun a b => sortKey a ≤ sortKey b := by
        decide
      exact Pairwise.of_map Prod.fst (fun _ _ h => h) hnames
  unfold signingInput
  rw [hcanonical]
  rfl

namespace Sample

/-- A text whose end can be told from what follows it. -/
def enclosed (text : List Char) : List Char := text.flatMap (fun c => ['!', c]) ++ [',']

theorem enclosed_append_inj {a b x y : List Char} (h : enclosed a ++ x = enclosed b ++ y) : a = b ∧ x = y := by
  induction a generalizing b with
  | nil =>
    cases b with
    | nil => exact ⟨rfl, append_cancel_left h⟩
    | cons d b => cases h
  | cons c a ih =>
    cases b with
    | nil => cases h
    | cons d b =>
      change '!' :: c :: (enclosed a ++ x) = '!' :: d :: (enclosed b ++ y) at h
      simp only [cons.injEq, true_and] at h
      obtain ⟨rfl, hrest⟩ := h
      obtain ⟨rfl, hxy⟩ := ih hrest
      exact ⟨rfl, hxy⟩

/-- The text of a document is the values of its members. -/
def telling : Deployment := { deployment with
  base64url := fun
    | .object members => String.ofList (members.flatMap fun m => match m.2 with
        | .string text => enclosed text.toList
        | _ => [])
    | _ => "" }

theorem telling_encoding (a b : IdentityProofInput) (text : String) (ha : a.signingInput telling = .ok text)
    (hb : b.signingInput telling = .ok text) : a = b := by
  rw [IdentityProofInput.signingInput_eq] at ha hb
  have hsame := ok.inj (ha.trans hb.symm)
  have hchars := String.ofList_injective hsame
  simp only [flatMap_cons, flatMap_nil] at hchars
  obtain ⟨hidentifier, hchars⟩ := enclosed_append_inj hchars
  obtain ⟨hidentityID, hchars⟩ := enclosed_append_inj hchars
  obtain ⟨hnonce, hchars⟩ := enclosed_append_inj hchars
  obtain ⟨hpurpose, hchars⟩ := enclosed_append_inj hchars
  obtain ⟨hraID, hchars⟩ := enclosed_append_inj hchars
  obtain ⟨hscheme, _⟩ := enclosed_append_inj hchars
  rw [String.toList_inj] at hidentifier hidentityID hnonce hpurpose hraID hscheme
  obtain ⟨⟩ := a
  obtain ⟨⟩ := b
  simp only [IdentityProofInput.mk.injEq]
  exact ⟨hidentifier, hidentityID, hnonce, hpurpose, hraID, hscheme⟩

/-- Serve a request to its end, as long as its nonces are fresh. -/
def serveFresh {D : Deployment} (p : Pool (service D)) (op : Op) (second : Nat) (identityID nonce : String) :
    Pool (service D) :=
  (p.spawn op).driveWhile (fun c s => decide (FreshNonce c s)) p.threads.length (ambient second) (world identityID nonce) 40

theorem reachable_serveFresh {D : Deployment} {p : Pool (service D)} (h : Reachable (service D) FreshNonce p) (op : Op)
    (second : Nat) (identityID nonce : String) :
    Reachable (service D) FreshNonce (serveFresh p op second identityID nonce) :=
  (h.spawn op).driveWhile (fun _ _ => of_decide_eq_true) _ _ _ 40

/-- The proof of a did:key, where signing inputs tell their fields. -/
def tellingProof : ProofSubmission :=
  proof "z" (telling.base64url (IdentityProofInput.document ⟨"did:key:z", "i", "n", identityProofPurpose, "ra", "did:key"⟩))

/-- An identity is registered and proven. -/
def proven : Pool (service telling) :=
  serveFresh (serveFresh (.start _) (.register "o" "did:key:z" ⟨""⟩) 1 "i" "n") (.verifyControl "o" "i" tellingProof) 2 "" ""

theorem reachable_proven : Reachable (service telling) FreshNonce proven := by
  unfold proven
  apply reachable_serveFresh
  apply reachable_serveFresh
  exact .start

end Sample

open Sample

set_option maxRecDepth 20000 in
theorem sample_signature_is_for_its_identity : ∃ c ∈ proven.state.commits, ∃ key ∈ c.attempt.keys,
    ∃ header payload pub nonce, decodeStandardJWS telling key.signedProof = .ok (header, payload) ∧
      (c.current.proofInput telling nonce).signingInput telling = .ok payload ∧
      KeyOf c.current.effectiveValue header.kid pub proven.state := by
  have hcommitted : ∃ c ∈ proven.state.commits, c.current.kind ≠ .lei ∧ c.attempt.keys ≠ [] := by
    decide +kernel
  obtain ⟨c, hc, hkind, hkeys⟩ := hcommitted
  obtain ⟨key, hkey⟩ := exists_mem_of_ne_nil _ hkeys
  obtain ⟨header, payload, pub, nonce, hdecode, _, hpayload, _, _, hkeyOf⟩ :=
    (signatures_not_replayed telling_encoding reachable_proven).2 c hc hkind key hkey
  exact ⟨c, hc, key, hkey, header, payload, pub, nonce, hdecode, hpayload, hkeyOf⟩

end AgentNameService.Identity
