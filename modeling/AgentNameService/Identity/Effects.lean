/-
Purpose: What each write of the identity service does when it succeeds: which row it found, and how the tables stand
  afterwards.
Source: internal/adapter/store/sqlite/identity.go, internal/ra/service/identity.go
Trusted boundary: none
-/
import AgentNameService.Identity.Interface

namespace AgentNameService.Identity

open List Except Registration

variable {D : Deployment} {s t : State D} {identityID : String} {rows : List Row} {input : Ambient} {agentID : String}
variable {id : String} {now : Time} {u : Unit} {r : Row}

/-! ### Rows -/

theorem Row.openNonce_eq_some_iff {nonce : String} : r.openNonce = some nonce ↔
    ∃ challenge, r.identity.challenge = some challenge ∧ challenge.consumedAt = none ∧ challenge.nonce = nonce := by
  unfold openNonce
  cases r.identity.challenge with
  | none | some => simp

theorem Row.issue?_eq_some_iff {i : Issue} : r.issue? = some i ↔ r.openNonce = some i.nonce ∧
    i = ⟨i.nonce, r.id, r.status, r.identity.value, r.identity.pendingValue⟩ := by
  unfold issue?
  rw [Option.map_eq_some_iff]
  constructor
  · rintro ⟨nonce, hopen, rfl⟩
    exact ⟨hopen, rfl⟩
  · rintro ⟨hopen, heq⟩
    exact ⟨i.nonce, hopen, heq.symm⟩

/-- A committed row has no open challenge. -/
theorem Row.openNonce_overwrite_committed (a : Attempt) (r : Row) : (r.overwrite a.committed).openNonce = none := by
  simp [openNonce, overwrite, Attempt.committed]

theorem setRow_setRow {f g : Row → Row} (hf : ∀ r, (f r).id = r.id) :
    setRow id g (setRow id f rows) = setRow id (g ∘ f) rows := by
  unfold setRow
  rw [map_map]
  apply map_congr_left
  intro r _
  by_cases h : r.id = id <;> simp [h, hf]

/-! ### Challenges -/

theorem State.insert_ok {v : VerifiedIdentity} (h : s.insert v = .ok t) : s.identities.rowByID v.identityID = none ∧
    ∃ identities, identities.rows = s.identities.rows ++ [⟨v, none⟩] ∧ t = s.issue identities v.identityID := by
  simp only [insert, bind_eq_ok_iff, require_eq_ok_iff, pure_eq_ok_iff] at h
  obtain ⟨_, hnew, identities, hsave, rfl⟩ := h
  exact ⟨hnew, identities, (Identities.save_new hnew).mp hsave, rfl⟩

theorem State.stageChallenge_ok {v : VerifiedIdentity} {expectedStatus : IdentityStatus} {expectedNonce : String}
    {staleBefore : Time} (h : s.stageChallenge v expectedStatus expectedNonce staleBefore = .ok t) :
    ∃ r ∈ s.identities.rows, r.id = v.identityID ∧ r.status = expectedStatus ∧
      ∃ identities, identities.rows = setRow v.identityID (Row.stage v) s.identities.rows ∧
        t = s.issue identities v.identityID := by
  simp only [stageChallenge, Identities.stageChallenge, bind_eq_ok_iff, require_eq_ok_iff,
    pure_eq_ok_iff, Identities.updateWhere_eq_ok_iff, Bool.and_eq_true, decide_eq_true_eq] at h
  obtain ⟨identities, ⟨_, _, r, hr, hid, ⟨⟨hstatus, _⟩, _⟩, hrows⟩, rfl⟩ := h
  exact ⟨r, hr, hid, hstatus, identities, hrows, rfl⟩

theorem claimChallenge_ok {claim : Claim} (h : (Call.claimChallenge claim).exec input s = .ok (u, t)) :
    ∃ r ∈ s.identities.rows, r.id = claim.identityID ∧ r.openNonce = some claim.nonce ∧
      r.claimedBefore (claim.now - sealClaimTTL) = true ∧ ∃ identities, identities.rows =
          setRow claim.identityID (fun r => { r with claimedAt := some claim.now }) s.identities.rows ∧
        t = { s with identities } := by
  simp only [Call.exec] at h
  obtain ⟨identities, hclaim, heq⟩ := map_eq_ok_iff.mp h
  simp only [Identities.claimChallenge, Identities.updateWhere_eq_ok_iff, Bool.and_eq_true, decide_eq_true_eq] at hclaim
  obtain ⟨r, hr, hid, ⟨⟨hnonce, _⟩, hclaimed⟩, hrows⟩ := hclaim
  cases heq
  exact ⟨r, hr, hid, hnonce, hclaimed, identities, hrows, rfl⟩

/-- A commit found the nonce of the claim unconsumed, and overwrote the row. -/
theorem State.commitVerification_ok {a : Attempt} (hid : a.verified.identityID = a.loaded.identityID)
    (h : s.commitVerification a = .ok t) :
    ∃ r ∈ s.identities.rows, r.id = a.claim.identityID ∧ r.openNonce = some a.claim.nonce ∧ r.unexpiredAt a.now = true ∧
      ∃ identities, identities.rows = setRow a.claim.identityID (Row.overwrite a.committed) s.identities.rows ∧
        t = { s with identities, commits := s.commits ++ [⟨a, r.identity⟩] } := by
  simp only [commitVerification, bind_eq_ok_iff, mapError_eq_ok_iff, pure_eq_ok_iff,
    Identities.consumeChallenge, Identities.updateWhere_eq_ok_iff, Bool.and_eq_true, decide_eq_true_eq] at h
  obtain ⟨consumed, ⟨r, hr, hrid, ⟨hnonce, htime⟩, hconsumed⟩, identities, hsave, rfl⟩ := h
  refine ⟨r, hr, hrid, hnonce, htime, identities, ?_, ?_⟩
  · have hcommitted : a.committed.identityID = a.claim.identityID := hid
    have hmem : Row.consume a.now r ∈ consumed.rows := by
      rw [hconsumed]
      exact mem_setRow.mpr (.inl ⟨r, hr, hrid, rfl⟩)
    rw [Identities.save_over hmem (hrid.trans hcommitted.symm), hconsumed, hcommitted] at hsave
    have hkeeps : ∀ r, (Row.consume a.now r).id = r.id := fun _ => rfl
    rw [hsave, setRow_setRow hkeeps]
    rfl
  · rw [Identities.rowByID_eq_some_iff.mpr ⟨hr, hrid⟩]
    rfl

theorem Row.SameLive.symm {a b : Row} (h : a.SameLive b) : b.SameLive a :=
  ⟨h.2.1, h.1, h.2.2.1.symm, h.2.2.2.1.symm, h.2.2.2.2.symm⟩

theorem Row.SameProven.symm {a b : Row} (h : a.SameProven b) : b.SameProven a :=
  ⟨h.2.1, h.1, h.2.2.1.symm, h.2.2.2.symm⟩

theorem map_id_setRow {change : Row → Row} (hid : ∀ r, (change r).id = r.id) :
    (setRow id change rows).map Row.id = rows.map Row.id := by
  unfold setRow
  rw [map_map]
  apply map_congr_left
  intro r _
  change Row.id (if r.id = id then change r else r) = r.id
  split
  · exact hid r
  · rfl

/-- A change of one row keeps the indexes if it clashes with no other row. -/
theorem Indexed.setRow {change : Row → Row} (h : Indexed rows) (hid : ∀ r, (change r).id = r.id)
    (hclash : ∀ r ∈ rows, r.id = id → ∀ other ∈ rows, other.id ≠ id →
      ¬ (change r).SameLive other ∧ ¬ (change r).SameProven other) : Indexed (setRow id change rows) := by
  -- Both indexes are kept pair by pair; rows at two places have different ids.
  have hpairs (Clash : Row → Row → Prop) (hsymm : ∀ {a b}, Clash a b → Clash b a) (hold : rows.Pairwise fun a b => ¬ Clash a b)
      (hnew : ∀ r ∈ rows, r.id = id → ∀ other ∈ rows, other.id ≠ id → ¬ Clash (change r) other) :
      (Identity.setRow id change rows).Pairwise fun a b => ¬ Clash a b := by
    unfold Identity.setRow
    rw [pairwise_map]
    refine (hold.and (pairwise_map.mp h.ids)).imp_of_mem ?_
    rintro a b ha hb ⟨hab, hne⟩
    split
    · rename_i haid
      split
      · rename_i hbid
        exact absurd (haid.trans hbid.symm) hne
      · exact hnew a ha haid b hb ‹_›
    · split
      · rename_i hother hbid
        exact fun hclash => hnew b hb hbid a ha hother (hsymm hclash)
      · exact hab
  refine ⟨?_, ?_, ?_⟩
  · rw [map_id_setRow hid]
    exact h.ids
  · exact hpairs _ Row.SameLive.symm h.live fun r hr hrid other ho hoid => (hclash r hr hrid other ho hoid).1
  · exact hpairs _ Row.SameProven.symm h.proven fun r hr hrid other ho hoid => (hclash r hr hrid other ho hoid).2

/-- Consuming a nonce changes nothing that an index is about. -/
theorem Indexed.consume (h : Indexed rows) (id : String) (now : Time) :
    Indexed (Identity.setRow id (Row.consume now) rows) := by
  have hsame (r : Row) : (if r.id = id then Row.consume now r else r).status = r.status ∧
      (if r.id = id then Row.consume now r else r).identity.providerID = r.identity.providerID ∧
      (if r.id = id then Row.consume now r else r).identity.kind = r.identity.kind ∧
      (if r.id = id then Row.consume now r else r).identity.value = r.identity.value := by
    split <;> exact ⟨rfl, rfl, rfl, rfl⟩
  refine ⟨?_, ?_, ?_⟩
  · have hid (r : Row) : (Row.consume now r).id = r.id := rfl
    rw [map_id_setRow hid]
    exact h.ids
  · unfold Identity.setRow
    rw [pairwise_map]
    apply h.live.imp
    intro a b hab
    unfold Row.SameLive
    rw [(hsame a).1, (hsame b).1, (hsame a).2.1, (hsame b).2.1, (hsame a).2.2.1, (hsame b).2.2.1, (hsame a).2.2.2,
      (hsame b).2.2.2]
    exact hab
  · unfold Identity.setRow
    rw [pairwise_map]
    apply h.proven.imp
    intro a b hab
    unfold Row.SameProven
    rw [(hsame a).1, (hsame b).1, (hsame a).2.2.1, (hsame b).2.2.1, (hsame a).2.2.2, (hsame b).2.2.2]
    exact hab

/-- A commit succeeds if the nonce of the claim is open in time and no other row has the value in an index. -/
theorem State.commitVerification_of_open {a : Attempt} (hr : r ∈ s.identities.rows)
    (hrid : r.id = a.claim.identityID) (hid : a.verified.identityID = a.loaded.identityID)
    (hopen : r.openNonce = some a.claim.nonce) (htime : r.unexpiredAt a.now = true)
    (hclash : ∀ other ∈ s.identities.rows, other.id ≠ r.id → other.identity.kind = r.identity.kind →
      other.identity.value = a.verified.value → other.status ≠ .verified ∧
        (other.identity.providerID = r.identity.providerID → other.status = .revoked)) :
    ∃ t, s.commitVerification a = .ok t := by
  have hconsumed : Indexed (setRow a.claim.identityID (Row.consume a.now) s.identities.rows) :=
    s.identities.indexed.consume a.claim.identityID a.now
  have hwritten : Indexed (setRow a.claim.identityID (Row.overwrite a.committed) s.identities.rows) := by
    refine s.identities.indexed.setRow (fun _ => rfl) ?_
    intro r' hr' hrid' other hother hne
    obtain rfl := Identities.eq_of_id_eq hr' hr (hrid'.trans hrid.symm)
    have hne' : other.id ≠ r'.id := fun hsame => hne (hsame.trans hrid')
    constructor
    · rintro ⟨_, hlive, hprovider, hkind, hvalue⟩
      exact hlive ((hclash other hother hne' hkind.symm hvalue.symm).2 hprovider.symm)
    · rintro ⟨_, hverified, hkind, hvalue⟩
      exact (hclash other hother hne' hkind.symm hvalue.symm).1 hverified
  have hconsume : s.identities.consumeChallenge a.claim.identityID a.claim.nonce a.now = .ok ⟨_, hconsumed⟩ := by
    unfold Identities.consumeChallenge
    rw [Identities.updateWhere_eq_ok_iff]
    exact ⟨r, hr, hrid, by simp [hopen, htime], rfl⟩
  have hsave : (⟨_, hconsumed⟩ : Identities).save a.committed = .ok ⟨_, hwritten⟩ := by
    have hcommitted : a.committed.identityID = a.claim.identityID := hid
    have hmem : Row.consume a.now r ∈ (⟨_, hconsumed⟩ : Identities).rows := mem_setRow.mpr (.inl ⟨r, hr, hrid, rfl⟩)
    rw [Identities.save_over hmem (hrid.trans hcommitted.symm), hcommitted]
    have hkeeps : ∀ r, (Row.consume a.now r).id = r.id := fun _ => rfl
    change setRow _ (Row.overwrite a.committed) _ = setRow _ _ (setRow _ _ _)
    rw [setRow_setRow hkeeps]
    rfl
  simp only [commitVerification, hconsume, bind_eq_ok_iff, mapError_eq_ok_iff, pure_eq_ok_iff]
  exact ⟨_, _, rfl, _, hsave, rfl⟩

theorem releaseChallenge_ok {claim : Claim} (h : (Call.releaseChallenge claim).exec input s = .ok (u, t)) :
    ∃ identities, identities.rows = setRow claim.identityID
          (fun r => if r.openNonce = some claim.nonce then { r with claimedAt := none } else r) s.identities.rows ∧
        t = { s with identities } := by
  simp only [Call.exec] at h
  obtain ⟨identities, hrelease, heq⟩ := map_eq_ok_iff.mp h
  cases heq
  exact ⟨identities, Identities.withRows_eq_ok_iff.mp hrelease, rfl⟩

theorem markRevoked_ok (h : (Call.markRevoked identityID).exec input s = .ok (u, t)) :
    ∃ r ∈ s.identities.rows, r.id = identityID ∧ r.status = .verified ∧
      ∃ identities, identities.rows = setRow identityID Row.markRevoked s.identities.rows ∧ t = { s with identities } := by
  simp only [Call.exec] at h
  obtain ⟨identities, hrevoke, heq⟩ := map_eq_ok_iff.mp h
  simp only [Identities.markRevoked, Identities.updateWhere_eq_ok_iff, decide_eq_true_eq] at hrevoke
  obtain ⟨r, hr, hid, hstatus, hrows⟩ := hrevoke
  cases heq
  exact ⟨r, hr, hid, hstatus, identities, hrows, rfl⟩

/-! ### Links -/

theorem Links.mem_link {links : Links} {l : IdentityLink}
    (h : l ∈ (links.link identityID agentID now).rows) : l ∈ links.rows ∨ l = ⟨identityID, agentID, .linked, now⟩ := by
  unfold link at h
  split at h
  · exact .inl h
  · simpa using h

theorem Links.subset_link (links : Links) (identityID agentID : String) (now : Time) :
    links.rows ⊆ (links.link identityID agentID now).rows := by
  unfold link
  split
  · exact Subset.refl _
  · exact subset_append_left _ _

/-- After `Link` the pair has a live row. -/
theorem Links.isLive_link (links : Links) (identityID agentID : String) (now : Time) :
    ∃ l ∈ (links.link identityID agentID now).rows, l.IsLive identityID agentID := by
  unfold link
  split
  · assumption
  · exact ⟨_, mem_append_right _ (mem_singleton.mpr rfl), ⟨rfl, rfl⟩, rfl⟩

/-- A batch keeps the rows there are, adds live rows of its pairs only, and leaves each of its pairs with a live row. -/
theorem State.linkEach_ok {agentIDs : List String} {links links' : Links}
    (h : s.linkEach identityID now agentIDs links = .ok links') : links.rows ⊆ links'.rows ∧
      (∀ l ∈ links'.rows, l ∈ links.rows ∨ l.identityID = identityID ∧ l.agentID ∈ agentIDs) ∧
      ∀ agentID ∈ agentIDs, ∃ l ∈ links'.rows, l.IsLive identityID agentID := by
  induction agentIDs generalizing links with
  | nil =>
    cases h
    exact ⟨Subset.refl _, fun l hl => .inl hl, forall_mem_nil _⟩
  | cons agentID rest ih =>
    simp only [linkEach, bind_eq_ok_iff] at h
    obtain ⟨_, _, hrest⟩ := h
    obtain ⟨hsubset, hnew, hlive⟩ := ih hrest
    refine ⟨fun l hl => hsubset (links.subset_link identityID agentID now hl), ?_, ?_⟩
    · intro l hl
      rcases hnew l hl with hold | ⟨hid, hmem⟩
      · rcases Links.mem_link hold with hold | rfl
        · exact .inl hold
        · exact .inr ⟨rfl, mem_cons_self⟩
      · exact .inr ⟨hid, mem_cons_of_mem agentID hmem⟩
    · intro other hother
      rcases mem_cons.mp hother with rfl | hmem
      · obtain ⟨l, hl, hisLive⟩ := links.isLive_link identityID other now
        exact ⟨l, hsubset hl, hisLive⟩
      · exact hlive other hmem

theorem State.commitLinks_ok {agentIDs : List String} (h : s.commitLinks identityID agentIDs now = .ok t) :
    (∃ r ∈ s.identities.rows, r.id = identityID ∧ r.status = .verified) ∧
      ∃ links, s.linkEach identityID now agentIDs s.links = .ok links ∧ t = { s with links } := by
  simp only [commitLinks, bind_eq_ok_iff, require_eq_ok_iff, pure_eq_ok_iff] at h
  obtain ⟨current, hfound, _, hstatus, links, hlinks, rfl⟩ := h
  obtain ⟨r, hr, hid, rfl⟩ := Identities.findByID_eq_ok_iff.mp hfound
  exact ⟨⟨r, hr, hid, hstatus⟩, links, hlinks, rfl⟩

theorem Links.unlink_ok {links links' : Links}
    (h : links.unlink identityID agentID = .ok links') : links'.rows = links.rows.map (endRow identityID agentID) := by
  unfold unlink at h
  split at h
  · cases h
    rfl
  · cases h

/-- After `Unlink` every live row of the pair has ended; nothing else has changed. -/
theorem State.commitUnlink_ok (h : s.commitUnlink identityID agentID = .ok t) :
    ∃ links, links.rows = s.links.rows.map (Links.endRow identityID agentID) ∧ t = { s with links } := by
  unfold commitUnlink at h
  split at h
  · rename_i links hlinks
    cases h
    exact ⟨links, Links.unlink_ok hlinks, rfl⟩
  · rename_i e hmissing
    split at h
    · cases h
      refine ⟨s.links, ?_, rfl⟩
      unfold Links.unlink at hmissing
      split at hmissing
      · cases hmissing
      · rename_i hnone
        have hsame : ∀ l ∈ s.links.rows, Links.endRow identityID agentID l = l := fun l hl =>
          if_neg fun hlive => hnone ⟨l, hl, hlive⟩
        rw [map_congr_left hsame, map_id']
    · cases h

/-! ### What a step writes to the log and the links -/

def Call.WritesLinks : Call → Prop
  | .sealEvent _ | .commitLinks .. | .commitUnlink .. => True
  | _ => False

/-- What a step has done to the log and the links. -/
inductive Published (s : State D) : Call → State D → Prop
  | elsewhere {c t : _} (hcall : ¬ c.WritesLinks) (hlog : t.log = s.log) (hlinks : t.links = s.links) : Published s c t
  | sealed {body log} (happend : appendEvent D s.log body = .ok log) : Published s (.sealEvent body) { s with log  : _}
  | linked {identityID agentIDs now links : _} (hlinks : s.linkEach identityID now agentIDs s.links = .ok links) :
      Published s (.commitLinks identityID agentIDs now) { s with links  : _}
  | unlinked {identityID agentID links : _} (hrows : links.rows = s.links.rows.map (Links.endRow identityID agentID)) :
      Published s (.commitUnlink identityID agentID) { s with links  : _}

theorem exec_published {c : Call} {reply : c.Reply} (h : c.exec input s = .ok (reply, t)) : Published s c t := by
  cases c with
  | clock | existsVerified | listLiveByIdentity | restart =>
    cases h
    exact .elsewhere id rfl rfl
  | allow budget owner now =>
    cases budget with
    | register | link =>
      cases h
      exact .elsewhere id rfl rfl
  | findByAgentID agentID =>
    simp only [Call.exec] at h
    split at h <;> cases h
    exact .elsewhere id rfl rfl
  | insert v =>
    obtain ⟨_, hinsert, heq⟩ := map_eq_ok_iff.mp h
    cases heq
    obtain ⟨_, identities, _, rfl⟩ := State.insert_ok hinsert
    exact .elsewhere id rfl rfl
  | stageChallenge v expectedStatus expectedNonce staleBefore =>
    obtain ⟨_, hstage, heq⟩ := map_eq_ok_iff.mp h
    cases heq
    obtain ⟨_, _, _, _, identities, _, rfl⟩ := State.stageChallenge_ok hstage
    exact .elsewhere id rfl rfl
  | sealEvent body =>
    obtain ⟨_, hseal, heq⟩ := map_eq_ok_iff.mp h
    cases heq
    exact .sealed (mapError_eq_ok_iff.mp hseal)
  | commitVerification a =>
    obtain ⟨_, hcommit, heq⟩ := map_eq_ok_iff.mp h
    cases heq
    simp only [State.commitVerification, bind_eq_ok_iff, pure_eq_ok_iff] at hcommit
    obtain ⟨_, _, _, _, rfl⟩ := hcommit
    exact .elsewhere id rfl rfl
  | commitLinks identityID agentIDs now =>
    obtain ⟨_, hcommit, heq⟩ := map_eq_ok_iff.mp h
    cases heq
    obtain ⟨_, links, hlinks, rfl⟩ := State.commitLinks_ok hcommit
    exact .linked hlinks
  | commitUnlink identityID agentID =>
    obtain ⟨_, hcommit, heq⟩ := map_eq_ok_iff.mp h
    cases heq
    obtain ⟨links, hrows, rfl⟩ := State.commitUnlink_ok hcommit
    exact .unlinked hrows
  | setAgent a =>
    cases h
    refine .elsewhere id ?_ ?_ <;> (unfold State.setAgent; split <;> rfl)
  | _ =>
    obtain ⟨_, _, heq⟩ := map_eq_ok_iff.mp h
    cases heq
    exact .elsewhere id rfl rfl

end AgentNameService.Identity
