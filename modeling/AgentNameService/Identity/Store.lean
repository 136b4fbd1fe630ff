/-
Purpose: The tables of identities and of links, with their unique indexes, and the conditional updates on them.
Source: internal/adapter/store/sqlite/identity.go, internal/adapter/store/sqlite/migrations
Trusted boundary: human-reviewed model; a statement is atomic, because the database has a single connection
-/
import AgentNameService.Identity.Domain
import AgentNameService.Registration.Store
import Mathlib.Data.List.Sort

namespace AgentNameService.Identity

open List Registration Registration.Store

/-! ### Identities -/

/-- A row of `identities`. -/
structure Row where
  identity : VerifiedIdentity
  claimedAt : Option Time
deriving DecidableEq, Repr

namespace Row

abbrev id (r : Row) : String := r.identity.identityID

abbrev status (r : Row) : IdentityStatus := r.identity.status

/-- The two rows clash in `idx_identities_live`. -/
def SameLive (a b : Row) : Prop :=
  a.status ≠ .revoked ∧ b.status ≠ .revoked ∧ a.identity.providerID = b.identity.providerID ∧
    a.identity.kind = b.identity.kind ∧ a.identity.value = b.identity.value

/-- The two rows clash in `idx_identities_proven`. -/
def SameProven (a b : Row) : Prop :=
  a.status = .verified ∧ b.status = .verified ∧ a.identity.kind = b.identity.kind ∧ a.identity.value = b.identity.value

instance (a b : Row) : Decidable (SameLive a b) := inferInstanceAs (Decidable (_ ∧ _))

instance (a b : Row) : Decidable (SameProven a b) := inferInstanceAs (Decidable (_ ∧ _))

/-- The nonce of the row, which is not consumed yet. -/
def openNonce (r : Row) : Option String :=
  r.identity.challenge.bind fun challenge => if challenge.consumedAt = none then some challenge.nonce else none

/-- The nonce of the row, or nothing. -/
def nonce (r : Row) : String := (r.identity.challenge.map IdentityChallenge.nonce).getD ""

/-- `challenge_expires_at_ms > ?`. -/
def unexpiredAt (now : Time) (r : Row) : Bool := r.identity.challenge.any (now < ·.expiresAt)

/-- `challenge_claimed_at_ms IS NULL OR challenge_claimed_at_ms < ?`. -/
def claimedBefore (staleBefore : Time) (r : Row) : Bool := r.claimedAt.all (· < staleBefore)

/-- What `Save` writes over a row: everything but whose identity it is and of which kind. -/
def overwrite (v : VerifiedIdentity) (r : Row) : Row where
  identity := { v with
    identityID := r.identity.identityID, providerID := r.identity.providerID, kind := r.identity.kind }
  claimedAt := none

def stage (v : VerifiedIdentity) (r : Row) : Row where
  identity := { r.identity with
    challenge := v.challenge.map fun challenge => { challenge with consumedAt := none }
    pendingValue := v.pendingValue
    pendingSubjectAID := v.pendingSubjectAID }
  claimedAt := none

def consume (now : Time) (r : Row) : Row :=
  { r with identity := { r.identity with
      challenge := r.identity.challenge.map fun challenge => { challenge with consumedAt := some now } } }

def markRevoked (r : Row) : Row where
  identity := { r.identity with
    status := .revoked, pendingValue := "", pendingSubjectAID := "", challenge := none }
  claimedAt := none

end Row

/-- The unique indexes of the table. -/
structure Indexed (rows : List Row) : Prop where
  ids : (rows.map Row.id).Nodup
  live : rows.Pairwise fun a b => ¬ a.SameLive b
  proven : rows.Pairwise fun a b => ¬ a.SameProven b

instance (rows : List Row) : Decidable (Indexed rows) :=
  decidable_of_iff ((rows.map Row.id).Nodup ∧ (rows.Pairwise fun a b => ¬ a.SameLive b) ∧
      rows.Pairwise fun a b => ¬ a.SameProven b)
    ⟨fun h => ⟨h.1, h.2.1, h.2.2⟩, fun h => ⟨h.ids, h.live, h.proven⟩⟩

/-- The table `identities`. -/
structure Identities where
  rows : List Row
  indexed : Indexed rows

/-- Change the row with an id. -/
def setRow (id : String) (change : Row → Row) (rows : List Row) : List Row :=
  rows.map fun r => if r.id = id then change r else r

namespace Identities

variable (t : Identities)

def empty : Identities := ⟨[], ⟨nodup_nil, .nil, .nil⟩⟩

/-- Write the rows, unless an index forbids it. -/
def withRows (rows : List Row) : Except Error Identities :=
  if h : Indexed rows then .ok ⟨rows, h⟩ else .error (alreadyExists "identities")

def rowByID (identityID : String) : Option Row := t.rows.find? (·.id = identityID)

/-- `UPDATE … WHERE identity_id = ? AND …`; `identity_id` is the primary key. -/
def updateWhere (identityID : String) (guard : Row → Bool) (change : Row → Row) (unchanged : Error) : Except Error Identities :=
  match t.rowByID identityID with
  | none => .error unchanged
  | some r => if guard r then withRows (setRow identityID change t.rows) else .error unchanged

/-- `Save`: insert, or overwrite the row with the id. -/
def save (v : VerifiedIdentity) : Except Error Identities :=
  match t.rowByID v.identityID with
  | some _ => withRows (setRow v.identityID (Row.overwrite v) t.rows)
  | none => withRows (t.rows ++ [⟨v, none⟩])

def findByID (identityID : String) : Except Error VerifiedIdentity :=
  match t.rowByID identityID with
  | some r => .ok r.identity
  | none => .error noRows

def findLive (providerID : String) (kind : IdentifierKind) (value : String) : Except Error VerifiedIdentity :=
  match t.rows.find? fun r => r.identity.providerID = providerID && r.identity.kind = kind && r.identity.value = value &&
      r.status ≠ .revoked with
  | some r => .ok r.identity
  | none => .error noRows

def existsVerified (kind : IdentifierKind) (value : String) : Bool :=
  t.rows.any fun r => r.identity.kind = kind && r.identity.value = value && r.status = .verified

def consumeChallenge (identityID nonce : String) (now : Time) : Except Error Identities :=
  t.updateWhere identityID (fun r => r.openNonce = some nonce && r.unexpiredAt now) (Row.consume now)
    (.invalidState "PRICC_TOKEN_ALREADY_USED" "challenge nonce is consumed, expired, or superseded")

def claimChallenge (identityID nonce : String) (now staleBefore : Time) : Except Error Identities :=
  t.updateWhere identityID (fun r => r.openNonce = some nonce && r.unexpiredAt now && r.claimedBefore staleBefore)
    (fun r => { r with claimedAt := some now })
    (.invalidState "VERIFICATION_IN_FLIGHT" ("a verify-control attempt for this challenge is already in flight, or " ++
      "the nonce is consumed, expired, or superseded"))

/-- `ReleaseChallenge`: no row to release is no error. -/
def releaseChallenge (identityID nonce : String) : Except Error Identities :=
  withRows (setRow identityID (fun r => if r.openNonce = some nonce then { r with claimedAt := none } else r) t.rows)

/-- Why a challenge could not be staged. -/
def stageRefusal (identityID : String) (expectedStatus : IdentityStatus) : Error :=
  match t.rowByID identityID with
  | none => noRows
  | some r =>
    if r.status = .revoked then .invalidState "IDENTITY_REVOKED" "identity was revoked"
    else if r.status = .verified ∧ expectedStatus ≠ .verified then .conflict "IDENTIFIER_DUPLICATE"
      "identifier was verified concurrently; rotate it with PUT instead"
    else .conflict "VERIFICATION_IN_FLIGHT"
      "a verify-control attempt is in flight or the challenge was superseded; retry shortly"

def stageChallenge (v : VerifiedIdentity) (expectedStatus : IdentityStatus) (expectedNonce : String)
    (staleBefore : Time) : Except Error Identities := do
  Except.require (v.challenge ≠ none) (.internal "CHALLENGE_STAGE" "no challenge on the aggregate")
  t.updateWhere v.identityID
    (fun r => r.status = expectedStatus && r.nonce = expectedNonce && r.claimedBefore staleBefore)
    (Row.stage v) (t.stageRefusal v.identityID expectedStatus)

def markRevoked (identityID : String) : Except Error Identities :=
  t.updateWhere identityID (fun r => r.status = .verified) Row.markRevoked
    (.conflict "IDENTITY_CONCURRENTLY_MODIFIED" "identity changed during the revoke; re-read and retry")

end Identities

/-! ### Links -/

inductive LinkStatus where
  | linked
  | unlinked
deriving DecidableEq, Repr

structure IdentityLink where
  identityID : String
  agentID : String
  status : LinkStatus
  linkedAt : Time
deriving DecidableEq, Repr

namespace IdentityLink

def Joins (l : IdentityLink) (identityID agentID : String) : Prop := l.identityID = identityID ∧ l.agentID = agentID

def IsLive (l : IdentityLink) (identityID agentID : String) : Prop := l.Joins identityID agentID ∧ l.status = .linked

instance (l : IdentityLink) (identityID agentID : String) : Decidable (l.Joins identityID agentID) :=
  inferInstanceAs (Decidable (_ ∧ _))

instance (l : IdentityLink) (identityID agentID : String) : Decidable (l.IsLive identityID agentID) :=
  inferInstanceAs (Decidable (_ ∧ _))

end IdentityLink

/-- The table `identity_links`; `idx_identity_links_live` admits one live row for a pair, and `Link` looks before it
inserts. -/
structure Links where
  rows : List IdentityLink
  live : rows.Pairwise fun a b => a.status = .linked → ¬ b.IsLive a.identityID a.agentID

namespace Links

variable (t : Links)

def empty : Links := ⟨[], .nil⟩

def link (identityID agentID : String) (now : Time) : Links :=
  if h : ∃ l ∈ t.rows, l.IsLive identityID agentID then t
  else {
    rows := t.rows ++ [⟨identityID, agentID, .linked, now⟩]
    live := by
      rw [pairwise_append]
      refine ⟨t.live, pairwise_singleton _ _, ?_⟩
      intro a ha b hb hlinked hlive
      rw [mem_singleton] at hb
      subst hb
      exact h ⟨a, ha, ⟨hlive.1.1.symm, hlive.1.2.symm⟩, hlinked⟩ }

/-- The rows after the live row of a pair has ended. -/
def endRow (identityID agentID : String) (l : IdentityLink) : IdentityLink :=
  if l.IsLive identityID agentID then { l with status := .unlinked } else l

def unlink (identityID agentID : String) : Except Error Links :=
  if ∃ l ∈ t.rows, l.IsLive identityID agentID then .ok {
    rows := t.rows.map (endRow identityID agentID)
    live := by
      rw [pairwise_map]
      apply t.live.imp
      intro a b hab hlinked hlive
      unfold endRow at hlinked hlive
      split at hlinked
      · cases hlinked
      · split at hlive
        · cases hlive.2
        · rename_i hna hnb
          exact hab hlinked hlive }
  else .error (.notFound "LINK_NOT_FOUND" "no live link exists for this identity and agent")

/-- `ListLiveByIdentity`: the newest first. -/
def listLiveByIdentity (identityID : String) : List IdentityLink :=
  (t.rows.filter fun l => l.identityID = identityID ∧ l.status = .linked).reverse.insertionSort
    fun a b => b.linkedAt ≤ a.linkedAt

end Links

/-! ### Reading and changing a row -/

theorem mem_setRow {id : String} {change : Row → Row} {rows : List Row} {r' : Row} :
    r' ∈ setRow id change rows ↔ (∃ r ∈ rows, r.id = id ∧ r' = change r) ∨ r' ∈ rows ∧ r'.id ≠ id := by
  unfold setRow
  rw [mem_map]
  constructor
  · rintro ⟨r, hr, rfl⟩
    by_cases hid : r.id = id
    · exact .inl ⟨r, hr, hid, if_pos hid⟩
    · rw [if_neg hid]
      exact .inr ⟨hr, hid⟩
  · rintro (⟨r, hr, hid, rfl⟩ | ⟨hr, hid⟩)
    · exact ⟨r, hr, if_pos hid⟩
    · exact ⟨r', hr, if_neg hid⟩

namespace Identities

variable {t t' : Identities} {identityID : String} {r : Row} {v : VerifiedIdentity}

theorem eq_of_id_eq {a b : Row} (ha : a ∈ t.rows) (hb : b ∈ t.rows) (h : a.id = b.id) : a = b :=
  inj_on_of_nodup_map t.indexed.ids ha hb h

theorem rowByID_eq_some_iff : t.rowByID identityID = some r ↔ r ∈ t.rows ∧ r.id = identityID := by
  unfold rowByID
  constructor
  · intro h
    exact ⟨mem_of_find?_eq_some h, by simpa using find?_some h⟩
  · rintro ⟨hmem, hid⟩
    cases hfound : t.rows.find? (·.id = identityID) with
    | none =>
      rw [find?_eq_none] at hfound
      exact absurd hid (by simpa using hfound r hmem)
    | some r' =>
      have hid' : r'.id = identityID := by simpa using find?_some hfound
      rw [eq_of_id_eq (mem_of_find?_eq_some hfound) hmem (hid'.trans hid.symm)]

theorem withRows_eq_ok_iff {rows : List Row} : withRows rows = .ok t' ↔ t'.rows = rows := by
  unfold withRows
  split
  · rename_i h
    constructor
    · rintro ⟨⟩
      rfl
    · rintro rfl
      rfl
  · rename_i h
    constructor
    · nofun
    · rintro rfl
      exact absurd t'.indexed h

/-- A conditional update changed the row with the id, which met the condition. -/
theorem updateWhere_eq_ok_iff {guard : Row → Bool} {change : Row → Row} {unchanged : Error} :
    t.updateWhere identityID guard change unchanged = .ok t' ↔
      ∃ r ∈ t.rows, r.id = identityID ∧ guard r = true ∧ t'.rows = setRow identityID change t.rows := by
  unfold updateWhere
  cases hrow : t.rowByID identityID with
  | none =>
    constructor
    · nofun
    · rintro ⟨r, hr, hid, _⟩
      rw [rowByID_eq_some_iff.mpr ⟨hr, hid⟩] at hrow
      cases hrow
  | some r =>
    obtain ⟨hr, hid⟩ := rowByID_eq_some_iff.mp hrow
    constructor
    · intro h
      simp only at h
      split at h
      · rename_i hguard
        exact ⟨r, hr, hid, hguard, withRows_eq_ok_iff.mp h⟩
      · cases h
    · rintro ⟨r', hr', hid', hguard, hrows⟩
      rw [eq_of_id_eq hr' hr (hid'.trans hid.symm)] at hguard
      simp only [hguard, if_true]
      exact withRows_eq_ok_iff.mpr hrows

theorem findByID_eq_ok_iff :
    t.findByID identityID = .ok v ↔ ∃ r ∈ t.rows, r.id = identityID ∧ r.identity = v := by
  unfold findByID
  constructor
  · intro h
    split at h
    · rename_i r hrow
      cases h
      obtain ⟨hr, hid⟩ := rowByID_eq_some_iff.mp hrow
      exact ⟨r, hr, hid, rfl⟩
    · cases h
  · rintro ⟨r, hr, hid, rfl⟩
    rw [rowByID_eq_some_iff.mpr ⟨hr, hid⟩]

/-- An identity with an unused id is inserted. -/
theorem save_new (hnew : t.rowByID v.identityID = none) :
    t.save v = .ok t' ↔ t'.rows = t.rows ++ [⟨v, none⟩] := by
  unfold save
  rw [hnew]
  exact withRows_eq_ok_iff

/-- An identity with the id of a row overwrites it. -/
theorem save_over (hr : r ∈ t.rows) (hid : r.id = v.identityID) :
    t.save v = .ok t' ↔ t'.rows = setRow v.identityID (Row.overwrite v) t.rows := by
  unfold save
  rw [rowByID_eq_some_iff.mpr ⟨hr, hid⟩]
  exact withRows_eq_ok_iff

end Identities

end AgentNameService.Identity
