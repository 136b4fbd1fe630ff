/-
Purpose: The tables of the identity service are never ahead of the log: in every state that requests reach, with any
  interleaving, lost acknowledgements, failing steps and crashes, what the tables say was sealed before.
Source: internal/ra/service/identity.go
Trusted boundary: none
-/
import AgentNameService.Identity.Conduct
import AgentNameService.Registration.Contract

namespace AgentNameService.Identity

open Interleaving Registration

variable {D : Deployment}

/-! ### The agents of the registration service -/

/-! ### Seal before success -/

/-- In every reachable state: a verified identity has a proof with its kind and value in the log, a revoked one its
revocation, a live link an event that names its pair, and it joins an identity and an agent of one owner. -/
theorem tables_never_ahead_of_log {p : Pool (service D)} (h : Reached (service D) p) :
    (∀ r ∈ p.state.identities.rows, r.status = .verified → Proven p.state.log r.id r.identity.kind r.identity.value) ∧
    (∀ r ∈ p.state.identities.rows, r.status = .revoked → RevokedIn p.state.log r.id) ∧
    (∀ l ∈ p.state.links.rows, l.status = .linked → LinkedIn p.state.log l.identityID l.agentID) ∧
    ∀ l ∈ p.state.links.rows, l.status = .linked → SameOwner l.identityID l.agentID p.state := by
  have hinv : Inv p.state := ((governs D).sound h).1
  refine ⟨?_, ?_, ?_, ?_⟩
  · exact fun r hr hverified => (hinv.rows r hr).proven hverified
  · exact fun r hr hrevoked => ((hinv.rows r hr).revoked hrevoked).1
  · exact fun l hl hlinked => (hinv.links l hl hlinked).1
  · exact fun l hl hlinked => (hinv.links l hl hlinked).2

/-! ### A small authority -/

namespace Sample

/-- A time is a text of its length, a document is signed by its nonce alone, the header of a signature is its kid, and every
signature verifies. -/
def deployment : Deployment where
  log := {
    numbers := .verbatim
    Digest := Json
    decEq := inferInstance
    sha256 := id
    leafHash := id
    parseTime := fun text => .ok text.length
    decodeHeader := fun jws => .ok ⟨"key", jws⟩
    parseKey := fun _ _ => .ok ()
    verifies := fun _ _ _ => .ok () }
  raID := "ra"
  challengeTTL := 3600 * 1000
  registerPerMinute := 10
  linkPerMinute := 60
  leiEnabled := false
  rfc3339 := fun seconds => String.ofList (List.replicate seconds 's')
  base64url
    | .object members => match members.find? (·.1 = "nonce") with
        | some (_, .string nonce) => nonce
        | _ => ""
    | _ => ""
  thumbprint := id
  Key := String
  parseJWK := fun _ => .error "not here"
  decodeMultibase := .ok
  decodeHeader := fun header => .ok ⟨header, none⟩
  verifyJWS := fun _ _ => .ok ()

/-- The clock at a second, a log that acknowledges, and no DID document. -/
def ambient (second : Nat) : Ambient where
  now := second * 1000
  acknowledged := true
  resolve := fun _ _ => .error (.validation "DID_RESOLUTION_FAILED" "not here")

/-- The ids and nonces that are drawn. -/
def world (identityID nonce : String) : (q : Query) → q.Answer
  | .newID => some identityID
  | .newNonce => some nonce
  | .present _ | .authorization _ | .verifySignature .. => .error (.plain "not here")

/-- A signature with the key of a did:key. -/
def proof (msid payload : String) : ProofSubmission where
  signedProofs := ["did:key:" ++ msid ++ "#" ++ msid ++ "." ++ payload ++ ".s"]
  cesrSignature := ""

/-- Serve a request to its end. -/
def serve {D : Deployment} (p : Pool (service D)) (op : Op) (second : Nat) (identityID nonce : String) : Pool (service D) :=
  (p.spawn op).drive p.threads.length (ambient second) (world identityID nonce) 40

theorem reached_serve {D : Deployment} {p : Pool (service D)} (h : Reached (service D) p) (op : Op) (second : Nat)
    (identityID nonce : String) : Reached (service D) (serve p op second identityID nonce) :=
  (h.spawn op).drive _ _ _ 40

/-- An identity that is registered, proven, and linked to an agent of its owner. -/
def linked : Pool (service deployment) :=
  serve (serve (serve (serve (.start _) (.register "owner" "did:key:z1" ⟨""⟩) 1 "id1" "n1")
    (.verifyControl "owner" "id1" (proof "z1" "n1")) 2 "" "")
    (.setAgent ⟨"agent", "owner", .active⟩) 3 "" "")
    (.link "owner" "id1" ["agent"]) 4 "" ""

theorem reached_linked : Reached (service deployment) linked := by
  unfold linked
  apply reached_serve
  apply reached_serve
  apply reached_serve
  apply reached_serve
  exact .start

end Sample

open Sample

set_option maxRecDepth 20000 in
theorem sample_tables_never_ahead_of_log :
    Proven linked.state.log "id1" .didKey "did:key:z1" ∧ LinkedIn linked.state.log "id1" "agent" ∧
    SameOwner "id1" "agent" linked.state := by
  have hrow : ∃ r ∈ linked.state.identities.rows, r.status = .verified ∧
      (r.id, r.identity.kind, r.identity.value) = ("id1", .didKey, "did:key:z1") := by
    decide +kernel
  have hlink : ∃ l ∈ linked.state.links.rows, l.status = .linked ∧
      (l.identityID, l.agentID) = ("id1", "agent") := by
    decide +kernel
  obtain ⟨hproven, -, hlinked, howner⟩ := tables_never_ahead_of_log reached_linked
  obtain ⟨r, hr, hverified, hfields⟩ := hrow
  obtain ⟨l, hl, hlive, hpair⟩ := hlink
  simp only [Prod.mk.injEq] at hfields hpair
  have h₁ := hproven r hr hverified
  have h₂ := hlinked l hl hlive
  have h₃ := howner l hl hlive
  rw [hfields.1, hfields.2.1, hfields.2.2] at h₁
  rw [hpair.1, hpair.2] at h₂ h₃
  exact ⟨h₁, h₂, h₃⟩

end AgentNameService.Identity
