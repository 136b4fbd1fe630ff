/-
Purpose: The verified identity: how an identifier is classified and written canonically, the challenge of a control proof,
  and the methods that move an identity through its life, with their errors.
Source: internal/domain/identity.go
Trusted boundary: human-reviewed model; the times an identity was created, updated and verified are left out
-/
import AgentNameService.Registration.Naming

namespace AgentNameService.Identity

open Except Registration

/-! ### Kinds and statuses -/

inductive IdentifierKind where
  | didWeb
  | didKey
  | lei
deriving DecidableEq, Repr

namespace IdentifierKind

def text : IdentifierKind → String
  | .didWeb => "did:web"
  | .didKey => "did:key"
  | .lei => "lei"

/-- `ProofMethodForKind`. -/
def proofMethod : IdentifierKind → String
  | .didWeb => "did-web-sig"
  | .didKey => "did-key-sig"
  | .lei => "lei-vlei-acdc"

theorem text_injective : Function.Injective text := by
  intro a b h
  revert h
  cases a <;> cases b <;> simp [text]

end IdentifierKind

inductive IdentityStatus where
  | pendingControl
  | verified
  | revoked
deriving DecidableEq, Repr

def IdentityStatus.text : IdentityStatus → String
  | .pendingControl => "PENDING_CONTROL"
  | .verified => "VERIFIED"
  | .revoked => "REVOKED"

/-! ### Identifiers -/

def badFormat (message : String) : Error := .validation "DID_BAD_FORMAT" message

def kindUnsupported (message : String) : Error := .validation "IDENTIFIER_KIND_UNSUPPORTED" message

/-- The text after a start, for a text that has it. -/
def cutPrefix (start text : String) : Option String :=
  if start.toList.isPrefixOf text.toList then some (String.ofList (text.toList.drop start.length)) else none

def isLEI (value : String) : Bool :=
  value.toList.length = 20 && value.toList.all fun c => c.isDigit || c.isUpper || c.isLower

/-- The check of one label of a host. -/
def validateHostLabel (host : String) (label : List Char) : Except Error Unit := do
  require (label ≠ [] ∧ (String.ofList label).utf8ByteSize ≤ 63)
    (badFormat ("did:web host " ++ quoted host ++ " has an invalid label"))
  require (label.head? ≠ some '-' ∧ label.getLast? ≠ some '-')
    (badFormat ("did:web host label " ++ quoted (String.ofList label) ++ " must not start or end with '-'"))
  label.forM fun c => require (c.isLower ∨ c.isDigit ∨ c = '-')
    (badFormat ("did:web host " ++ quoted host ++ " contains invalid character '" ++ c.toString ++ "'"))

def validateDNSHost (host : String) : Except Error Unit := do
  require (host ≠ "" ∧ host.utf8ByteSize ≤ 253) (badFormat "did:web host is empty or too long")
  (host.toList.splitOn '.').forM (validateHostLabel host)

/-- The check of one path segment. -/
def validatePathSegment (segment : List Char) : Except Error Unit := do
  require (segment ≠ []) (badFormat "did:web has an empty path segment")
  require (segment ≠ ['.'] ∧ segment ≠ ['.', '.'])
    (badFormat "did:web path segments must not be '.' or '..'")
  segment.forM fun c => require (¬ (c.toNat < 0x20 ∨ c.toNat = 0x7F))
    (badFormat "did:web path segment contains a control character")

/-- `canonicalizeDIDWeb`, for the text after the method: the host in lower case, the path as it is. -/
def canonicalizeDIDWeb (rest : String) : Except Error String := do
  require (rest ≠ "") (badFormat "did:web value is empty")
  require ('%' ∉ rest.toList)
    (badFormat "did:web with percent-encoded characters (including ports, %3A) is not supported")
  require ('@' ∉ rest.toList) (badFormat "did:web must not carry userinfo")
  require ('/' ∉ rest.toList) (badFormat "did:web path segments are separated by ':' in the DID, not '/'")
  let segments := rest.toList.splitOn ':'
  let host := toLower (String.ofList (segments.headD []))
  validateDNSHost host
  segments.tail.forM validatePathSegment
  return "did:web:" ++ host ++ String.join (segments.tail.map fun segment => ":" ++ String.ofList segment)

/-- The name of a DID method: what stands before the next colon, if anything does. -/
def methodName (rest : String) : String :=
  let name := rest.toList.takeWhile (· ≠ ':')
  if name = [] then rest else String.ofList name

/-- `InferIdentifierKind`. -/
def inferIdentifierKind (raw : String) : Except Error (IdentifierKind × String) :=
  let value := trimSpace raw
  match cutPrefix "did:web:" value, cutPrefix "did:key:" value with
  | some rest, _ => do
      let canonical ← canonicalizeDIDWeb rest
      return (.didWeb, canonical)
  | none, some rest => if rest = "" then .error (badFormat "did:key value is empty") else .ok (.didKey, value)
  | none, none =>
    if isLEI value then .ok (.lei, String.ofList (value.toList.map Char.toUpper))
    else match cutPrefix "did:" value with
      | some rest => .error (kindUnsupported
          ("did method " ++ quoted (methodName rest) ++ " is not supported (supported: did:web, did:key)"))
      | none => .error (kindUnsupported
          ("identifier " ++ quoted value ++ " matches no supported kind (did:web, did:key, lei)"))

example : inferIdentifierKind " did:web:ID.Example.com:user:Al " = .ok (.didWeb, "did:web:id.example.com:user:Al") := by
  decide

example : inferIdentifierKind "did:plc:abc" =
    .error (kindUnsupported "did method \"plc\" is not supported (supported: did:web, did:key)") := by
  decide

/-! ### The aggregate -/

structure IdentityChallenge where
  nonce : String
  expiresAt : Time
  consumedAt : Option Time
deriving DecidableEq, Repr

structure VerifiedIdentity where
  identityID : String
  providerID : String
  kind : IdentifierKind
  value : String
  status : IdentityStatus
  proofMethod : String
  /-- The value a rotation is about to take, or nothing. -/
  pendingValue : String
  subjectAID : String
  pendingSubjectAID : String
  challenge : Option IdentityChallenge
deriving DecidableEq, Repr

/-- `NewVerifiedIdentity`. -/
def newVerifiedIdentity (identityID providerID rawValue : String) : Except Error VerifiedIdentity := do
  require (identityID ≠ "") (.validation "INVALID_IDENTITY_ID" "identityId is required")
  require (providerID ≠ "") (.validation "INVALID_PROVIDER_ID" "providerId is required")
  let (kind, canonical) ← inferIdentifierKind rawValue
  return {
    identityID, providerID, kind, value := canonical, status := .pendingControl, proofMethod := "", pendingValue := "",
    subjectAID := "", pendingSubjectAID := "", challenge := none }

namespace VerifiedIdentity

variable (v : VerifiedIdentity)

def issueChallenge (nonce : String) (ttl now : Time) : Except Error VerifiedIdentity := do
  require (v.status ≠ .revoked)
    (.invalidState "IDENTITY_REVOKED" "a revoked identity cannot be re-challenged")
  require (nonce ≠ "") (.validation "INVALID_CHALLENGE" "challenge nonce is required")
  require (0 < ttl) (.validation "INVALID_CHALLENGE" "challenge ttl must be positive")
  return { v with challenge := some ⟨nonce, now + ttl, none⟩ }

/-- `CheckChallenge`, with the challenge that it found. -/
def checkChallenge (now : Time) : Except Error IdentityChallenge := do
  match v.challenge with
  | none => .error (.invalidState "IDENTIFIER_CHALLENGE_EXPIRED"
      "no active challenge; re-register the identifier to receive a fresh one")
  | some challenge =>
    require (challenge.consumedAt = none)
      (.invalidState "PRICC_TOKEN_ALREADY_USED" "challenge nonce already consumed")
    require (now < challenge.expiresAt) (.invalidState "PRICC_TOKEN_EXPIRED"
      "challenge nonce expired; re-register the identifier to receive a fresh one")
    return challenge

def effectiveValue : String := if v.pendingValue ≠ "" then v.pendingValue else v.value

def effectiveSubjectAID : String := if v.pendingSubjectAID ≠ "" then v.pendingSubjectAID else v.subjectAID

def stageRotation (rawValue : String) : Except Error VerifiedIdentity := do
  require (v.status = .verified) (.invalidState "IDENTITY_NOT_VERIFIED"
    s!"rotation requires a VERIFIED identity, status is {v.status.text}")
  let (kind, canonical) ← inferIdentifierKind rawValue
  require (kind = v.kind) (.validation "IDENTIFIER_KIND_MISMATCH"
    s!"cannot rotate a {v.kind.text} identity to {kind.text}; revoke and register a new identity")
  return { v with pendingValue := canonical }

def stageSubjectAID (aid : String) : Except Error VerifiedIdentity := do
  require (aid ≠ "") (.validation "LEI_PRESENTATION_INVALID" "subject AID is required")
  return { v with pendingSubjectAID := aid }

/-- `CompleteVerification`, with the value before, if a rotation changed it. -/
def completeVerification : Except Error (VerifiedIdentity × String) := do
  let proven : VerifiedIdentity := { v with
    subjectAID := v.effectiveSubjectAID
    pendingValue := ""
    pendingSubjectAID := ""
    proofMethod := v.kind.proofMethod }
  match v.status with
  | .pendingControl => return ({ proven with status := .verified }, "")
  | .verified =>
    if v.pendingValue ≠ "" ∧ v.pendingValue ≠ v.value then return ({ proven with value := v.pendingValue }, v.value)
    else return (proven, "")
  | .revoked => .error (.invalidState "IDENTITY_REVOKED" "a revoked identity cannot be verified")

def revoke : Except Error VerifiedIdentity := do
  require (v.status = .verified) (.invalidState "IDENTITY_NOT_VERIFIED"
    s!"revocation requires a VERIFIED identity, status is {v.status.text}")
  return { v with status := .revoked, pendingValue := "", pendingSubjectAID := "", challenge := none }

end VerifiedIdentity

/-! ### What the methods keep -/

namespace VerifiedIdentity

variable {v w : VerifiedIdentity}

theorem issueChallenge_ok {nonce : String} {ttl now : Time} (h : v.issueChallenge nonce ttl now = .ok w) :
    v.status ≠ .revoked ∧ w = { v with challenge := some ⟨nonce, now + ttl, none⟩ } := by
  simp only [issueChallenge, bind_eq_ok_iff, require_eq_ok_iff, pure_eq_ok_iff] at h
  obtain ⟨_, hlive, _, _, _, _, rfl⟩ := h
  exact ⟨hlive, rfl⟩

theorem checkChallenge_eq_ok_iff {now : Time} {challenge : IdentityChallenge} : v.checkChallenge now = .ok challenge ↔
    v.challenge = some challenge ∧ challenge.consumedAt = none ∧ now < challenge.expiresAt := by
  unfold checkChallenge
  cases hchallenge : v.challenge with
  | none => simp
  | some found =>
    simp only [bind_eq_ok_iff, require_eq_ok_iff, pure_eq_ok_iff, Option.some.injEq]
    constructor
    · rintro ⟨_, hfree, _, htime, rfl⟩
      exact ⟨rfl, hfree, htime⟩
    · rintro ⟨rfl, hfree, htime⟩
      exact ⟨(), hfree, (), htime, rfl⟩

/-- A proof completes only an identity that is not revoked; it keeps whose identity it is and of which kind. -/
theorem completeVerification_ok {previous : String} (h : v.completeVerification = .ok (w, previous)) :
    v.status ≠ .revoked ∧ w.status = .verified ∧ w.identityID = v.identityID ∧ w.providerID = v.providerID ∧
      w.kind = v.kind ∧ w.pendingValue = "" ∧ w.challenge = v.challenge := by
  unfold completeVerification at h
  cases hstatus : v.status with
  | pendingControl =>
    simp only [hstatus, pure_eq_ok_iff, Prod.mk.injEq] at h
    obtain ⟨rfl, _⟩ := h
    simp
  | verified =>
    simp only [hstatus] at h
    split at h <;>
      · simp only [pure_eq_ok_iff, Prod.mk.injEq] at h
        obtain ⟨rfl, _⟩ := h
        simp
  | revoked =>
    simp only [hstatus] at h
    cases h

end VerifiedIdentity

end AgentNameService.Identity
