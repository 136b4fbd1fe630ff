/-
Purpose: What the log says of the certificates of an agent when it is asked: the status of the agent, which follows from
  when its certificates end, and the certificates and the expiry of a status token.
Source: internal/tl/service/{statustoken,envelope_wrapper,badge}.go, internal/tl/receipt/statustoken.go
Trusted boundary: human-reviewed model; an instant counts nanoseconds from Go's zero time, which stands for no time; the
  views of a sealed event are filled from its members of the same names, and lists that are empty are not written; service
  and generator read one clock; how a token is encoded and signed is left out
-/
import AgentNameService.TransparencyLog.Lifecycle

namespace AgentNameService.TransparencyLog

open List Except Json Registration

variable {claims : StatusTokenClaims} {r : List CertFingerprint × Int}

/-! ### Instants -/

/-- `ParseAttestedExpiry` as an instant; no text is the zero time. -/
def attestedExpiry (P : Primitives) (value : String) : Except String Int := (·.getD 0) <$> parseAttestedExpiry P value

/-- The instant of a text; one that cannot be read counts as none. -/
def dateOf (P : Primitives) (value : String) : Int := (attestedExpiry P value).toOption.getD 0

theorem dateOf_eq {P : Primitives} {value : String} {t : Int} (h : attestedExpiry P value = .ok t) : dateOf P value = t := by
  rw [dateOf, h]
  rfl

/-- `if !t.IsZero() && (e.IsZero() || t.Before(e)) { e = t }`. -/
def sooner (e t : Int) : Int := if t ≠ 0 ∧ (e = 0 ∨ t < e) then t else e

/-- The least of some instants, without the zero time. -/
structure Soonest (S : Int → Prop) (x : Int) : Prop where
  mem : x ≠ 0 → S x
  least : ∀ t, S t → t ≠ 0 → x ≠ 0 ∧ x ≤ t

namespace Soonest

variable {S T : Int → Prop} {x y t : Int}

theorem unique (hx : Soonest S x) (hy : Soonest S y) : x = y := by
  by_cases hzero : x = 0
  · by_contra hne
    have hy0 : y ≠ 0 := fun h => hne (hzero.trans h.symm)
    exact (hx.least y (hy.mem hy0) hy0).1 hzero
  · have hyx := hy.least x (hx.mem hzero) hzero
    exact le_antisymm (hx.least y (hy.mem hyx.1) hyx.1).2 hyx.2

theorem congr (hx : Soonest S x) (h : ∀ t, S t ↔ T t) : Soonest T x :=
  ⟨fun hne => (h x).mp (hx.mem hne), fun t ht => hx.least t ((h t).mpr ht)⟩

theorem none : Soonest (fun _ => False) 0 := ⟨fun h => absurd rfl h, nofun⟩

theorem single (t : Int) : Soonest (· = t) t := ⟨fun _ => rfl, fun _ h hne => ⟨h ▸ hne, h.ge⟩⟩

theorem union (hx : Soonest S x) (hy : Soonest T y) : Soonest (fun u => S u ∨ T u) (sooner x y) := by
  unfold sooner
  split
  · rename_i htake
    refine ⟨fun hne => .inr (hy.mem hne), ?_⟩
    rintro u (hu | hu) hne
    · have hleast := hx.least u hu hne
      exact ⟨htake.1, (htake.2.resolve_left hleast.1).le.trans hleast.2⟩
    · exact hy.least u hu hne
  · rename_i hkeep
    refine ⟨fun hne => .inl (hx.mem hne), ?_⟩
    rintro u (hu | hu) hne
    · exact hx.least u hu hne
    · have hleast := hy.least u hu hne
      have hkept : ¬(x = 0 ∨ y < x) := fun hor => hkeep ⟨hleast.1, hor⟩
      exact ⟨fun hzero => hkept (.inl hzero), (not_lt.mp fun hlt => hkept (.inr hlt)).trans hleast.2⟩

end Soonest

/-! ### The certificates of an event -/

/-- What is read of a sealed event, under the names of both lanes. -/
structure AttestedView where
  expiresAt : String := ""
  identityCerts : List CertificateInfo := []
  serverCerts : List CertificateInfo := []
  validIdentityCerts : List CertificateInfo := []
  validServerCerts : List CertificateInfo := []
  identityCert : Option V1.CertificateInfo := none
  serverCert : Option V1.CertificateInfo := none
  metadataHashes : List (String × String) := []

def Schema.attestedView : (s : Schema) → s.Event → AttestedView
  | .v2, e =>
    match e.attestations with
    | none => { expiresAt := e.expiresAt }
    | some a => { a with expiresAt := e.expiresAt }
  | .v1, e =>
    match e.attestations with
    | none => { expiresAt := e.expiresAt }
    | some a => { a with expiresAt := e.expiresAt }
  | .identity, _ => {}

def Leaf.attestedView {P : Primitives} (l : Leaf P) : AttestedView := l.schema.attestedView l.event

/-- A single certificate of a V1 event has no date. -/
def V1.CertificateInfo.undated (c : V1.CertificateInfo) : TransparencyLog.CertificateInfo := ⟨c.fingerprint, c.certType, ""⟩

/-- `certFamily`: the current name, the legacy one, or the single certificate. -/
def certFamily (current legacy : List CertificateInfo) (singleton : Option V1.CertificateInfo) : List CertificateInfo :=
  if current ≠ [] then current else if legacy ≠ [] then legacy else singleton.toList.map V1.CertificateInfo.undated

namespace AttestedView

variable (v : AttestedView)

def identity : List CertificateInfo := certFamily v.identityCerts v.validIdentityCerts v.identityCert

def server : List CertificateInfo := certFamily v.serverCerts v.validServerCerts v.serverCert

end AttestedView

/-! ### The expiry of an event -/

section Expiry

variable (P : Primitives)

/-- The checks of `parseEnvelopeWrapper`. -/
def parseEnvelopeWrapper (v : AttestedView) : Except String Unit := do
  let _ ← attestedExpiry P v.expiresAt
  [v.identityCerts, v.serverCerts, v.validIdentityCerts, v.validServerCerts].forM fun family =>
    family.forM fun cert => do
      let _ ← attestedExpiry P cert.notAfter

/-- What a certificate without a date counts with. -/
def effectiveDate (fallback : Int) (c : CertificateInfo) : Int :=
  if dateOf P c.notAfter = 0 then fallback else dateOf P c.notAfter

/-- The latest date in a family. -/
def familyExpiry (fallback : Int) (family : List CertificateInfo) : Int :=
  family.foldl (fun latest c => max latest (effectiveDate P fallback c)) 0

/-- The family that an expiry is derived from. -/
def expiryFamily (current legacy : List CertificateInfo) (singleton : Option V1.CertificateInfo) : List CertificateInfo :=
  let family := current ++ legacy
  if family = [] then singleton.toList.map V1.CertificateInfo.undated else family

/-- The earlier of the two families, each of which lasts as long as one certificate of it does. -/
def certExpiresAt (v : AttestedView) : Int :=
  let identity := expiryFamily v.identityCerts v.validIdentityCerts v.identityCert
  let server := expiryFamily v.serverCerts v.validServerCerts v.serverCert
  let fallback := dateOf P v.expiresAt
  let earliest := sooner (sooner 0 (familyExpiry P fallback identity)) (familyExpiry P fallback server)
  if earliest = 0 then fallback else earliest

end Expiry

/-! ### The status of an agent -/

inductive BadgeStatus where
  | active
  | warning
  | deprecated
  | expired
  | revoked
deriving DecidableEq, Repr

/-- `Sub`: a duration has 64 bits. -/
def durationBetween (later earlier : Int) : Int := max (-2 ^ 63) (min (later - earlier) (2 ^ 63 - 1))

def currentAgentStatus (eventType : EventType) (certExpiresAt now warningWindow : Int) : BadgeStatus :=
  if eventType = .agentRevoked then .revoked
  else if certExpiresAt ≠ 0 ∧ certExpiresAt ≤ now then .expired
  else if eventType = .agentDeprecated then .deprecated
  else if certExpiresAt ≠ 0 ∧ durationBetween certExpiresAt now < warningWindow then .warning
  else .active

def isTerminal (s : BadgeStatus) : Bool := s = .revoked ∨ s = .expired

theorem isTerminal_eq_false_iff {s : BadgeStatus} : isTerminal s = false ↔ s ≠ .revoked ∧ s ≠ .expired := by
  simp [isTerminal]

theorem isTerminal_currentAgentStatus {eventType : EventType} {expiry now warningWindow : Int} :
    isTerminal (currentAgentStatus eventType expiry now warningWindow) = false ↔
      eventType ≠ .agentRevoked ∧ (expiry ≠ 0 → now < expiry) := by
  unfold currentAgentStatus
  split_ifs <;> simp_all [isTerminal]

/-! ### The content of a token -/

structure CertFingerprint where
  fingerprint : String
  certType : String
deriving DecidableEq, Repr

structure AttestedCertificate where
  certType : String
  expiry : Int
deriving DecidableEq, Repr

/-- The variables of the loop of `currentCertFingerprints`. -/
structure Scan where
  out : List CertFingerprint := []
  earliest : Int := 0
  seen : List (String × AttestedCertificate) := []

/-- The second part of a round: a certificate that was not seen before. -/
def Scan.note (now : Int) (s : Scan) (fp : String) (c : AttestedCertificate) : Scan :=
  let seen := (fp, c) :: s.seen
  if c.expiry ≠ 0 ∧ c.expiry ≤ now then { s with seen }
  else { out := s.out ++ [⟨fp, c.certType⟩], earliest := sooner s.earliest c.expiry, seen }

/-- One round of the loop. -/
def Scan.step (P : Primitives) (now : Int) (s : Scan) (cert : CertificateInfo) : Except String Scan :=
  if cert.fingerprint = "" then .ok s
  else do
    let expiry ← (attestedExpiry P cert.notAfter).withContext "invalid certificate notAfter"
    match s.seen.lookup cert.fingerprint with
    | some prior => do
      require (prior.certType = cert.certType ∧ prior.expiry = expiry)
        ("conflicting attestations for certificate fingerprint " ++ quoted cert.fingerprint)
      return s
    | none => return s.note now cert.fingerprint ⟨cert.certType, expiry⟩

def currentCertFingerprints (P : Primitives) (certs : List CertificateInfo) (now : Int) :
    Except String (List CertFingerprint × Int) := do
  let s ← certs.foldlM (Scan.step P now) {}
  return (s.out, s.earliest)

/-- `extractMetadataHashes`. -/
def extractMetadataHashes (hashes : List (String × String)) : List (String × String) := hashes.filter (·.2 ≠ "")

structure StatusTokenClaims where
  agentID : String
  ansName : String
  status : BadgeStatus
  validIdentityCerts : List CertFingerprint
  validServerCerts : List CertFingerprint
  metadataHashes : List (String × String)
  validUntil : Int

def buildStatusClaimsAt {P : Primitives} (rec : EventRecord P) (v : AttestedView) (status : BadgeStatus) (now : Int) :
    Except String StatusTokenClaims := do
  let identity ← currentCertFingerprints P v.identity now
  let server ← currentCertFingerprints P v.server now
  return {
    agentID := rec.agentID, ansName := rec.ansName, status, validIdentityCerts := identity.1, validServerCerts := server.1,
    metadataHashes := extractMetadataHashes v.metadataHashes, validUntil := sooner identity.2 server.2 }

theorem buildStatusClaimsAt_eq_ok_iff {P : Primitives} {rec : EventRecord P} {v : AttestedView} {status : BadgeStatus}
    {now : Int} : buildStatusClaimsAt rec v status now = .ok claims ↔ ∃ identity server,
      currentCertFingerprints P v.identity now = .ok identity ∧ currentCertFingerprints P v.server now = .ok server ∧
      claims = ⟨rec.agentID, rec.ansName, status, identity.1, server.1, extractMetadataHashes v.metadataHashes,
        sooner identity.2 server.2⟩ := by
  simp only [buildStatusClaimsAt, bind_eq_ok_iff, pure_eq_ok_iff, eq_comm (b := claims), exists_and_left]

/-- Seconds since 1970. -/
def unix (t : Int) : Int := t / 10 ^ 9 - 62135596800

/-- The instant of a number of seconds. -/
def ofUnix (seconds : Int) : Int := (seconds + 62135596800) * 10 ^ 9

structure StatusTokenPayload where
  agentID : String
  status : BadgeStatus
  iat : Int
  exp : Int
  ansName : String
  validIdentityCerts : List CertFingerprint
  validServerCerts : List CertFingerprint
  metadataHashes : List (String × String)

/-- The payload that `GenerateStatusToken` encodes and signs. -/
def generateStatusToken (now ttl : Int) (claims : StatusTokenClaims) : Except String StatusTokenPayload := do
  let expires := if claims.validUntil ≠ 0 ∧ claims.validUntil < now + ttl then claims.validUntil else now + ttl
  require (unix now < unix expires) "status-token: claims have no remaining validity"
  return { claims with iat := unix now, exp := unix expires }

/-- `ForAgent`, once the latest event of the agent is found. -/
def forAgent {P : Primitives} (rec : EventRecord P) (v : AttestedView) (now ttl : Int) :
    Except String StatusTokenPayload := do
  parseEnvelopeWrapper P v
  let status := currentAgentStatus rec.eventType (certExpiresAt P v) now (30 * 24 * 3600 * 10 ^ 9)
  require (isTerminal status = false) "tl: status tokens are not issued for terminal-state agents"
  let claims ← (buildStatusClaimsAt rec v status now).withContext "status-token: build claims"
  let claims := { claims with validUntil := sooner claims.validUntil (certExpiresAt P v) }
  (generateStatusToken now ttl claims).withContext "status-token: generate"

/-! ### What a token lists -/

abbrev Entry := String × AttestedCertificate

/-- A certificate that has not ended, or of which it is not known when it does. -/
def Entry.Current (now : Int) (e : Entry) : Prop := e.1 ≠ "" ∧ (e.2.expiry = 0 ∨ now < e.2.expiry)

def Entry.print (e : Entry) : CertFingerprint := ⟨e.1, e.2.certType⟩

/-- No fingerprint stands for two certificates. -/
def Agree (es : List Entry) : Prop := ∀ a ∈ es, ∀ b ∈ es, a.1 ≠ "" → a.1 = b.1 → a = b

/-- The certificates that are listed, and the first end of one of them. -/
structure Lists (now : Int) (es : List Entry) (r : List CertFingerprint × Int) : Prop where
  out : ∀ f, f ∈ r.1 ↔ ∃ e ∈ es, Entry.Current now e ∧ f = Entry.print e
  earliest : Soonest (fun t => ∃ e ∈ es, Entry.Current now e ∧ t = e.2.expiry) r.2

/-- The loop after some certificates. -/
structure Scan.Holds (now : Int) (es : List Entry) (s : Scan) : Prop extends Lists now es (s.out, s.earliest) where
  seen : ∀ fp a, s.seen.lookup fp = some a ↔ (fp, a) ∈ es ∧ fp ≠ ""

section Scan

variable {P : Primitives} {now : Int} {es : List Entry} {s s' : Scan} {e : Entry} {c : CertificateInfo}

/-- What the loop keeps of a certificate. -/
def entryOf (P : Primitives) (c : CertificateInfo) : Entry := (c.fingerprint, ⟨c.certType, dateOf P c.notAfter⟩)

namespace Scan.Holds

theorem empty : Holds now [] {} where
  seen := by simp
  out := by simp
  earliest := Soonest.none.congr (by simp)

theorem agree (h : Holds now es s) : Agree es := by
  intro a ha b hb hne heq
  have hseenA := (h.seen a.1 a.2).mpr ⟨ha, hne⟩
  have hseenB := (h.seen a.1 b.2).mpr ⟨heq ▸ hb, hne⟩
  exact Prod.ext heq (Option.some.inj (hseenA.symm.trans hseenB))

/-- A certificate that adds nothing. -/
theorem skip (h : Holds now es s) (he : e ∈ es ∨ e.1 = "") : Holds now (es ++ [e]) s := by
  have hexists {Q : Entry → Prop} (hQ : Q e → e.1 ≠ "") : (∃ x ∈ es, Q x) ↔ ∃ x ∈ es ++ [e], Q x := by
    have hold : Q e → ∃ x ∈ es, Q x := fun hq => ⟨e, he.resolve_right (hQ hq), hq⟩
    simpa [or_and_right, exists_or] using hold
  constructor
  · exact ⟨fun f => (h.out f).trans (hexists fun hq => hq.1.1), h.earliest.congr fun t => hexists fun hq => hq.1.1⟩
  · intro fp a
    rw [h.seen, mem_append, mem_singleton]
    constructor
    · exact fun hmem => ⟨.inl hmem.1, hmem.2⟩
    · rintro ⟨hmem | rfl, hne⟩
      · exact ⟨hmem, hne⟩
      · exact ⟨he.resolve_right hne, hne⟩

/-- A certificate that was not seen before. -/
theorem note (h : Holds now es s) (hne : e.1 ≠ "") (hnew : s.seen.lookup e.1 = none) :
    Holds now (es ++ [e]) (s.note now e.1 e.2) := by
  have hseen (fp : String) (a : AttestedCertificate) : ((e.1, e.2) :: s.seen).lookup fp = some a ↔
      (fp, a) ∈ es ++ [e] ∧ fp ≠ "" := by
    rw [lookup_cons, mem_append, mem_singleton, or_and_right, ← h.seen]
    by_cases hfp : fp = e.1
    · subst hfp
      simp [hnew, hne, Prod.ext_iff, eq_comm]
    · have hbeq : (fp == e.1) = false := beq_false_of_ne hfp
      simp [hbeq, hfp, Prod.ext_iff]
  unfold Scan.note
  split
  · rename_i hended
    have hnot : ¬Entry.Current now e := fun hcurrent => hcurrent.2.elim hended.1 (not_lt.mpr hended.2)
    refine ⟨⟨?_, h.earliest.congr (by simp [or_and_right, exists_or, hnot])⟩, hseen⟩
    simpa [or_and_right, exists_or, hnot] using h.out
  · rename_i hends
    have hcurrent : Entry.Current now e := ⟨hne, by omega⟩
    refine ⟨⟨?_, (h.earliest.union (.single _)).congr (by simp [or_and_right, exists_or, hcurrent])⟩, hseen⟩
    intro f
    have hout := h.out f
    simp only [mem_append, mem_singleton, or_and_right, exists_or, exists_eq_left, hcurrent, true_and] at hout ⊢
    rw [hout]
    rfl

/-- A round goes on unless another certificate was seen under the same fingerprint. -/
theorem step (h : Holds now es s) {t : Int} (ht : attestedExpiry P c.notAfter = .ok t) :
    (∃ s', s.step P now c = .ok s' ∧ Holds now (es ++ [entryOf P c]) s') ∨
      (∃ text, s.step P now c = .error text) ∧ ¬Agree (es ++ [entryOf P c]) := by
  have hentry : entryOf P c = (c.fingerprint, ⟨c.certType, t⟩) := by rw [entryOf, dateOf_eq ht]
  rw [hentry]
  unfold Scan.step
  rw [ht]
  split
  · rename_i hempty
    exact .inl ⟨s, rfl, h.skip (.inr hempty)⟩
  · rename_i hne
    cases hprior : s.seen.lookup c.fingerprint with
    | none => exact .inl ⟨_, rfl, h.note hne hprior⟩
    | some prior =>
      have hmem := ((h.seen _ _).mp hprior).1
      let next (checked : Except String Unit) : Except String Scan := checked >>= fun _ => pure s
      by_cases heq : prior.certType = c.certType ∧ prior.expiry = t
      · refine .inl ⟨s, congrArg next (if_pos heq), h.skip (.inl ?_)⟩
        rwa [← heq.1, ← heq.2]
      · refine .inr ⟨⟨_, congrArg next (if_neg heq)⟩, ?_⟩
        · intro hagree
          have hsame := hagree _ (mem_append_left _ hmem) _ (mem_append_right _ mem_cons_self) hne rfl
          rw [Prod.mk.injEq] at hsame
          exact heq ⟨congrArg AttestedCertificate.certType hsame.2, congrArg AttestedCertificate.expiry hsame.2⟩

theorem foldlM {certs : List CertificateInfo} (h : Holds now es s)
    (hread : ∀ c ∈ certs, ∃ t, attestedExpiry P c.notAfter = .ok t) :
    (∃ s', certs.foldlM (Scan.step P now) s = .ok s' ∧ Holds now (es ++ certs.map (entryOf P)) s') ∨
      (∃ text, certs.foldlM (Scan.step P now) s = .error text) ∧ ¬Agree (es ++ certs.map (entryOf P)) := by
  induction certs generalizing es s with
  | nil => exact .inl ⟨s, rfl, by simpa using h⟩
  | cons c rest ih =>
    obtain ⟨t, ht⟩ := hread c mem_cons_self
    rw [foldlM_cons, map_cons, append_cons]
    rcases h.step ht with ⟨s', hstep, hnext⟩ | ⟨⟨text, hstep⟩, hconflict⟩
    · rw [hstep]
      exact ih hnext fun x hx => hread x (mem_cons_of_mem c hx)
    · refine .inr ⟨⟨text, by rw [hstep]; rfl⟩, fun hagree => hconflict ?_⟩
      exact fun a ha b hb => hagree a (mem_append_left _ ha) b (mem_append_left _ hb)

end Scan.Holds

/-- What is listed of certificates whose dates can be read depends on which certificates there are, and on nothing
else. -/
theorem currentCertFingerprints_spec {certs : List CertificateInfo} (now : Int)
    (hread : ∀ c ∈ certs, ∃ t, attestedExpiry P c.notAfter = .ok t) :
    ((∃ r, currentCertFingerprints P certs now = .ok r) ↔ Agree (certs.map (entryOf P))) ∧
      ∀ r, currentCertFingerprints P certs now = .ok r → Lists now (certs.map (entryOf P)) r := by
  unfold currentCertFingerprints
  rcases Scan.Holds.empty.foldlM hread with ⟨s, hs, hholds⟩ | ⟨⟨text, hs⟩, hconflict⟩
  · rw [hs]
    exact ⟨iff_of_true ⟨_, rfl⟩ hholds.agree, by rintro _ ⟨⟩; exact hholds.toLists⟩
  · rw [hs]
    exact ⟨iff_of_false nofun hconflict, nofun⟩

theorem Lists.unique {r' : List CertFingerprint × Int} (h : Lists now es r) (h' : Lists now es r') :
    (∀ f, f ∈ r.1 ↔ f ∈ r'.1) ∧ r.2 = r'.2 :=
  ⟨fun f => (h.out f).trans (h'.out f).symm, h.earliest.unique h'.earliest⟩

end Scan

/-! ### When an event ends -/

section Ends

variable {P : Primitives} {v : AttestedView} {family : List CertificateInfo} {c : CertificateInfo}

/-- The two families of an event. -/
def AttestedView.Family (v : AttestedView) (family : List CertificateInfo) : Prop := family = v.identity ∨ family = v.server

/-- When a certificate of an event ends. -/
abbrev AttestedView.endOf (P : Primitives) (v : AttestedView) (c : CertificateInfo) : Int :=
  effectiveDate P (dateOf P v.expiresAt) c

/-- When a family of an event ends. -/
abbrev AttestedView.familyEnd (P : Primitives) (v : AttestedView) (family : List CertificateInfo) : Int :=
  familyExpiry P (dateOf P v.expiresAt) family

theorem familyEnd_spec (P : Primitives) (v : AttestedView) (family : List CertificateInfo) :
    0 ≤ v.familyEnd P family ∧ (∀ c ∈ family, v.endOf P c ≤ v.familyEnd P family) ∧
      (v.familyEnd P family ≠ 0 → ∃ c ∈ family, v.familyEnd P family = v.endOf P c) := by
  unfold AttestedView.familyEnd familyExpiry
  induction family using reverseRecOn with
  | nil => simp
  | append_singleton rest c ih =>
    obtain ⟨hpos, hbound, hmem⟩ := ih
    rw [foldl_append, foldl_cons, foldl_nil, forall_mem_append, forall_mem_singleton]
    simp only [mem_append, mem_singleton, or_and_right, exists_or, exists_eq_left]
    refine ⟨hpos.trans (le_max_left _ _), ⟨fun x hx => (hbound x hx).trans (le_max_left _ _), le_max_right _ _⟩, ?_⟩
    intro hne
    rcases max_choice (rest.foldl (fun latest c => max latest (v.endOf P c)) 0)
      (v.endOf P c) with hold | hnew
    · rw [hold] at hne ⊢
      exact .inl (hmem hne)
    · exact .inr hnew

/-- The lists of the two lanes do not occur together. -/
structure AttestedView.OneLane (v : AttestedView) : Prop where
  identity : v.identityCerts = [] ∨ v.validIdentityCerts = []
  server : v.serverCerts = [] ∨ v.validServerCerts = []

theorem expiryFamily_eq {current legacy : List CertificateInfo} {singleton : Option V1.CertificateInfo}
    (h : current = [] ∨ legacy = []) : expiryFamily current legacy singleton = certFamily current legacy singleton := by
  unfold expiryFamily certFamily
  rcases h with rfl | rfl <;> split_ifs <;> simp_all

/-- An event ends when the first of its families does, or when it says so itself. -/
theorem certExpiresAt_spec (hlane : v.OneLane) : ∃ earliest, Soonest (fun t => t = v.familyEnd P v.identity ∨
      t = v.familyEnd P v.server) earliest ∧
      certExpiresAt P v = if earliest = 0 then dateOf P v.expiresAt else earliest := by
  have hboth {s t : Int} : Soonest (fun u => u = s ∨ u = t) (sooner (sooner 0 s) t) :=
    ((Soonest.none.union (.single s)).union (.single t)).congr fun _ => by simp
  refine ⟨_, hboth, ?_⟩
  unfold certExpiresAt
  rw [expiryFamily_eq hlane.identity, expiryFamily_eq hlane.server]
  rfl

/-- It does not outlast either family. -/
theorem certExpiresAt_le (hlane : v.OneLane) (hfamily : v.Family family) (hc : c ∈ family) (hpos : 0 < v.endOf P c) :
    certExpiresAt P v ≠ 0 ∧ ∃ c ∈ family, certExpiresAt P v ≤ v.endOf P c := by
  obtain ⟨_, hbound, hmem⟩ := familyEnd_spec P v family
  have hne : v.familyEnd P family ≠ 0 := (hpos.trans_le (hbound c hc)).ne'
  obtain ⟨earliest, hearliest, hexpiry⟩ := certExpiresAt_spec hlane
  have hleast := hearliest.least (v.familyEnd P family)
    (hfamily.imp (congrArg _) (congrArg _)) hne
  obtain ⟨last, hlast, hdate⟩ := hmem hne
  rw [hexpiry, if_neg hleast.1]
  exact ⟨hleast.1, last, hlast, hdate ▸ hleast.2⟩

/-- The families of an event whose dates were read. -/
theorem lists_of_parse (h : parseEnvelopeWrapper P v = .ok ()) (hfamily : v.Family family) (now : Int) :
    ((∃ r, currentCertFingerprints P family now = .ok r) ↔ Agree (family.map (entryOf P))) ∧
      ∀ r, currentCertFingerprints P family now = .ok r → Lists now (family.map (entryOf P)) r := by
  have hcerts {current legacy : List CertificateInfo} {singleton : Option V1.CertificateInfo}
      (hcurrent : ∀ c ∈ current, ∃ t, attestedExpiry P c.notAfter = .ok t)
      (hlegacy : ∀ c ∈ legacy, ∃ t, attestedExpiry P c.notAfter = .ok t) :
      ∀ c ∈ certFamily current legacy singleton, ∃ t, attestedExpiry P c.notAfter = .ok t := by
    unfold certFamily
    split_ifs
    · exact hcurrent
    · exact hlegacy
    · rw [forall_mem_map]
      exact fun c _ => ⟨0, rfl⟩
  simp only [parseEnvelopeWrapper, bind_eq_ok_iff, forM_eq_ok_iff, forall_mem_cons, pure_eq_ok_iff,
    and_true] at h
  obtain ⟨_, _, hidentity, hserver, hlegacyIdentity, hlegacyServer, _⟩ := h
  refine currentCertFingerprints_spec now ?_
  rcases hfamily with rfl | rfl
  · exact hcerts hidentity hlegacyIdentity
  · exact hcerts hserver hlegacyServer

/-- The dates of an event were checked when it was admitted. -/
theorem Leaf.parseEnvelopeWrapper_eq (l : Leaf P) : parseEnvelopeWrapper P l.attestedView = .ok () := by
  have hdate {value : String} : (∃ t, parseAttestedExpiry P value = .ok t) → ∃ t, attestedExpiry P value = .ok t := by
    rintro ⟨t, ht⟩
    exact ⟨t.getD 0, by rw [attestedExpiry, ht]; rfl⟩
  simp only [parseEnvelopeWrapper, bind_eq_ok_iff, forM_eq_ok_iff, forall_mem_cons,
    pure_eq_ok_iff, and_true]
  obtain ⟨s, e, _, _, _, _, hvalid, _⟩ := l
  cases s with
  | identity => exact ⟨0, rfl, by simp [Leaf.attestedView, Schema.attestedView]⟩
  | v2 =>
    simp only [Schema.validate, Event.validate, bind_eq_ok_iff] at hvalid
    obtain ⟨_, _, _, _, _, _, _, _, _, _, t, hexpires, hcerts⟩ := hvalid
    obtain ⟨t', ht'⟩ := hdate ⟨t, hexpires⟩
    obtain ⟨_, _, _, _, _ | a, _⟩ := e
    · exact ⟨t', ht', by simp [Leaf.attestedView, Schema.attestedView]⟩
    · simp only [validateCertificates, bind_eq_ok_iff, forM_eq_ok_iff, pure_eq_ok_iff, and_true] at hcerts
      obtain ⟨_, hidentity, hserver⟩ := hcerts
      exact ⟨t', ht', fun c hc => hdate (hidentity c hc), fun c hc => hdate (hserver c hc), forall_mem_nil _,
        forall_mem_nil _, forall_mem_nil _⟩
  | v1 =>
    simp only [Schema.validate, V1.Event.validate, bind_eq_ok_iff] at hvalid
    obtain ⟨_, _, _, _, _, _, _, _, _, _, t, hexpires, hcerts⟩ := hvalid
    obtain ⟨t', ht'⟩ := hdate ⟨t, hexpires⟩
    obtain ⟨_, _, _, _, _ | a, _⟩ := e
    · exact ⟨t', ht', by simp [Leaf.attestedView, Schema.attestedView]⟩
    · simp only [validateCertificates, bind_eq_ok_iff, forM_eq_ok_iff, pure_eq_ok_iff, and_true] at hcerts
      obtain ⟨_, hidentity, hserver⟩ := hcerts
      exact ⟨t', ht', forall_mem_nil _, forall_mem_nil _, fun c hc => hdate (hidentity c hc),
        fun c hc => hdate (hserver c hc), forall_mem_nil _⟩

theorem Leaf.oneLane (l : Leaf P) : l.attestedView.OneLane := by
  obtain ⟨s, e, _⟩ := l
  cases s with
  | identity => exact ⟨.inl rfl, .inl rfl⟩
  | v2 => obtain ⟨_, _, _, _, _ | a, _⟩ := e <;> exact ⟨.inr rfl, .inr rfl⟩
  | v1 => obtain ⟨_, _, _, _, _ | a, _⟩ := e <;> exact ⟨.inl rfl, .inl rfl⟩

theorem certExpiresAt_ne_zero (hlane : v.OneLane) (hexpires : dateOf P v.expiresAt ≠ 0) : certExpiresAt P v ≠ 0 := by
  obtain ⟨earliest, _, hexpiry⟩ := certExpiresAt_spec hlane
  rw [hexpiry]
  split <;> assumption

/-! ### A token agrees with the badge -/

/-- A certificate with a fingerprint and a date. -/
def WellFormed (P : Primitives) (c : CertificateInfo) : Prop :=
  c.fingerprint ≠ "" ∧ c.notAfter ≠ "" ∧ ∃ t, P.parseTime c.notAfter = .ok t

theorem WellFormed.readable (h : WellFormed P c) : ∃ t, attestedExpiry P c.notAfter = .ok t := by
  obtain ⟨_, hne, t, ht⟩ := h
  exact ⟨t, by simp [attestedExpiry, parseAttestedExpiry, hne, ht, withContext]⟩

/-- The same outcome, the same fingerprints, the same expiry. -/
structure SameContent (x y : Except String (List CertFingerprint × Int)) : Prop where
  outcome : (∃ r, x = .ok r) ↔ ∃ r, y = .ok r
  content : ∀ r r', x = .ok r → y = .ok r' → (∀ f, f ∈ r.1 ↔ f ∈ r'.1) ∧ r.2 = r'.2

/-- The content of a token does not depend on the order of the certificates, nor on how often each is repeated. -/
def OrderIndependent (P : Primitives) : Prop :=
  ∀ (now : Int) (certs certs' : List CertificateInfo), (∀ c ∈ certs, WellFormed P c) → (∀ c, c ∈ certs ↔ c ∈ certs') →
    SameContent (currentCertFingerprints P certs now) (currentCertFingerprints P certs' now)

theorem orderIndependent (P : Primitives) : OrderIndependent P := by
  intro now certs certs' hwell hsame
  have hentries (e : Entry) : e ∈ certs.map (entryOf P) ↔ e ∈ certs'.map (entryOf P) := by simp [hsame]
  have hagree : Agree (certs.map (entryOf P)) ↔ Agree (certs'.map (entryOf P)) := by simp only [Agree, hentries]
  have hlists {r : List CertFingerprint × Int} (h : Lists now (certs.map (entryOf P)) r) :
      Lists now (certs'.map (entryOf P)) r := ⟨by simpa only [hentries] using h.out, by simpa only [hentries] using h.earliest⟩
  obtain ⟨hok, hspec⟩ := currentCertFingerprints_spec now fun c hc => (hwell c hc).readable
  obtain ⟨hok', hspec'⟩ := currentCertFingerprints_spec now fun c hc => (hwell c ((hsame c).mpr hc)).readable
  exact ⟨hok.trans (hagree.trans hok'.symm), fun r r' hr hr' => (hlists (hspec r hr)).unique (hspec' r' hr')⟩

/-- The states in which an agent is served. -/
def BadgeStatus.Live (s : BadgeStatus) : Prop := s = .active ∨ s = .warning ∨ s = .deprecated

theorem BadgeStatus.live_iff {s : BadgeStatus} : s.Live ↔ isTerminal s = false := by
  cases s <;> simp [Live, isTerminal]

/-- As long as the badge says that the agent is served, every family of certificates is represented in the token, unless
a fingerprint stands for two certificates. -/
def FamiliesListed (P : Primitives) : Prop :=
  ∀ (l : Leaf P) (index : Nat) (now warningWindow : Int) (status : BadgeStatus),
    (∀ c ∈ l.attestedView.identity ++ l.attestedView.server, WellFormed P c ∧ 0 < dateOf P c.notAfter) →
    (currentAgentStatus l.eventType (certExpiresAt P l.attestedView) now warningWindow).Live →
    (¬Agree (l.attestedView.identity.map (entryOf P)) ∨ ¬Agree (l.attestedView.server.map (entryOf P))) ∨
      ∃ claims, buildStatusClaimsAt (l.row index) l.attestedView status now = .ok claims ∧
        (l.attestedView.identity ≠ [] → claims.validIdentityCerts ≠ []) ∧
        (l.attestedView.server ≠ [] → claims.validServerCerts ≠ [])

/-- A family of an event that has not ended has a certificate that has not. -/
theorem exists_current (hlane : v.OneLane) (hfamily : v.Family family)
    (hwell : ∀ c ∈ family, WellFormed P c ∧ 0 < dateOf P c.notAfter) {now : Int}
    (hlive : certExpiresAt P v ≠ 0 → now < certExpiresAt P v)
    (hr : Lists now (family.map (entryOf P)) r) (hne : family ≠ []) : r.1 ≠ [] := by
  have hdated {c : CertificateInfo} (hc : c ∈ family) : v.endOf P c = dateOf P c.notAfter :=
    if_neg (hwell c hc).2.ne'
  obtain ⟨first, hfirst⟩ := exists_mem_of_ne_nil family hne
  obtain ⟨hexpires, last, hlast, hle⟩ := certExpiresAt_le hlane hfamily hfirst (hdated hfirst ▸ (hwell first hfirst).2)
  rw [hdated hlast] at hle
  have hcurrent : Entry.Current now (entryOf P last) := ⟨(hwell last hlast).1.1, .inr ((hlive hexpires).trans_le hle)⟩
  exact ne_nil_of_mem ((hr.out _).mpr ⟨_, mem_map_of_mem hlast, hcurrent, rfl⟩)

theorem familiesListed (P : Primitives) : FamiliesListed P := by
  intro l index now warningWindow status hwell hlive
  rw [BadgeStatus.live_iff, isTerminal_currentAgentStatus] at hlive
  rw [forall_mem_append] at hwell
  obtain ⟨hok, hspec⟩ := currentCertFingerprints_spec now fun c hc => (hwell.1 c hc).1.readable
  obtain ⟨hok', hspec'⟩ := currentCertFingerprints_spec now fun c hc => (hwell.2 c hc).1.readable
  refine or_iff_not_imp_left.mpr fun hagree => ?_
  rw [not_or, not_not, not_not, ← hok, ← hok'] at hagree
  obtain ⟨⟨r, hr⟩, r', hr'⟩ := hagree
  exact ⟨_, buildStatusClaimsAt_eq_ok_iff.mpr ⟨r, r', hr, hr', rfl⟩,
    exists_current l.oneLane (.inl rfl) hwell.1 hlive.2 (hspec r hr),
    exists_current l.oneLane (.inr rfl) hwell.2 hlive.2 (hspec' r' hr')⟩

end Ends

/-! ### A token ends before its certificates -/

section Token

variable {P : Primitives} {v : AttestedView} {now ttl : Int} {rec : EventRecord P} {payload : StatusTokenPayload}

theorem forAgent_eq_ok_iff : forAgent rec v now ttl = .ok payload ↔ parseEnvelopeWrapper P v = .ok () ∧
    ∃ status, status = currentAgentStatus rec.eventType (certExpiresAt P v) now (30 * 24 * 3600 * 10 ^ 9) ∧
      isTerminal status = false ∧ ∃ identity server, currentCertFingerprints P v.identity now = .ok identity ∧
      currentCertFingerprints P v.server now = .ok server ∧
      generateStatusToken now ttl ⟨rec.agentID, rec.ansName, status, identity.1, server.1,
        extractMetadataHashes v.metadataHashes, sooner (sooner identity.2 server.2) (certExpiresAt P v)⟩ = .ok payload := by
  simp only [forAgent, bind_eq_ok_iff, require_eq_ok_iff, withContext_eq_ok_iff,
    buildStatusClaimsAt_eq_ok_iff, exists_const, exists_eq_left]
  constructor
  · rintro ⟨_, hparse, hlive, _, ⟨identity, server, hidentity, hserver, rfl⟩, hgenerate⟩
    exact ⟨hparse, hlive, identity, server, hidentity, hserver, hgenerate⟩
  · rintro ⟨hparse, hlive, identity, server, hidentity, hserver, hgenerate⟩
    exact ⟨(), hparse, hlive, _, ⟨identity, server, hidentity, hserver, rfl⟩, hgenerate⟩

/-- The end of a token: its time to live, or what its claims are limited by. -/
def tokenEnd (now ttl : Int) (validUntil : Int) : Int :=
  if validUntil ≠ 0 ∧ validUntil < now + ttl then validUntil else now + ttl

theorem generateStatusToken_eq_ok_iff : generateStatusToken now ttl claims = .ok payload ↔
    unix now < unix (tokenEnd now ttl claims.validUntil) ∧
      payload = { claims with iat := unix now, exp := unix (tokenEnd now ttl claims.validUntil) } := by
  simp only [generateStatusToken, bind_eq_ok_iff, require_eq_ok_iff, pure_eq_ok_iff, exists_const,
    eq_comm (b := payload)]
  rfl

/-- A token ends after it is issued, and not after what its claims are limited by. -/
theorem generateStatusToken_spec (h : generateStatusToken now ttl claims = .ok payload) :
    now < ofUnix payload.exp ∧ (claims.validUntil ≠ 0 → ofUnix payload.exp ≤ claims.validUntil) ∧
      payload.status = claims.status ∧ payload.validIdentityCerts = claims.validIdentityCerts ∧
      payload.validServerCerts = claims.validServerCerts := by
  obtain ⟨hafter, rfl⟩ := generateStatusToken_eq_ok_iff.mp h
  refine ⟨?_, ?_, rfl, rfl, rfl⟩
  · simp only [unix, ofUnix] at hafter ⊢
    omega
  · intro hne
    simp only [tokenEnd, unix, ofUnix]
    split <;> omega

/-- Every listed certificate whose end is known ends after the token. -/
def Within (P : Primitives) (v : AttestedView) (now : Int) (payload : StatusTokenPayload) (family : List CertificateInfo)
    (listed : List CertFingerprint) : Prop :=
  ∀ c ∈ family, c.fingerprint ≠ "" → Entry.print (entryOf P c) ∈ listed → v.endOf P c ≠ 0 →
    now < v.endOf P c ∧ ofUnix payload.exp ≤ v.endOf P c

/-- A token of an agent that is served, and that does not outlive its certificates. -/
structure TokenSound (P : Primitives) (v : AttestedView) (now : Int) (payload : StatusTokenPayload) : Prop where
  served : payload.status ≠ .revoked ∧ payload.status ≠ .expired
  identity : Within P v now payload v.identity payload.validIdentityCerts
  server : Within P v now payload v.server payload.validServerCerts

/-- The families end no later than the event says, to the second. -/
def BoundedByEvent (P : Primitives) (v : AttestedView) : Prop :=
  (∃ family, v.Family family ∧ (∃ c ∈ family, 0 < v.endOf P c) ∧
    ∀ c ∈ family, unix (v.endOf P c) ≤ unix (dateOf P v.expiresAt)) ∨
  ∀ family, v.Family family → ∀ c ∈ family, v.endOf P c ≤ 0

theorem unix_mono {s t : Int} (h : s ≤ t) : unix s ≤ unix t := by
  unfold unix
  omega

theorem boundedByEvent_iff (hlane : v.OneLane) :
    BoundedByEvent P v ↔ unix (certExpiresAt P v) ≤ unix (dateOf P v.expiresAt) := by
  obtain ⟨earliest, hearliest, hexpiry⟩ := certExpiresAt_spec hlane
  have hfirst (hne : earliest ≠ 0) : ∃ family, v.Family family ∧ earliest = v.familyEnd P family :=
    (hearliest.mem hne).elim (fun h => ⟨_, .inl rfl, h⟩) fun h => ⟨_, .inr rfl, h⟩
  constructor
  · rintro (⟨family, hfamily, ⟨c, hc, hpos⟩, hall⟩ | hnone)
    · obtain ⟨_, last, hlast, hle⟩ := certExpiresAt_le hlane hfamily hc hpos
      exact (unix_mono hle).trans (hall last hlast)
    · have hzero : earliest = 0 := by
        by_contra hne
        obtain ⟨family, hfamily, rfl⟩ := hfirst hne
        obtain ⟨hnonneg, _, hmem⟩ := familyEnd_spec P v family
        obtain ⟨c, hc, hdate⟩ := hmem hne
        exact hne (le_antisymm (hdate ▸ hnone family hfamily c hc) hnonneg)
      rw [hexpiry, if_pos hzero]
  · intro hle
    by_cases hzero : earliest = 0
    · refine .inr fun family hfamily c hc => not_lt.mp fun hpos => ?_
      have hbound := (familyEnd_spec P v family).2.1 c hc
      exact (hearliest.least _ (hfamily.imp (congrArg _) (congrArg _)) (hpos.trans_le hbound).ne').1 hzero
    · obtain ⟨family, hfamily, hfirst⟩ := hfirst hzero
      obtain ⟨hnonneg, hbound, hmem⟩ := familyEnd_spec P v family
      obtain ⟨c, hc, hdate⟩ := hmem (hfirst ▸ hzero)
      rw [hexpiry, if_neg hzero, hfirst] at hle
      refine .inl ⟨family, hfamily, ⟨c, hc, hdate ▸ hnonneg.lt_of_ne (hfirst ▸ Ne.symm hzero)⟩, ?_⟩
      exact fun c hc => (unix_mono (hbound c hc)).trans hle

/-- A listed certificate with a date has not ended, and bounds the token. -/
theorem dated_of_listed {family : List CertificateInfo} {c : CertificateInfo}
    (hr : Lists now (family.map (entryOf P)) r) (hagree : Agree (family.map (entryOf P))) (hc : c ∈ family)
    (hne : c.fingerprint ≠ "") (hlisted : Entry.print (entryOf P c) ∈ r.1) :
    ∃ e ∈ family.map (entryOf P), Entry.Current now e ∧ dateOf P c.notAfter = e.2.expiry := by
  obtain ⟨e, he, hcurrent, hprint⟩ := (hr.out _).mp hlisted
  have hsame := hagree _ (mem_map_of_mem hc) e he hne (congrArg CertFingerprint.fingerprint hprint)
  exact ⟨e, he, hcurrent, congrArg (·.2.expiry) hsame⟩

/-- The condition under which a token does not outlive what it lists: no certificate without a date is listed, or the
event does not end before its families. -/
def TokenBound (P : Primitives) (v : AttestedView) : Prop :=
  dateOf P v.expiresAt = 0 ∨ BoundedByEvent P v ∨
    ∀ family, v.Family family → ∀ c ∈ family, c.fingerprint ≠ "" → dateOf P c.notAfter ≠ 0

theorem tokenSound_of_bound (hlane : v.OneLane) (hbound : TokenBound P v) (h : forAgent rec v now ttl = .ok payload) :
    TokenSound P v now payload := by
  obtain ⟨hparse, status, _, hlive, identity, server, hidentity, hserver, hgenerate⟩ := forAgent_eq_ok_iff.mp h
  obtain ⟨hafter, huntil, hstatus, hidentityOut, hserverOut⟩ := generateStatusToken_spec hgenerate
  obtain ⟨hagreeI, hlistsI⟩ := lists_of_parse hparse (.inl rfl) now
  obtain ⟨hagreeS, hlistsS⟩ := lists_of_parse hparse (.inr rfl) now
  have hsoonest := ((hlistsI _ hidentity).earliest.union (hlistsS _ hserver).earliest).union (.single (certExpiresAt P v))
  have hle {t : Int} (ht : _) (hne : t ≠ 0) : ofUnix payload.exp ≤ t :=
    (huntil (hsoonest.least t ht hne).1).trans (hsoonest.least t ht hne).2
  -- a certificate without a date ends with the event
  have hundated (hne : dateOf P v.expiresAt ≠ 0) (hevent : BoundedByEvent P v) :
      ofUnix payload.exp ≤ dateOf P v.expiresAt := by
    have hexpires := hle (.inr rfl) (certExpiresAt_ne_zero hlane hne)
    have hunix := (boundedByEvent_iff hlane).mp hevent
    simp only [unix, ofUnix] at hexpires hunix ⊢
    omega
  have hwithin {family : List CertificateInfo} (hfamily : v.Family family) {r : List CertFingerprint × Int}
      (hr : Lists now (family.map (entryOf P)) r) (hagree : Agree (family.map (entryOf P)))
      (hmem : ∀ t, (∃ e ∈ family.map (entryOf P), Entry.Current now e ∧ t = e.2.expiry) → t ≠ 0 →
        ofUnix payload.exp ≤ t) : Within P v now payload family r.1 := by
    intro c hc hne hlisted hend
    have hle : ofUnix payload.exp ≤ v.endOf P c := by
      unfold AttestedView.endOf effectiveDate at hend ⊢
      split at hend
      · rename_i hzero
        rw [if_pos hzero]
        rcases hbound with hnone | hevent | hdated
        · exact absurd hnone hend
        · exact hundated hend hevent
        · exact absurd hzero (hdated family hfamily c hc hne)
      · rename_i hdate
        rw [if_neg hdate]
        exact hmem _ (dated_of_listed hr hagree hc hne hlisted) hdate
    exact ⟨hafter.trans_le hle, hle⟩
  constructor
  · rw [hstatus]
    exact isTerminal_eq_false_iff.mp hlive
  · rw [hidentityOut]
    exact hwithin (.inl rfl) (hlistsI _ hidentity) (hagreeI.mp ⟨_, hidentity⟩) fun t ht => hle (.inl (.inl ht))
  · rw [hserverOut]
    exact hwithin (.inr rfl) (hlistsS _ hserver) (hagreeS.mp ⟨_, hserver⟩) fun t ht => hle (.inl (.inr ht))

/-- Just before the second in which the event ends, a token is issued that lists every certificate without a date. -/
theorem exists_token (rec : EventRecord P) (hparse : parseEnvelopeWrapper P v = .ok ()) (hexpires : certExpiresAt P v ≠ 0)
    (hrevoked : rec.eventType ≠ .agentRevoked) (hidentity : Agree (v.identity.map (entryOf P)))
    (hserver : Agree (v.server.map (entryOf P))) (httl : 0 < ttl) : ∃ payload,
      forAgent rec v (ofUnix (unix (certExpiresAt P v)) - 1) ttl = .ok payload ∧
      ∀ c, c.fingerprint ≠ "" → dateOf P c.notAfter = 0 →
        (c ∈ v.identity → Entry.print (entryOf P c) ∈ payload.validIdentityCerts) ∧
        (c ∈ v.server → Entry.print (entryOf P c) ∈ payload.validServerCerts) := by
  generalize hnow : ofUnix (unix (certExpiresAt P v)) - 1 = now
  obtain ⟨hagreeI, hlistsI⟩ := lists_of_parse hparse (.inl rfl) now
  obtain ⟨hagreeS, hlistsS⟩ := lists_of_parse hparse (.inr rfl) now
  obtain ⟨identity, hidentity⟩ := hagreeI.mpr hidentity
  obtain ⟨server, hserver⟩ := hagreeS.mpr hserver
  have hsoonest := ((hlistsI _ hidentity).earliest.union (hlistsS _ hserver).earliest).union (.single (certExpiresAt P v))
  have hbefore : now < certExpiresAt P v := by
    simp only [unix, ofUnix] at hnow
    omega
  have hlive : isTerminal (currentAgentStatus rec.eventType (certExpiresAt P v) now (30 * 24 * 3600 * 10 ^ 9)) = false :=
    isTerminal_currentAgentStatus.mpr ⟨hrevoked, fun _ => hbefore⟩
  have huntil : now < sooner (sooner identity.2 server.2) (certExpiresAt P v) := by
    have hne := (hsoonest.least _ (.inr rfl) hexpires).1
    have hmem := hsoonest.mem hne
    generalize sooner (sooner identity.2 server.2) (certExpiresAt P v) = limit at hne hmem ⊢
    rcases hmem with (⟨e, _, hcurrent, rfl⟩ | ⟨e, _, hcurrent, rfl⟩) | rfl
    · exact hcurrent.2.resolve_left hne
    · exact hcurrent.2.resolve_left hne
    · exact hbefore
  have hvalid : unix now < unix (tokenEnd now ttl (sooner (sooner identity.2 server.2) (certExpiresAt P v))) := by
    unfold tokenEnd unix ofUnix at *
    split <;> omega
  refine ⟨_, forAgent_eq_ok_iff.mpr ⟨hparse, _, rfl, hlive, identity, server, hidentity, hserver,
    generateStatusToken_eq_ok_iff.mpr ⟨hvalid, rfl⟩⟩, fun c hne hzero => ?_⟩
  have hcurrent : Entry.Current now (entryOf P c) := ⟨hne, .inl hzero⟩
  exact ⟨fun hc => ((hlistsI _ hidentity).out _).mpr ⟨_, mem_map_of_mem hc, hcurrent, rfl⟩,
    fun hc => ((hlistsS _ hserver).out _).mpr ⟨_, mem_map_of_mem hc, hcurrent, rfl⟩⟩

theorem issuable_of_token (h : forAgent rec v now ttl = .ok payload) : 0 < ttl ∧ rec.eventType ≠ .agentRevoked ∧
    Agree (v.identity.map (entryOf P)) ∧ Agree (v.server.map (entryOf P)) := by
  obtain ⟨hparse, _, rfl, hlive, identity, server, hidentity, hserver, hgenerate⟩ := forAgent_eq_ok_iff.mp h
  obtain ⟨hafter, _⟩ := generateStatusToken_eq_ok_iff.mp hgenerate
  refine ⟨?_, (isTerminal_currentAgentStatus.mp hlive).1,
    (lists_of_parse hparse (.inl rfl) now).1.mp ⟨_, hidentity⟩,
    (lists_of_parse hparse (.inr rfl) now).1.mp ⟨_, hserver⟩⟩
  unfold tokenEnd unix at hafter
  split at hafter <;> omega

/-- The tokens of an agent do not outlive its certificates just when no certificate without a date is listed, or the
families end no later than the event. -/
theorem status_token_within_certificates_iff (l : Leaf P) (index : Nat) (ttl : Int) :
    (∀ now payload, forAgent (l.row index) l.attestedView now ttl = .ok payload →
      TokenSound P l.attestedView now payload) ↔
      ttl ≤ 0 ∨ l.eventType = .agentRevoked ∨ ¬Agree (l.attestedView.identity.map (entryOf P)) ∨
        ¬Agree (l.attestedView.server.map (entryOf P)) ∨ TokenBound P l.attestedView := by
  have hlane := l.oneLane
  constructor
  · intro h
    refine or_iff_not_imp_left.mpr fun httl => or_iff_not_imp_left.mpr fun hrevoked => or_iff_not_imp_left.mpr fun hidentity =>
      or_iff_not_imp_left.mpr fun hserver => or_iff_not_imp_left.mpr fun hexpires => or_iff_not_imp_left.mpr fun hbound => ?_
    intro family hfamily c hc hne hzero
    rw [boundedByEvent_iff hlane] at hbound
    obtain ⟨payload, hpayload, hlisted⟩ := exists_token (l.row index) l.parseEnvelopeWrapper_eq (certExpiresAt_ne_zero hlane hexpires)
      hrevoked (not_not.mp hidentity) (not_not.mp hserver) (not_le.mp httl)
    have hend : l.attestedView.endOf P c = dateOf P l.attestedView.expiresAt := if_pos hzero
    obtain ⟨_, hsoundI, hsoundS⟩ := h _ _ hpayload
    have hbefore : ofUnix (unix (certExpiresAt P l.attestedView)) - 1 < l.attestedView.endOf P c := by
      rcases hfamily with rfl | rfl
      · exact (hsoundI c hc hne ((hlisted c hne hzero).1 hc) (hend ▸ hexpires)).1
      · exact (hsoundS c hc hne ((hlisted c hne hzero).2 hc) (hend ▸ hexpires)).1
    rw [hend] at hbefore
    simp only [unix, ofUnix] at hbound hbefore
    omega
  · rintro (httl | hrevoked | hconflict | hconflict | hbound) now payload hpayload
    · exact absurd (issuable_of_token hpayload).1 httl.not_gt
    · exact absurd hrevoked (issuable_of_token hpayload).2.1
    · exact absurd (issuable_of_token hpayload).2.2.1 hconflict
    · exact absurd (issuable_of_token hpayload).2.2.2 hconflict
    · exact tokenSound_of_bound hlane hbound hpayload

/-- Once the revocation of an agent is indexed, in every run from there it is the agent's current event whenever the index is
ready, and no status token is given for it. -/
theorem revocation_is_final {g g' : Interleaving.Gate (service P)} (hrun : Run P g) (hlater : g.Later (setting P) g')
    (hrec : rec ∈ g.state.store.events) (hagent : rec.identityID = none) (hrevoked : rec.eventType = .agentRevoked) :
    (g'.state.indexReady = true → ∀ bound, (0 < bound → rec.leafIndex < bound) →
      g'.state.store.getLatestByAgentID rec.agentID bound = some rec) ∧ ∀ v now ttl payload, forAgent rec v now ttl ≠ .ok payload := by
  refine ⟨fun hready bound hbound => ?_, fun v now ttl payload htoken => (issuable_of_token htoken).2.1 hrevoked⟩
  have hbefore := (guards P).sound hrun
  obtain ⟨hafter, rest, hrest⟩ := (guards P).later hbefore hlater
  obtain ⟨old, _, hold⟩ := hbefore.inv.represents
  obtain ⟨log, _, hrep⟩ := hafter.inv.represents
  -- the row mirrors a leaf, and the longer log has the bytes of that leaf in the same place
  rw [hold.mirrors.events, mem_mapIdx] at hrec
  obtain ⟨i, hi, rfl⟩ := hrec
  have hlt := (lt_min_iff.mp (length_take ▸ hi)).2
  rw [getElem_take] at *
  have hentry : g'.state.entries[i]? = some old[i].raw := by
    rw [← hrest, hold.entries, getElem?_append_left (by simpa using hlt), getElem?_map, getElem?_eq_getElem hlt, Option.map_some]
  obtain ⟨l, hl, hraw⟩ := hrep.getElem?_entries hentry
  rw [Leaf.row_eq_of_raw_eq hraw.symm] at *
  have hadmitted := hrep.admitted.of_append
  have hagent := l.identityID_row_eq_none.mp hagent
  refine (hrep.of_complete (hafter.inv.ready hready)).2.getLatestByAgentID_eq hadmitted hl hagent hbound ?_
  intro j m hm hagent' hid _
  exact hadmitted.agentLifecycle.revoked i j l m hl hm hagent hagent' hid.symm hrevoked

end Token

namespace Sample

/-- A clock that knows three texts. -/
def clock : Primitives :=
  { primitives with parseTime := fun text => .ok (if text = "early" then 10 ^ 10 else if text = "late" then 10 ^ 11
    else if text = "before" then -10 ^ 9 else 1) }

/-- The registration of an agent with two identity certificates. -/
def certified (expiresAt : String) (certs : List CertificateInfo) : Event where
  ansID := "a"
  ansName := "ans://v1.0.0.agent.example"
  eventType := .agentRegistered
  agent := none
  attestations := some ⟨"", [], certs, [], []⟩
  expiresAt := expiresAt
  issuedAt := ""
  raID := "ra"
  renewalStatus := ""
  revocationReasonCode := ""
  revokedAt := ""
  timestamp := "t"

def certifiedLeaf (expiresAt : String) (certs : List CertificateInfo)
    (hvalid : Schema.v2.validate clock (certified expiresAt certs) = .ok ())
    (hsound : defect clock.numbers ((Schema.v2.codec : Codec clock.numbers _).encode
      (certified expiresAt certs)) = none) : Leaf clock :=
  leaf .v2 (certified expiresAt certs) hvalid hsound

/-- A certificate that ended before Go's zero time. -/
def lapsed : Leaf clock := certifiedLeaf "" [⟨"fp", "X509-OV-CLIENT", "before"⟩] rfl rfl

/-- Two certificates of one family, of which only one has a date; the event ends before it. -/
def mixed : Leaf clock :=
  certifiedLeaf "early" [⟨"undated", "X509-OV-CLIENT", ""⟩, ⟨"fp", "X509-OV-CLIENT", "late"⟩] rfl rfl

/-- A token lists a certificate after the end that its badge counts it with. -/
theorem ended_certificate_listed : ∃ payload, forAgent (mixed.row 0) mixed.attestedView (2 * 10 ^ 10) (10 ^ 9) = .ok payload ∧
    ⟨"undated", "X509-OV-CLIENT"⟩ ∈ payload.validIdentityCerts ∧
    mixed.attestedView.endOf clock ⟨"undated", "X509-OV-CLIENT", ""⟩ = 10 ^ 10 ∧
    ¬TokenSound clock mixed.attestedView (2 * 10 ^ 10) payload := by
  have hidentity : mixed.attestedView.identity =
    [⟨"undated", "X509-OV-CLIENT", ""⟩, ⟨"fp", "X509-OV-CLIENT", "late"⟩] := rfl
  refine ⟨_, rfl, by decide, by decide, fun hsound => ?_⟩
  have hlate := hsound.identity ⟨"undated", "X509-OV-CLIENT", ""⟩ (hidentity ▸ mem_cons_self) (by decide) (by decide)
    (by decide)
  exact absurd hlate.1 (by decide)

end Sample

set_option maxRecDepth 20000 in
theorem revocation_is_final_lived : ∃ rec ∈ Sample.lived.state.store.events,
    Sample.lived.state.store.getLatestByAgentID rec.agentID 0 = some rec := by
  obtain ⟨rec, hrec, hready, hagent, hrevoked⟩ : ∃ rec ∈ Sample.lived.state.store.events,
    Sample.lived.state.indexReady = true ∧ rec.identityID = none ∧ rec.eventType = .agentRevoked := by decide +kernel
  exact ⟨rec, hrec, (revocation_is_final Sample.run_lived .refl hrec hagent hrevoked).1 hready 0 (absurd · (Nat.lt_irrefl 0))⟩

end AgentNameService.TransparencyLog
