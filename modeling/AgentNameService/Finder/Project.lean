/-
Purpose: The items of the event feed as the Finder takes them, what it checks of them, and how an item becomes entries of
  the discovery catalog: one for each endpoint that can be discovered, or a tombstone.
Source: internal/finder/feed/feed.go, internal/finder/project/{types,project,sanitize,urn}.go, internal/ard/urn.go
Trusted boundary: human-reviewed model; RFC 3339, net/url and the escaping of a path segment are parameters
-/
import AgentNameService.Registration.Naming
import AgentNameService.TransparencyLog.Event
import Mathlib.Data.Prod.Lex
import Mathlib.Data.String.Basic

namespace AgentNameService.Finder

open Except List TransparencyLog
open Registration (quoted isSpace trimSpace toLower parseAnsName)

/-! ### The feed -/

def knownProtocols : List String := ["A2A", "MCP", "HTTP-API"]

/-- The token of a protocol on the wire; `other` carries a token that is none of the known ones. -/
inductive Protocol where
  | a2a
  | mcp
  | httpAPI
  | other (text : String) (unknown : text ∉ knownProtocols)
deriving DecidableEq

structure AgentFunction where
  name : String
  tags : List String
deriving DecidableEq, Repr

structure AgentEndpoint where
  agentURL : String
  metaDataURL : String
  protocol : Protocol
  functions : List AgentFunction
deriving DecidableEq

/-- One event of the feed. -/
structure EventItem where
  logID : String
  eventType : EventType
  createdAt : String
  expiresAt : String
  agentID : String
  ansName : String
  agentHost : String
  agentDisplayName : String
  agentDescription : String
  version : String
  endpoints : List AgentEndpoint
deriving DecidableEq

/-- One page of the feed; the cursor is empty at the tail. -/
structure EventPageResponse where
  items : List EventItem
  lastLogID : String
deriving DecidableEq

/-- What `url.Parse` tells of a URL. -/
structure URL where
  scheme : String
  host : String
  hostname : String
  hasUser : Bool
  rawQuery : String
  forceQuery : Bool
  fragment : String
deriving DecidableEq, Repr

/-- What the model leaves open: RFC 3339, `url.Parse` and `url.PathEscape`. -/
structure Primitives where
  parseTime : String → Except String Int
  parseURL : String → Except String URL
  pathEscape : String → String

/-- A hexadecimal digit of either case. -/
def isHexDigit (c : Char) : Bool :=
  ('0' ≤ c && c ≤ '9') || ('a' ≤ c && c ≤ 'f') || ('A' ≤ c && c ≤ 'F')

/-- Groups of eight, four, four, four and twelve hexadecimal digits. -/
def isUUID (s : String) : Bool :=
  s.toList.length = 36 && s.toList.zipIdx.all fun (c, i) =>
    if i = 8 ∨ i = 13 ∨ i = 18 ∨ i = 23 then c = '-' else isHexDigit c

namespace EventItem

variable (P : Primitives) (item : EventItem)

def missingField (name : String) : String := "feed: EventItem missing required field " ++ quoted name

/-- The fields that a tombstone is built from. -/
def validateIdentityKeys : Except String Unit := do
  require (trimSpace item.logID ≠ "") (missingField "logId")
  require (isUUID item.agentID = true) s!"feed: EventItem agentId {quoted item.agentID} is not a UUID"
  let _ ← (P.parseTime item.createdAt).withContext
    s!"feed: EventItem createdAt {quoted item.createdAt} is not RFC 3339"
  let parsed ← (parseAnsName item.ansName).mapError fun e =>
    s!"feed: EventItem ansName {quoted item.ansName} is invalid: {e.message}"
  require (parsed.fqdn = toLower item.agentHost)
    s!"feed: EventItem agentHost {quoted item.agentHost} does not match ansName FQDN {quoted parsed.fqdn}"

def validate : Except String Unit := do
  require (trimSpace item.eventType.text ≠ "") (missingField "eventType")
  require (trimSpace item.agentHost ≠ "") (missingField "agentHost")
  require (trimSpace item.version ≠ "") (missingField "version")
  item.validateIdentityKeys P

end EventItem

/-! ### Entries -/

structure Attestation where
  type : String
  uri : String
  mediaType : String
deriving DecidableEq, Repr

structure TrustManifest where
  identity : String
  identityType : String
  attestations : List Attestation
deriving DecidableEq, Repr

/-- The map of an entry's metadata. -/
structure Metadata where
  ansName : String
  logID : String
  agentURL : Option String
deriving DecidableEq, Repr

/-- An entry of the catalog as it goes on the wire.  A tombstone has an identifier at most. -/
structure Entry where
  identifier : String
  displayName : String
  type : String
  url : String
  description : String
  tags : List String
  capabilities : List String
  version : String
  updatedAt : String
  metadata : Option Metadata
  trustManifest : Option TrustManifest
deriving DecidableEq, Repr

inductive Lifecycle where
  | active
  | revoked
  | deprecated
deriving DecidableEq, Repr

def Lifecycle.text : Lifecycle → String
  | .active => "ACTIVE"
  | .revoked => "REVOKED"
  | .deprecated => "DEPRECATED"

/-- An entry with what the index keeps beside it. -/
structure ProjectedEntry where
  entry : Entry
  lifecycle : Lifecycle
  agentID : String
  ansName : String
  logID : String
  createdAt : String
  expiresAt : String
deriving DecidableEq, Repr

inductive SkipKind where
  | unknownEventType
  | missingLabel
  | unknownProtocol
  | invalidURL
deriving DecidableEq, Repr

structure Skip where
  kind : SkipKind
  detail : String
deriving DecidableEq, Repr

structure Projection where
  entries : List ProjectedEntry
  skipped : List Skip
deriving DecidableEq, Repr

structure Options where
  tlBaseURL : String
  allowHTTP : Bool
deriving DecidableEq, Repr

/-! ### Text -/

/-- The general categories Cc and Cf. -/
def isDisallowedRune (c : Char) : Bool :=
  let n := c.toNat
  n ≤ 0x1F || (0x7F ≤ n && n ≤ 0x9F) || n == 0xAD || (0x600 ≤ n && n ≤ 0x605) || n == 0x61C || n == 0x6DD ||
    n == 0x70F || n == 0x890 || n == 0x891 || n == 0x8E2 || n == 0x180E || (0x200B ≤ n && n ≤ 0x200F) ||
    (0x202A ≤ n && n ≤ 0x202E) || (0x2060 ≤ n && n ≤ 0x2064) || (0x2066 ≤ n && n ≤ 0x206F) || n == 0xFEFF ||
    (0xFFF9 ≤ n && n ≤ 0xFFFB) || n == 0x110BD || n == 0x110CD || (0x13430 ≤ n && n ≤ 0x1343F) ||
    (0x1BCA0 ≤ n && n ≤ 0x1BCA3) || (0x1D173 ≤ n && n ≤ 0x1D17A) || n == 0xE0001 || (0xE0020 ≤ n && n ≤ 0xE007F)

def sanitizeText (s : String) : String := String.ofList (s.toList.filter fun c => !isDisallowedRune c)

/-- `strings.Fields`. -/
def fields (s : String) : List String :=
  ((s.toList.splitOnP isSpace).filter (· ≠ [])).map String.ofList

/-- `ard.Labelize`. -/
def labelize (s : String) : String :=
  if trimSpace s = "" then "" else String.intercalate "-" (fields (trimSpace s))

/-- `ard.MintURN`. -/
def mintURN (agentHost sanitizedDisplayName : String) : Option String :=
  let label := labelize sanitizedDisplayName
  if label = "" then none else some ("urn:air:" ++ toLower agentHost ++ ":agents:" ++ label)

/-- Sort without repetition. -/
def dedupSorted (texts : List String) : List String := texts.dedup.insertionSort (· ≤ ·)

def dedupSortCap (texts : List String) (limit : Nat) : List String :=
  (dedupSorted ((texts.map sanitizeText).filter (· ≠ ""))).take limit

/-! ### URLs -/

section Projecting

variable (P : Primitives)

/-- The schemes that may be emitted. -/
def checkScheme (raw scheme : String) (allowHTTP : Bool) : Except String Unit :=
  if scheme = "https" then .ok ()
  else if scheme = "http" then require (allowHTTP = true) s!"url {quoted raw} uses http but AllowHTTP is off"
  else .error s!"url {quoted raw} scheme {quoted scheme} not permitted"

/-- `U+%04X`. -/
def codePoint (c : Char) : String :=
  let digits := (Nat.toDigits 16 c.toNat).map Char.toUpper
  "U+" ++ String.ofList (replicate (4 - digits.length) '0' ++ digits)

def validateEmittedURL (raw attestedHost : String) (allowHTTP : Bool) : Except String String := do
  require (trimSpace raw ≠ "") "url is empty"
  match raw.toList.find? isDisallowedRune with
  | some c => .error s!"url {quoted raw} contains a disallowed control/format rune {codePoint c}"
  | none => do
      let u ← (P.parseURL raw).withContext s!"url {quoted raw} does not parse"
      require (u.scheme ≠ "" ∧ u.host ≠ "") s!"url {quoted raw} is not absolute"
      checkScheme raw u.scheme allowHTTP
      require (u.hasUser = false) s!"url {quoted raw} carries userinfo"
      require (u.rawQuery = "" ∧ u.forceQuery = false) s!"url {quoted raw} carries a query string"
      require (u.fragment = "") s!"url {quoted raw} carries a fragment"
      require (toLower u.hostname = toLower attestedHost)
        s!"url {quoted raw} hostname {quoted (toLower u.hostname)} does not match attested host {quoted attestedHost}"
      return raw

/-! ### Projection -/

/-- The media type and the well-known file of a protocol that can be discovered. -/
def protocolArtifact : Protocol → Option (String × String)
  | .a2a => some ("application/a2a-agent-card+json", "/.well-known/agent-card.json")
  | .mcp => some ("application/mcp-server-card+json", "/.well-known/mcp.json")
  | .httpAPI | .other .. => none

/-- A metadata URL that is present is never replaced by the fallback. -/
def selectURL (ep : AgentEndpoint) (attestedHost wellKnown : String) (opts : Options) : Except Skip String :=
  if trimSpace ep.metaDataURL ≠ "" then
    (validateEmittedURL P ep.metaDataURL attestedHost opts.allowHTTP).mapError fun text =>
      ⟨.invalidURL, "metaDataUrl failed policy: " ++ text⟩
  else
    (validateEmittedURL P ("https://" ++ attestedHost ++ wellKnown) attestedHost opts.allowHTTP).mapError fun text =>
      ⟨.invalidURL, "well-known fallback failed policy: " ++ text⟩

def buildMetadata (host : String) (item : EventItem) (ep : AgentEndpoint) (opts : Options) : Metadata where
  ansName := sanitizeText item.ansName
  logID := sanitizeText item.logID
  agentURL := (validateEmittedURL P ep.agentURL host opts.allowHTTP).toOption

/-- `strings.TrimRight` with slashes. -/
def trimRightSlashes (s : String) : String := String.ofList ((s.toList.reverse.dropWhile (· = '/')).reverse)

def buildTrustManifest (host agentID : String) (opts : Options) : TrustManifest where
  identity := "https://" ++ host
  identityType := "https"
  attestations :=
    if trimSpace opts.tlBaseURL ≠ "" then
      [⟨"ANS-Registration", trimRightSlashes opts.tlBaseURL ++ "/v1/agents/" ++ P.pathEscape agentID ++ "/receipt",
        "application/scitt-receipt+cose"⟩]
    else []

def capabilitiesFrom (fns : List AgentFunction) : List String := dedupSortCap (fns.map AgentFunction.name) 50

def tagsFrom (fns : List AgentFunction) : List String := dedupSortCap (fns.flatMap AgentFunction.tags) 10

/-- An entry with the keys of its event. -/
def wrap (item : EventItem) (lifecycle : Lifecycle) (entry : Entry) : ProjectedEntry where
  entry := entry
  lifecycle := lifecycle
  agentID := item.agentID
  ansName := item.ansName
  logID := item.logID
  createdAt := item.createdAt
  expiresAt := item.expiresAt

/-- The entry of an endpoint, nothing for one that cannot be discovered, or why it is left out. -/
def projectEndpoint (item : EventItem) (opts : Options) (urn : String) (ep : AgentEndpoint) :
    Except Skip (Option ProjectedEntry) :=
  let host := toLower item.agentHost
  match protocolArtifact ep.protocol with
  | none =>
    match ep.protocol with
    | .other text _ => .error ⟨.unknownProtocol, "endpoint protocol " ++ quoted text ++ " not recognized"⟩
    | _ => .ok none
  | some (mediaType, wellKnown) => do
      let artifactURL ← selectURL P ep host wellKnown opts
      return some (wrap item .active {
        identifier := urn
        displayName := sanitizeText item.agentDisplayName
        type := mediaType
        url := artifactURL
        description := sanitizeText item.agentDescription
        tags := tagsFrom ep.functions
        capabilities := capabilitiesFrom ep.functions
        version := sanitizeText item.version
        updatedAt := item.createdAt
        metadata := some (buildMetadata P host item ep opts)
        trustManifest := some (buildTrustManifest P host item.agentID opts) })

/-- By identifier, type and URL. -/
def sortEntries (entries : List ProjectedEntry) : List ProjectedEntry :=
  entries.insertionSort fun a b =>
    toLex (a.entry.identifier, toLex (a.entry.type, a.entry.url)) ≤
      toLex (b.entry.identifier, toLex (b.entry.type, b.entry.url))

def projectActive (item : EventItem) (opts : Options) : Projection :=
  match mintURN (toLower item.agentHost) (sanitizeText item.agentDisplayName) with
  | none => ⟨[], [⟨.missingLabel, "agentDisplayName produced no URN label for agent " ++ quoted item.agentID⟩]⟩
  | some urn =>
    let projected := item.endpoints.map (projectEndpoint P item opts urn)
    { entries := sortEntries (projected.filterMap fun result => result.toOption.join)
      skipped := projected.filterMap fun result =>
        match result with
        | .error skip => some skip
        | .ok _ => none }

/-- The record that only says which agent is gone. -/
def tombstone (item : EventItem) (lifecycle : Lifecycle) : Projection where
  entries := [wrap item lifecycle {
    identifier := (mintURN (toLower item.agentHost) (sanitizeText item.agentDisplayName)).getD ""
    displayName := ""
    type := ""
    url := ""
    description := ""
    tags := []
    capabilities := []
    version := ""
    updatedAt := ""
    metadata := none
    trustManifest := none }]
  skipped := []

/-- `FromEvent`: a revocation needs the keys only, a registration the whole contract. -/
def fromEvent (item : EventItem) (opts : Options) : Except String Projection := do
  item.validateIdentityKeys P
  match item.eventType with
  | .agentRevoked => return tombstone item .revoked
  | .agentDeprecated => return tombstone item .deprecated
  | .agentRegistered | .agentRenewed => do
      item.validate P
      return projectActive P item opts
  | other => return ⟨[], [⟨.unknownEventType, "unrecognized eventType " ++ quoted other.text⟩]⟩

end Projecting

/-! ### What a projection consists of -/

section Entries

variable {P : Primitives} {pe : ProjectedEntry} {item : EventItem} {opts : Options}

/-- The lifecycle of the entries of an event. -/
def lifecycleOf : EventType → Option Lifecycle
  | .agentRevoked => some .revoked
  | .agentDeprecated => some .deprecated
  | .agentRegistered | .agentRenewed => some .active
  | _ => none

theorem mem_sortEntries {entries : List ProjectedEntry} : pe ∈ sortEntries entries ↔ pe ∈ entries :=
  (perm_insertionSort _ _).mem_iff

/-- An entry of the event, with a URL that passed the check against the event's host. -/
def Wraps (P : Primitives) (item : EventItem) (opts : Options) (pe : ProjectedEntry) : Prop := ∃ entry,
  pe = wrap item .active entry ∧ ∃ raw, validateEmittedURL P raw (toLower item.agentHost) opts.allowHTTP = .ok entry.url

theorem projectEndpoint_wrap {urn : String} {ep : AgentEndpoint}
    (h : projectEndpoint P item opts urn ep = .ok (some pe)) : Wraps P item opts pe := by
  unfold projectEndpoint at h
  split at h
  · split at h <;> cases h
  · obtain ⟨_, hurl, hpe⟩ := bind_eq_ok_iff.mp h
    cases hpe
    unfold selectURL at hurl
    split at hurl <;> exact ⟨_, rfl, _, mapError_eq_ok_iff.mp hurl⟩

theorem projectActive_wrap (h : pe ∈ (projectActive P item opts).entries) : Wraps P item opts pe := by
  unfold projectActive at h
  split at h
  · cases h
  · rw [mem_sortEntries, mem_filterMap] at h
    obtain ⟨result, hresult, hpe⟩ := h
    obtain ⟨ep, _, rfl⟩ := mem_map.mp hresult
    cases hep : projectEndpoint P item opts _ ep with
    | error skip =>
      rw [hep] at hpe
      cases hpe
    | ok entry =>
      rw [hep] at hpe
      obtain rfl : entry = some pe := hpe
      exact projectEndpoint_wrap hep

theorem fromEvent_eq (item : EventItem) (opts : Options) : fromEvent P item opts = (do
    item.validateIdentityKeys P
    match lifecycleOf item.eventType with
    | none => return ⟨[], [⟨.unknownEventType, "unrecognized eventType " ++ quoted item.eventType.text⟩]⟩
    | some .active => do
        item.validate P
        return projectActive P item opts
    | some .revoked => return tombstone item .revoked
    | some .deprecated => return tombstone item .deprecated) := by
  unfold fromEvent
  cases item.eventType <;> rfl

/-- Every entry of an event carries the keys of the event, and the lifecycle of its type. -/
theorem fromEvent_entries {projection : Projection}
    (h : fromEvent P item opts = .ok projection) (hpe : pe ∈ projection.entries) :
    ∃ lifecycle entry, lifecycleOf item.eventType = some lifecycle ∧ pe = wrap item lifecycle entry := by
  rw [fromEvent_eq] at h
  obtain ⟨_, _, hrest⟩ := bind_eq_ok_iff.mp h
  cases hlifecycle : lifecycleOf item.eventType with
  | none =>
    rw [hlifecycle] at hrest
    rw [← pure_eq_ok_iff.mp hrest] at hpe
    cases hpe
  | some lifecycle =>
    rw [hlifecycle] at hrest
    cases lifecycle with
    | active =>
      obtain ⟨_, _, hprojection⟩ := bind_eq_ok_iff.mp hrest
      rw [← pure_eq_ok_iff.mp hprojection] at hpe
      obtain ⟨entry, rfl, _⟩ := projectActive_wrap hpe
      exact ⟨.active, entry, rfl, rfl⟩
    | revoked =>
      rw [← pure_eq_ok_iff.mp hrest] at hpe
      exact ⟨.revoked, _, rfl, mem_singleton.mp hpe⟩
    | deprecated =>
      rw [← pure_eq_ok_iff.mp hrest] at hpe
      exact ⟨.deprecated, _, rfl, mem_singleton.mp hpe⟩

/-- A URL at the host of an ANS name, with a scheme that is permitted and neither user, query nor fragment. -/
def LeadsTo (P : Primitives) (opts : Options) (ansName url : String) : Prop := ∃ name u,
  parseAnsName ansName = .ok name ∧ P.parseURL url = .ok u ∧ toLower u.hostname = toLower name.fqdn ∧
    checkScheme url u.scheme opts.allowHTTP = .ok () ∧ u.hasUser = false ∧ u.rawQuery = "" ∧ u.fragment = ""

/-- What an active event lists is at the host of its name. -/
theorem fromEvent_leadsTo {projection : Projection} (h : fromEvent P item opts = .ok projection)
    (hactive : lifecycleOf item.eventType = some .active) (hpe : pe ∈ projection.entries) :
    LeadsTo P opts item.ansName pe.entry.url := by
  rw [fromEvent_eq, hactive] at h
  obtain ⟨_, hkeys, hrest⟩ := bind_eq_ok_iff.mp h
  obtain ⟨_, _, hprojection⟩ := bind_eq_ok_iff.mp hrest
  rw [← pure_eq_ok_iff.mp hprojection] at hpe
  obtain ⟨entry, rfl, raw, hurl⟩ := projectActive_wrap hpe
  simp only [EventItem.validateIdentityKeys, bind_eq_ok_iff, require_eq_ok_iff, mapError_eq_ok_iff] at hkeys
  obtain ⟨_, _, _, _, _, _, name, hname, hhost⟩ := hkeys
  simp only [validateEmittedURL, bind_eq_ok_iff, require_eq_ok_iff] at hurl
  obtain ⟨_, _, hurl⟩ := hurl
  split at hurl
  · cases hurl
  · simp only [bind_eq_ok_iff, require_eq_ok_iff, withContext_eq_ok_iff, pure_eq_ok_iff] at hurl
    obtain ⟨u, hu, _, _, _, hscheme, _, huser, _, hquery, _, hfragment, _, hhostname, rfl⟩ := hurl
    exact ⟨name, u, hname, hu, hhost ▸ hhostname, hscheme, huser, hquery.1, hfragment⟩

/-- A tombstone is a single entry. -/
theorem fromEvent_tombstone {projection : Projection} {lifecycle : Lifecycle}
    (h : fromEvent P item opts = .ok projection) (hlifecycle : lifecycleOf item.eventType = some lifecycle)
    (hne : lifecycle ≠ .active) : projection.entries = (tombstone item lifecycle).entries := by
  rw [fromEvent_eq, hlifecycle] at h
  obtain ⟨_, _, hrest⟩ := bind_eq_ok_iff.mp h
  cases lifecycle with
  | active => exact absurd rfl hne
  | revoked | deprecated => rw [← pure_eq_ok_iff.mp hrest]

end Entries

end AgentNameService.Finder
