/-
Purpose: The ingest pipeline of the log and the recovery of its index, as programs over the Merkle log, the mirror, the
  ready flag and the index fence.  The writer gate lets one of them run at a time; readers come and go on their own.
Source: internal/tl/service/{log,ingest,agent_policy,producersig}.go, internal/tl/logstore/log.go
Trusted boundary: human-reviewed model; an entry that the Merkle log acknowledges is integrated, and one whose outcome is
  unknown is integrated before the next recovery read or never; entry bundles and tiles are served as they were written
-/
import AgentNameService.Foundation.Gate
import AgentNameService.Registration.Naming
import AgentNameService.TransparencyLog.EventStore

namespace AgentNameService.TransparencyLog

open Interleaving Except Registration

/-! ### State -/

/-- The Merkle log with the entry whose outcome is unknown, the mirror, and what the process keeps in memory. -/
structure State (P : Primitives) where
  entries : List Json
  submitted : Option Json
  store : EventStore P
  indexReady : Bool
  fenced : Bool
  readers : Nat

/-- A new log. -/
def State.initial (P : Primitives) : State P where
  entries := []
  submitted := none
  store := .empty
  indexReady := false
  fenced := false
  readers := 0

/-! ### Calls -/

/-- How the Merkle log takes an entry. -/
inductive Sequencing where
  | sequenced
  | duplicate (index : Nat)
  | unresolved
deriving DecidableEq, Repr

/-- The index an entry got. -/
structure EntryIndex where
  index : Nat
  isDup : Bool
deriving DecidableEq, Repr

inductive Call (P : Primitives) where
  | lockIndex
  | unlockIndex
  | indexReady
  | setIndexReady (ready : Bool)
  | existsByEventHash (eventHash : P.Digest)
  | getEventByLeafIndex (index : Nat)
  | latestAgentState (ansName agentID : String)
  | firstUnindexedLeaf
  | integratedSize
  | indexedSize
  | readEntryBundle (index size : Nat)
  | fetchLeafHashes (first count size : Nat)
  | storeEvent (leafIndex : Nat) (leafHash eventHash : P.Digest) (env : Signable) (raw : Json)
  | add (entry : Json)

/-- `layout.EntryBundleWidth`. -/
def entryBundleWidth : Nat := 256

/-- A request that was waiting and gave up. -/
def canceled : Error := .plain "context canceled"

namespace Call

variable {P : Primitives}

def Reply : Call P → Type
  | .lockIndex | .unlockIndex | .setIndexReady _ | .storeEvent .. => Unit
  | .indexReady => Bool
  | .existsByEventHash _ => Option Nat
  | .getEventByLeafIndex _ | .latestAgentState .. => Option (EventRecord P)
  | .firstUnindexedLeaf | .integratedSize | .indexedSize => Nat
  | .readEntryBundle .. => List Json
  | .fetchLeafHashes .. => List P.Digest
  | .add _ => Except Error EntryIndex

def exec : (c : Call P) → Sequencing → State P → Except Error (c.Reply × State P)
  | .lockIndex, _, s => if s.fenced = false ∧ s.readers = 0 then .ok ((), { s with fenced := true }) else .error canceled
  | .unlockIndex, _, s => .ok ((), { s with fenced := false })
  | .indexReady, _, s => .ok (s.indexReady, s)
  | .setIndexReady ready, _, s => .ok ((), { s with indexReady := ready })
  | .existsByEventHash eventHash, _, s => .ok (s.store.existsByEventHash eventHash, s)
  | .getEventByLeafIndex index, _, s => .ok (s.store.getEventByLeafIndex index, s)
  | .latestAgentState ansName agentID, _, s => .ok (s.store.latestAgentState ansName agentID, s)
  | .firstUnindexedLeaf, _, s => .ok (s.store.firstUnindexedLeaf, s)
  -- the recovery read: what is not integrated by now never will be
  | .integratedSize, _, s => .ok (s.entries.length, { s with submitted := none })
  | .indexedSize, _, s => .ok (s.store.indexedSize, s)
  | .readEntryBundle index size, _, s =>
    .ok (((s.entries.take size).drop (index * entryBundleWidth)).take entryBundleWidth, s)
  | .fetchLeafHashes first count size, _, s =>
    .ok ((((s.entries.take size).drop first).take count).map P.leafHash, s)
  | .storeEvent leafIndex leafHash eventHash env raw, _, s =>
    match s.store.storeEvent leafIndex leafHash eventHash env raw with
    | .ok store => .ok ((), { s with store })
    | .error e => .error e
  | .add entry, .sequenced, s => .ok (.ok ⟨s.entries.length, false⟩, { s with entries := s.entries ++ [entry] })
  | .add entry, .duplicate index, s =>
    if s.entries[index]? = some entry then .ok (.ok ⟨index, true⟩, s) else .error canceled
  | .add entry, .unresolved, s => .ok (.error canceled, { s with submitted := some entry })

end Call

/-- Why a producer key cannot be had. -/
inductive KeyFault where
  | notFound
  | failed
deriving DecidableEq, Repr

/-- What is asked outside: a fresh log id, a producer key, the log's signature, the cached checkpoint. -/
inductive Query where
  | newLogID
  | producerKey (raID keyID : String)
  | attest (signingInput : Json)
  | latestCheckpoint

def Query.Answer : Query → Type
  | .newLogID => Except String String
  | .producerKey .. => Except KeyFault String
  | .attest _ => Except String String
  | .latestCheckpoint => Option Nat

abbrev TL (P : Primitives) : Interface where
  State := State P
  Err := Error
  Input := Sequencing
  Call := Call P
  Reply := Call.Reply
  exec := Call.exec
  Query := Query
  Answer := Query.Answer

section Programs

variable {P : Primitives}

abbrev Program (P : Primitives) (α : Type) : Type := Prog (TL P) α

def run (c : Call P) : Program P c.Reply := Prog.perform (M := TL P) c

def ask (q : Query) : Program P q.Answer := Prog.query (M := TL P) q

def lift {α : Type} (result : Except Error α) : Program P α := Prog.lift result

def fail {α : Type} (e : Error) : Program P α := Prog.fail e

/-- A step of the code that fails with a text. -/
def liftText {α : Type} (result : Except String α) : Program P α := lift (result.mapError .plain)

/-- `fmt.Errorf("context: %w", err)` around a program. -/
def inContext {α : Type} (context : String) (p : Program P α) : Program P α := do
  let result ← p.outcome
  lift (result.mapError (Error.wrap context))

/-! ### Producer signatures -/

structure AppendInput where
  rawBody : Body
  producerSignature : String
deriving DecidableEq

/-- `VerifyDetachedWithPEM`: the signature is checked over the canonical form of the body. -/
def verifyDetachedWithPEM (P : Primitives) (jws : String) (body : Body) (pem : String) : Except String Unit := do
  P.parseKey jws pem
  let j ← body.parse
  let canonical ← (Json.canonicalize P.numbers j).withContext "jws: verification failed: crypto: canonicalize"
  P.verifies jws canonical pem

/-- The part of `Verify` before the key is looked up. -/
def readHeader (P : Primitives) (jws : String) : Except Error Header := do
  require (jws ≠ "") (.validation "NO_PRODUCER_SIGNATURE" "X-Signature header is required")
  let header ← (P.decodeHeader jws).mapError fun text =>
    .validation "INVALID_SIGNATURE_HEADER" ("cannot parse signature header: " ++ text)
  require (header.kid ≠ "" ∧ header.raid ≠ "")
    (.validation "INVALID_SIGNATURE_HEADER" "signature header missing kid or raid")
  return header

/-- `ProducerSigVerifier.Verify`. -/
def verify (jws : String) (body : Body) : Program P Header := do
  let header ← lift (readHeader P jws)
  match ← ask (.producerKey header.raid header.kid) with
  | .error .notFound => fail (.validation "NOT_FOUND_PRODUCER_KEY"
      s!"no producer key for raid={quoted header.raid} kid={quoted header.kid}")
  | .error .failed => fail (.internal "INVALID_PRODUCER_KEY" "producer key lookup failed")
  | .ok pem => do
      lift ((verifyDetachedWithPEM P jws body pem).mapError fun text => .validation "MISMATCH_SIGNATURE"
        s!"signature does not verify for raid={quoted header.raid} kid={quoted header.kid}: {text}")
      return header

/-! ### Recovery -/

/-- `StoreEvent`: the transaction, and the row read back. -/
def storeEvent (leafIndex : Nat) (leafHash eventHash : P.Digest) (env : Signable) (raw : Json) :
    Program P (EventRecord P) := do
  run (.storeEvent leafIndex leafHash eventHash env raw)
  let row ← run (.getEventByLeafIndex leafIndex)
  lift (EventStore.found row)

def restoreIndexedLeaf (index : Nat) (raw : Json) (tileHash : P.Digest) : Program P Unit := do
  liftText (require (P.leafHash raw = tileHash) "entry bytes disagree with the Merkle tile")
  let existing ← run (.getEventByLeafIndex index)
  match existing with
  | some existing => liftText (require (existing.rawEvent = raw) "indexed bytes disagree with Tessera")
  | none => do
      let env ← liftText (decodeStoredEnvelope P raw)
      let canonical ← liftText (env.leafBytes P)
      liftText (require (raw = canonical) "stored leaf is not canonical")
      let inner ← liftText (innerEventBytes P raw)
      let _ ← storeEvent index (P.leafHash raw) (P.sha256 inner) env raw

/-- The leaves of one bundle, from an index on. -/
def restoreEntries : Nat → List (Json × P.Digest) → Program P Unit
  | _, [] => pure ()
  | next, (raw, tileHash) :: rest => do
      inContext s!"restore leaf {next}" (restoreIndexedLeaf next raw tileHash)
      restoreEntries (next + 1) rest

/-- The loop over the bundles.  Every round restores a leaf at least, so there are as many rounds as leaves. -/
def restoreBundles (size : Nat) : Nat → Nat → Program P Unit
  | 0, _ => pure ()
  | rounds + 1, next =>
    if next < size then do
      let bundle : List Json ← run (.readEntryBundle (next / entryBundleWidth) size)
      let offset := next % entryBundleWidth
      liftText (require (offset < bundle.length) s!"entry bundle does not contain leaf {next}")
      let count := min (bundle.length - offset) (size - next)
      let hashes : List P.Digest ← run (.fetchLeafHashes next count size)
      restoreEntries next (((bundle.drop offset).take count).zip hashes)
      restoreBundles size rounds (next + count)
    else pure ()

/-- `restoreMissingLeaves`, which is all that `recoverIndex` does. -/
def recoverIndex : Program P Unit := do
  let next : Nat ← run .firstUnindexedLeaf
  let size : Nat ← run .integratedSize
  let indexedSize : Nat ← run .indexedSize
  liftText (require (indexedSize ≤ size)
    s!"index extends beyond the integrated log: index={indexedSize} log={size}")
  restoreBundles size (size - next) next

/-- `RecoverIndex`. -/
def recoverIndexRequest : Program P Unit := do
  run .lockIndex
  run (.setIndexReady false)
  let result ← recoverIndex.outcome
  match result with
  | .ok () => run (.setIndexReady true)
  | .error _ => pure ()
  run .unlockIndex
  lift result

/-! ### Agent lifecycle -/

def agentEventTransitionAllowed (previous incoming : EventType) : Bool :=
  let current : Option RegistrationStatus :=
    match previous with
    | .agentRegistered | .agentRenewed => some .active
    | .agentDeprecated => some .deprecated
    | _ => none
  match current with
  | none => false
  | some current =>
    match incoming with
    | .agentRenewed => current = .active
    | .agentDeprecated => current.canTransitionTo .deprecated
    | .agentRevoked => current.canTransitionTo .revoked
    | _ => false

/-- The host of an agent as it is compared. -/
def comparableHost (host : String) : String := trimDot (toLower host)

/-- The checks of an agent event by itself; the result is its producer. -/
def checkIncoming (P : Primitives) (env : Signable) (canonical : Json) : Except Error String := do
  let name ← (parseAnsName env.ansName).mapError fun _ =>
    .validation "INVALID_EVENT" "agent host must match the canonical versioned ANS name"
  require (name.text = env.ansName ∧ name.fqdn = comparableHost env.agentFQDN)
    (.validation "INVALID_EVENT" "agent host must match the canonical versioned ANS name")
  let incoming ← (Json.unmarshal (incomingFields P) canonical).mapError .plain
  require (incoming.2.1.1 = name.version.text)
    (.validation "INVALID_EVENT" "agent version must match the versioned ANS name")
  return incoming.1

/-- The checks of an agent event against the row its lifecycle is judged by. -/
def checkPrior (P : Primitives) (env : Signable) (raID : String) (rec : EventRecord P) : Except Error Unit := do
  require (rec.ansName = env.ansName ∧ rec.agentID = env.agentID ∧
      comparableHost rec.agentFQDN = comparableHost env.agentFQDN)
    (.conflict "AGENT_STATE_CONFLICT" "versioned FQDN is already bound to a different agent")
  let previous ← (innerEventBytes P rec.rawEvent).mapError .plain
  let prior ← (Json.unmarshal (priorFields P) previous).mapError .plain
  require (raID = prior.1)
    (.conflict "AGENT_STATE_CONFLICT" "agent lifecycle belongs to a different producer")
  require (agentEventTransitionAllowed rec.eventType env.eventType = true)
    (.conflict "AGENT_STATE_CONFLICT" "event duplicates or reverses an existing lifecycle state")
  let oldTime ← (P.parseTime prior.2.1).mapError fun _ => .validation "INVALID_EVENT" "event timestamp is invalid"
  let newTime ← (P.parseTime env.timestamp).mapError fun _ =>
    .validation "INVALID_EVENT" "event timestamp is invalid"
  require (env.eventType = .agentRevoked ∨ oldTime ≤ newTime)
    (.conflict "STALE_AGENT_EVENT" "event predates the current agent state")

def checkAgentState (env : Signable) (canonical : Json) : Program P Unit :=
  match env.schema with
  | .identity => pure ()
  | .v1 | .v2 => do
      let raID ← lift (checkIncoming P env canonical)
      let row ← run (.latestAgentState env.ansName env.agentID)
      match row with
      | none => pure ()
      | some rec => lift (checkPrior P env raID rec)

/-! ### Append -/

structure AppendResult (P : Primitives) where
  logID : String
  leafIndex : Nat
  leafHash : P.Digest
  duplicate : Bool
  treeSize : Nat
deriving DecidableEq

/-- `currentTreeSize`. -/
def currentTreeSize (minSize : Nat) : Program P Nat := do
  let latest : Option Nat ← ask .latestCheckpoint
  match latest with
  | some size => return if minSize + 1 ≤ size then size else minSize + 1
  | none => return minSize + 1

/-- `duplicateResult`. -/
def duplicateResult (rec : EventRecord P) : Program P (AppendResult P) := do
  let treeSize ← currentTreeSize rec.leafIndex
  return ⟨rec.logID, rec.leafIndex, rec.leafHash, true, treeSize⟩

/-- What `Log.Append` returns. -/
structure LogAppend (P : Primitives) where
  leafIndex : Nat
  leafHash : P.Digest
  canonical : Json
  isDuplicate : Bool

/-- `Log.Append`. -/
def logAppend (env : Signable) : Program P (LogAppend P) := do
  liftText (env.validate P)
  let canonical ← liftText (env.leafBytes P)
  let added : Except Error EntryIndex ← run (.add canonical)
  let entry ← lift (added.mapError (Error.wrap "logstore: append"))
  return ⟨entry.index, P.leafHash canonical, canonical, entry.isDup⟩

def completeAppend (env : Signable) (eventHash : P.Digest) (logID : String) : Program P (AppendResult P) := do
  let res ← inContext "log: tessera append" (logAppend env)
  if res.isDuplicate then do
    recoverIndex
    let row ← run (.getEventByLeafIndex res.leafIndex)
    let rec ← lift (EventStore.found row)
    liftText (require (rec.rawEvent = res.canonical) "duplicate leaf bytes disagree with index")
    run (.setIndexReady true)
    duplicateResult rec
  else do
    let _ ← inContext "log: store event" (storeEvent res.leafIndex res.leafHash eventHash env res.canonical)
    run (.setIndexReady true)
    return ⟨logID, res.leafIndex, res.leafHash, false, res.leafIndex + 1⟩

/-- The ready check of `append`: an index that is not ready is recovered first. -/
def ensureIndexReady : Program P Unit := do
  let ready : Bool ← run .indexReady
  if ready then pure ()
  else do
    run .lockIndex
    let result ← recoverIndex.outcome
    run (.setIndexReady result.isOk)
    run .unlockIndex
    lift (result.mapError (Error.wrap "log: recover event index"))

/-- The log's own signature, over the envelope that has none yet. -/
def attest (env : Signable) : Program P Signable := do
  let signingInput ← liftText ((env.signingInput P).withContext "log: signing input")
  let answer : Except String String ← ask (.attest signingInput)
  let signature ← liftText (answer.withContext "log: TL attestation sign")
  return env.setOuterSignature signature

/-- The part of `append` behind the ready check. -/
def appendChecked (env : Signable) (canonical : Json) (logID : String) : Program P (AppendResult P) := do
  let eventHash := P.sha256 canonical
  let existing : Option Nat ← run (.existsByEventHash eventHash)
  match existing with
  | some index => do
      let row ← run (.getEventByLeafIndex index)
      let rec ← lift (EventStore.found row)
      duplicateResult rec
  | none => do
      checkAgentState env canonical
      let signed ← attest env
      run .lockIndex
      run (.setIndexReady false)
      let result ← (completeAppend signed eventHash logID).outcome
      run .unlockIndex
      lift result

/-- `append`, with the codec of a lane.  What comes before the ready check does not touch the state, so the model runs
it behind the gate as well. -/
def append (s : Schema) (input : AppendInput) : Program P (AppendResult P) := do
  let header ← verify input.producerSignature input.rawBody
  let answer : Except String String ← ask .newLogID
  let logID ← liftText (answer.withContext "generate logId")
  let built ← lift (parseAndBuild P s input.rawBody header.raid header.kid input.producerSignature logID)
  ensureIndexReady
  appendChecked built.1 built.2 logID

end Programs

/-! ### The service -/

/-- The requests that take the writer gate. -/
inductive Op where
  | append (s : Schema) (input : AppendInput)
  | recoverIndex
deriving DecidableEq

inductive Out (P : Primitives) where
  | appended (result : AppendResult P)
  | recovered
deriving DecidableEq

def service (P : Primitives) : Service (TL P) where
  Op := Op
  Out := Out P
  body
    | .append s input => Out.appended <$> append s input
    | .recoverIndex => (fun _ => Out.recovered) <$> recoverIndexRequest
  init := State.initial P

/-- What happens by itself: the entry whose outcome was unknown is integrated, a reader is let in, a reader leaves. -/
inductive Happening where
  | integrated
  | readerEnters
  | readerLeaves
deriving DecidableEq, Repr

/-- One round of `lockIndexedRead`: a reader is let in where nobody holds the fence and the index is ready; where it is
not ready the reader goes to `RecoverIndex` and comes back. -/
def lockIndexedRead {P : Primitives} (s : State P) : Option (State P) :=
  if s.fenced = false ∧ s.indexReady = true then some { s with readers := s.readers + 1 } else none

def happen {P : Primitives} : Happening → State P → Option (State P)
  | .integrated, s => s.submitted.map fun entry => { s with entries := s.entries ++ [entry], submitted := none }
  | .readerEnters, s => lockIndexedRead s
  | .readerLeaves, s => if s.readers = 0 then none else some { s with readers := s.readers - 1 }

/-- Memory is lost. -/
def restart {P : Primitives} (s : State P) : State P := { s with indexReady := false, fenced := false, readers := 0 }

/-- Whatever waits, reads a disk or talks to the database can fail; a write to memory cannot. -/
def fallible {P : Primitives} : Call P → Bool
  | .unlockIndex | .indexReady | .setIndexReady _ => false
  | _ => true

def setting (P : Primitives) : Setting (TL P) where
  fallible := fallible
  Happening := Happening
  happen := happen
  restart := restart

/-- The runs of the log: requests one after the other behind the gate, readers beside them, failing calls, restarts. -/
abbrev Run (P : Primitives) (g : Gate (service P)) : Prop := Gate.Reached (service P) (setting P) g

/-! ### A small log -/

namespace Sample

/-- Documents are their own digests, all signatures are good and name their producer, and a time is the length of its
text. -/
def primitives : Primitives where
  numbers := .verbatim
  Digest := Json
  decEq := inferInstance
  sha256 := id
  leafHash := id
  parseTime text := .ok text.length
  decodeHeader jws := .ok ⟨"key", jws⟩
  parseKey _ _ := .ok ()
  verifies _ _ _ := .ok ()

/-- Whatever is asked for is there. -/
def world (logID : String) : (q : Query) → q.Answer
  | .newLogID => .ok logID
  | .producerKey _ _ => .ok "pem"
  | .attest _ => .ok "seal"
  | .latestCheckpoint => none

/-- Serve a request without faults. -/
def serve (g : Gate (service primitives)) (op : Op) (logID : String) : Gate (service primitives) :=
  g.serve (setting primitives) op .sequenced (world logID) 60

theorem run_serve {g : Gate (service primitives)} (hrun : Run primitives g) (op : Op) (logID : String) :
    Run primitives (serve g op logID) :=
  Gate.Later.serve hrun op .sequenced (world logID) 60

def answers (g : Gate (service primitives)) : List (Op × Out primitives) := g.answers

/-- The revocation of an identity, as a producer sends it. -/
def revocation (identityID : String) : Body :=
  .document (.object [("identityId", .string identityID), ("kind", .string "did:web"), ("value", .string "did:web:a"),
    ("eventType", .string "IDENTITY_REVOKED"), ("timestamp", .string "t"), ("revokedAt", .string "t")])

/-- One revocation sent twice, with a reader at the end. -/
def retried : Gate (service primitives) :=
  serve (serve (.start _) (.append .identity ⟨revocation "i", "ra"⟩) "log-1")
    (.append .identity ⟨revocation "i", "ra"⟩) "log-2"

theorem run_retried : Run primitives retried := by
  unfold retried
  apply run_serve
  apply run_serve
  exact .refl

/-- An event of an agent, as a producer sends it. -/
def agentEvent (eventType timestamp : String) : Body :=
  .document (.object [("ansId", .string "a"), ("ansName", .string "ans://v1.0.0.agent.example"),
    ("eventType", .string eventType), ("timestamp", .string timestamp),
    ("agent", .object [("host", .string "agent.example"), ("name", .string "agent"), ("version", .string "1.0.0")])])

/-- The life of an agent: registered, renewed, and revoked with an earlier time. -/
def lived : Gate (service primitives) :=
  serve (serve (serve (.start _) (.append .v2 ⟨agentEvent "AGENT_REGISTERED" "t", "ra"⟩) "log-1")
      (.append .v2 ⟨agentEvent "AGENT_RENEWED" "tt", "ra"⟩) "log-2")
    (.append .v2 ⟨agentEvent "AGENT_REVOKED" "t", "ra"⟩) "log-3"

theorem run_lived : Run primitives lived := by
  unfold lived
  apply run_serve
  apply run_serve
  apply run_serve
  exact .refl

end Sample

end AgentNameService.TransparencyLog
