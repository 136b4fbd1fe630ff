/-
Purpose: The ingest pipeline and the recovery of the index keep the discipline of the mirror: recovery ends with every
  leaf mirrored, an append writes a leaf only behind a complete mirror that does not know its content, and an answer
  names a leaf with the content that was asked for.  Over whole runs: what is served mirrors the log, and no content is
  in the log twice.
Source: internal/tl/service/{log,ingest}.go
Trusted boundary: none
-/
import AgentNameService.TransparencyLog.Mirror

namespace AgentNameService.TransparencyLog

open Interleaving List Except Prog Registration

variable {P : Primitives} {c : Call P} {l : Leaf P}

/-! ### Rules of the programs -/

section Rules

variable {α β : Type} {s : State P} {Q : β → State P → Prop}

theorem safe_run {f : c.Reply → Program P β}
    (h : ∀ t, Rely s t → Inv t → Pre c t ∧ ∀ input r u, Inv u → c.exec input t = .ok (r, u) → (f r).Safe (discipline P) Q u) :
    (run c >>= f).Safe (discipline P) Q s := by
  apply Safe.perform
  intro t hst hinv
  obtain ⟨hpre, hnext⟩ := h t hst hinv
  exact ⟨hpre, fun input r u _ => hnext input r u⟩

theorem safe_lift {result : Except Error α} {f : α → Program P β}
    (h : ∀ a, result = .ok a → (f a).Safe (discipline P) Q s) : (lift result >>= f).Safe (discipline P) Q s :=
  Safe.lift h

theorem safe_liftText {result : Except String α} {f : α → Program P β}
    (h : ∀ a, result = .ok a → (f a).Safe (discipline P) Q s) : (liftText result >>= f).Safe (discipline P) Q s := by
  apply safe_lift
  intro a ha
  cases result with
  | error text => cases ha
  | ok b => exact h a (congrArg ok (ok.inj ha))

theorem safe_ask {q : Query} {f : q.Answer → Program P β} (h : ∀ a, (f a).Safe (discipline P) Q s) :
    (ask q >>= f).Safe (discipline P) Q s := h

/-- An outcome that is handed on. -/
theorem safe_outcome {p : Program P α} {Q : α → State P → Prop} (h : p.Safe (discipline P) Q s) :
    p.outcome.Safe (discipline P) (fun result t => ∀ a, result = .ok a → Q a t) s := by
  have houtcome := Safe.outcome (fun _ _ _ _ => trivial) h trivial
    (Calls.of_forall (fun _ _ _ _ _ _ _ => trivial) p)
  exact houtcome.mono fun _ _ _ hq => hq.2

theorem safe_inContext {p : Program P β} {context : String} (h : p.Safe (discipline P) Q s) :
    (inContext context p).Safe (discipline P) Q s := by
  apply (safe_outcome h).bind
  intro result t _ hok
  cases result with
  | error e => trivial
  | ok a => exact hok a rfl

end Rules

/-! ### Recovery -/

/-- Where recovery stands: nothing is underway, and the leaves before an index are mirrored. -/
structure RestoredTo (entries : List Json) (next : Nat) (s : State P) : Prop where
  submitted : s.submitted = none
  entries : s.entries = entries
  mirrored : s.store.events.length = next

section Recovery

variable {entries : List Json} {next : Nat} {s t : State P}

theorem RestoredTo.stable (h : RestoredTo entries next s) (hrely : Rely s t) : RestoredTo entries next t := by
  obtain ⟨hentries, hnone⟩ := hrely.of_none h.submitted
  exact ⟨hnone, hentries.trans h.entries, hrely.store ▸ h.mirrored⟩

theorem RestoredTo.complete (h : RestoredTo entries next s) (hnext : next = entries.length) : Complete s :=
  ⟨h.submitted, by rw [h.mirrored, h.entries, hnext]⟩

/-- The row of the first leaf that is not mirrored. -/
theorem storeEvent_safe {leafHash eventHash : P.Digest} {env : Signable} {raw : Json}
    (hs : RestoredTo entries next s) (hentry : entries[next]? = some l.raw)
    (hrow : recordOf next leafHash eventHash env raw = l.row next) (hlinks : linkRows next env = l.links next) :
    (storeEvent next leafHash eventHash env raw).Safe (discipline P) (fun _ => RestoredTo entries (next + 1)) s := by
  unfold storeEvent
  apply safe_run
  intro t hst hinv
  have ht := hs.stable hst
  refine ⟨⟨ht.mirrored.ge, l, by rw [ht.entries, hentry], hrow, hlinks⟩, ?_⟩
  intro input _ u hinvu hexec
  simp only [Call.exec] at hexec
  split at hexec <;> cases hexec
  rename_i store hstore
  have hu : RestoredTo entries (next + 1) { t with store } := by
    refine ⟨ht.submitted, ht.entries, ?_⟩
    change store.events.length = next + 1
    rw [(EventStore.storeEvent_eq_ok_iff.mp hstore).2.2.2.1, length_append, ht.mirrored]
    rfl
  apply safe_run
  intro v huv _
  refine ⟨trivial, ?_⟩
  intro _ row _ _ hread
  cases hread
  cases hrow : v.store.getEventByLeafIndex next with
  | none => trivial
  | some r => exact hu.stable huv

theorem restoreIndexedLeaf_safe {raw : Json} {tileHash : P.Digest} (hs : RestoredTo entries next s)
    (hraw : entries[next]? = some raw) :
    (restoreIndexedLeaf next raw tileHash).Safe (discipline P) (fun _ => RestoredTo entries (next + 1)) s := by
  unfold restoreIndexedLeaf
  apply safe_liftText
  intro _ _
  apply safe_run
  intro t hst hinv
  refine ⟨trivial, ?_⟩
  intro _ existing _ _ hread
  cases hread
  have ht := hs.stable hst
  obtain ⟨log, pending, hrep⟩ := hinv.represents
  -- the leaf is the first one that is not mirrored, so there is no row yet
  have hnone : t.store.getEventByLeafIndex next = none := by
    rw [hrep.mirrors.getEventByLeafIndex_eq, getElem?_eq_none, Option.map_none]
    rw [hrep.length_take, ht.mirrored]
  rw [hnone]
  obtain ⟨l, _, rfl⟩ := hrep.getElem?_entries (ht.entries ▸ hraw)
  apply safe_liftText
  intro env henv
  obtain ⟨_, hrecoverable, rfl⟩ := l.decodeStoredEnvelope_raw.mp henv
  apply safe_liftText
  intro _ _
  apply safe_liftText
  intro _ _
  apply safe_liftText
  intro inner hinner
  obtain ⟨_, rfl⟩ := l.innerEventBytes_raw.mp hinner
  apply (storeEvent_safe ht hraw (l.recordOf_read next) (l.linkRows_read next)).bind
  intro _ _ _ hrestored
  exact hrestored

theorem restoreEntries_safe {leaves : List (Json × P.Digest)} (hs : RestoredTo entries next s)
    (hleaves : ∀ j x, leaves[j]? = some x → entries[next + j]? = some x.1) :
    (restoreEntries next leaves).Safe (discipline P) (fun _ => RestoredTo entries (next + leaves.length)) s := by
  induction leaves generalizing next s with
  | nil => exact hs
  | cons leaf rest ih =>
    apply (safe_inContext (restoreIndexedLeaf_safe hs (hleaves 0 leaf rfl))).bind
    intro _ t _ ht
    have hrest := ih ht fun j x hx => by
      rw [Nat.add_assoc, Nat.add_comm 1 j]
      exact hleaves (j + 1) x hx
    rw [length_cons, Nat.add_comm rest.length 1, ← Nat.add_assoc]
    exact hrest

/-- The part of a bundle that one round restores. -/
theorem getElem?_bundle {size count j : Nat} {leaf : Json × P.Digest} {hashes : List P.Digest}
    (hleaf : ((((((entries.take size).drop (next / entryBundleWidth * entryBundleWidth)).take entryBundleWidth).drop
      (next % entryBundleWidth)).take count).zip hashes)[j]? = some leaf) : entries[next + j]? = some leaf.1 := by
  obtain ⟨hraw, _⟩ := getElem?_zip_eq_some.mp hleaf
  have hindex : next / entryBundleWidth * entryBundleWidth + (next % entryBundleWidth + j) = next + j := by
    rw [← Nat.add_assoc, Nat.mul_comm, Nat.div_add_mod]
  rw [getElem?_take, getElem?_drop, getElem?_take, getElem?_drop, getElem?_take, hindex] at hraw
  split at hraw
  · split at hraw
    · split at hraw
      · exact hraw
      · cases hraw
    · cases hraw
  · cases hraw

theorem restoreBundles_safe {rounds : Nat} (hs : RestoredTo entries next s) (hle : next ≤ entries.length)
    (hrounds : entries.length - next ≤ rounds) :
    (restoreBundles entries.length rounds next).Safe (discipline P) (fun _ => Complete) s := by
  induction rounds generalizing next s with
  | zero => exact hs.complete (by omega)
  | succ rounds ih =>
    unfold restoreBundles
    split
    · rename_i hlt
      apply safe_run
      intro t hst _
      refine ⟨trivial, ?_⟩
      intro _ bundle _ _ hread
      cases hread
      have ht := hs.stable hst
      apply safe_liftText
      intro _ hoffset
      rw [require_eq_ok_iff] at hoffset
      apply safe_run
      intro u htu _
      refine ⟨trivial, ?_⟩
      intro _ hashes _ _ hread
      cases hread
      have hu := ht.stable htu
      rw [ht.entries] at hoffset ⊢
      rw [hu.entries]
      generalize hbundle : ((entries.take entries.length).drop (next / entryBundleWidth * entryBundleWidth)).take
        entryBundleWidth = bundle at hoffset ⊢
      generalize hcount : min (bundle.length - next % entryBundleWidth) (entries.length - next) = count
      have hpos : 0 < count := by omega
      generalize hleaves : ((bundle.drop (next % entryBundleWidth)).take count).zip
        ((((entries.take entries.length).drop next).take count).map P.leafHash) = leaves
      have hlength : leaves.length = count := by
        rw [← hleaves]
        simp only [length_zip, List.length_take, length_drop, length_map]
        omega
      have hround : (restoreEntries next leaves).Safe (discipline P) (fun _ => RestoredTo entries (next + count)) u := by
        rw [← hlength]
        apply restoreEntries_safe hu
        intro j x hx
        rw [← hleaves, ← hbundle] at hx
        exact getElem?_bundle hx
      apply hround.bind
      intro _ v _ hv
      exact ih hv (by omega) (by omega)
    · exact hs.complete (by omega)

/-- Recovery ends with every leaf mirrored. -/
theorem recoverIndex_safe : (recoverIndex).Safe (discipline P) (fun _ => Complete) s := by
  unfold recoverIndex
  apply safe_run
  intro t _ hinv
  refine ⟨trivial, ?_⟩
  intro _ next _ _ hread
  cases hread
  have hnext : t.store.firstUnindexedLeaf = t.store.events.length := by
    obtain ⟨log, pending, hrep⟩ := hinv.represents
    rw [hrep.mirrors.firstUnindexedLeaf_eq, hrep.length_take]
  rw [hnext]
  apply safe_run
  intro u htu hinvu
  refine ⟨trivial, ?_⟩
  intro _ size _ hinvv hread
  cases hread
  have hv : RestoredTo u.entries t.store.events.length { u with submitted := none } := ⟨rfl, rfl, by rw [htu.store]⟩
  have hle : t.store.events.length ≤ u.entries.length := by
    obtain ⟨log, pending, hrep⟩ := hinvu.represents
    have hmirrored := hrep.mirrored_le
    rwa [htu.store, ← hrep.entries_length] at hmirrored
  apply safe_run
  intro w hvw _
  refine ⟨trivial, ?_⟩
  intro _ _ _ _ hread
  cases hread
  apply safe_liftText
  intro _ _
  exact restoreBundles_safe (hv.stable hvw) hle le_rfl

end Recovery

/-! ### The fence during a recovery -/

/-- The calls of a recovery: reads of the log and of the mirror, and the transaction that mirrors a leaf. -/
def Call.restores : Call P → Prop
  | .getEventByLeafIndex _ | .firstUnindexedLeaf | .integratedSize | .indexedSize | .readEntryBundle .. | .fetchLeafHashes ..
  | .storeEvent .. => True
  | _ => False

theorem Call.fenced_of_restores (hc : c.restores) {input : Sequencing} {s t : State P} {r : c.Reply}
    (hexec : c.exec input s = .ok (r, t)) : t.fenced = s.fenced := by
  cases c with
  | storeEvent index leafHash eventHash env raw =>
    simp only [Call.exec] at hexec
    split at hexec <;> cases hexec
    rfl
  | getEventByLeafIndex _ | firstUnindexedLeaf | integratedSize | indexedSize | readEntryBundle _ _
  | fetchLeafHashes _ _ _ =>
    cases hexec
    rfl
  | lockIndex | unlockIndex | indexReady | setIndexReady _ | existsByEventHash _ | latestAgentState _ _ | add _ =>
    exact absurd hc not_false

section Restores

variable {β : Type} {A : Call P → Prop} {R : β → Prop}

theorem calls_run {f : c.Reply → Program P β} (hc : A c) (h : ∀ r, (f r).Calls A R) :
    (run c >>= f).Calls A R :=
  Calls.perform hc h

theorem calls_liftText {α : Type} {result : Except String α} {f : α → Program P β} (h : ∀ a, (f a).Calls A R) :
    (liftText result >>= f).Calls A R :=
  Calls.lift fun a _ => h a

theorem calls_inContext {α : Type} {p : Program P α} (context : String) (h : p.Calls A fun _ => True) :
    (inContext context p).Calls A fun _ => True := by
  apply h.outcome.bind
  intro _ _
  exact Calls.of_ret _

theorem storeEvent_restores (leafIndex : Nat) (leafHash eventHash : P.Digest) (env : Signable) (raw : Json) :
    (storeEvent leafIndex leafHash eventHash env raw).Calls Call.restores fun _ => True := by
  apply calls_run (by trivial)
  intro _
  apply calls_run (by trivial)
  intro row
  exact Calls.of_ret _

theorem restoreIndexedLeaf_restores (index : Nat) (raw : Json) (tileHash : P.Digest) :
    (restoreIndexedLeaf index raw tileHash).Calls Call.restores fun _ => True := by
  apply calls_liftText
  intro _
  apply calls_run (by trivial)
  intro existing
  cases existing with
  | some existing => exact Calls.of_ret _
  | none =>
    apply calls_liftText
    intro env
    apply calls_liftText
    intro _
    apply calls_liftText
    intro _
    apply calls_liftText
    intro inner
    apply (storeEvent_restores _ _ _ _ _).bind
    intro _ _
    exact Calls.of_ret _

theorem restoreEntries_restores (next : Nat) (leaves : List (Json × P.Digest)) :
    (restoreEntries next leaves).Calls Call.restores fun _ => True := by
  induction leaves generalizing next with
  | nil => trivial
  | cons leaf rest ih =>
    apply (calls_inContext _ (restoreIndexedLeaf_restores next leaf.1 leaf.2)).bind
    intro _ _
    exact ih (next + 1)

theorem restoreBundles_restores (size rounds next : Nat) :
    (restoreBundles (P := P) size rounds next).Calls Call.restores fun _ => True := by
  induction rounds generalizing next with
  | zero => trivial
  | succ rounds ih =>
    unfold restoreBundles
    split
    · apply calls_run (by trivial)
      intro bundle
      apply calls_liftText
      intro _
      apply calls_run (by trivial)
      intro hashes
      apply (restoreEntries_restores _ _).bind
      intro _ _
      exact ih _
    · trivial

theorem recoverIndex_restores : (recoverIndex (P := P)).Calls Call.restores fun _ => True := by
  apply calls_run (by trivial)
  intro next
  apply calls_run (by trivial)
  intro size
  apply calls_run (by trivial)
  intro indexedSize
  apply calls_liftText
  intro _
  exact restoreBundles_restores _ _ _

end Restores

/-- The ready check ends with a ready index. -/
theorem ensureIndexReady_safe {s : State P} :
    (ensureIndexReady).Safe (discipline P) (fun _ t => t.indexReady = true) s := by
  unfold ensureIndexReady
  apply safe_run
  intro t _ hinv
  refine ⟨trivial, ?_⟩
  intro _ ready _ _ hread
  cases hread
  split
  · rename_i hready
    exact hready
  · apply safe_run
    intro u _ _
    refine ⟨trivial, ?_⟩
    intro _ _ v _ hlock
    have hfenced : v.fenced = true := by
      simp only [Call.exec] at hlock
      split at hlock <;> cases hlock
      rfl
    -- a failed recovery leaves the fence where it is, so no reader has come in
    have hrecovered : recoverIndex.outcome.Safe (discipline P)
        (fun result x => x.fenced = true ∧ ∀ done, result = .ok done → Complete x) v := by
      apply Safe.outcome (fun x y (hxy : Rely x y) hx => hxy.fenced.trans hx) recoverIndex_safe hfenced
      apply recoverIndex_restores.mono
      intro c hc input x r y hx hexec
      exact (Call.fenced_of_restores hc hexec).trans hx
    apply hrecovered.bind
    rintro result w _ ⟨hw, hok⟩
    apply safe_run
    intro x hwx hinvx
    have hreaders : x.readers = 0 := hinvx.fenced (hwx.fenced.trans hw)
    cases result with
    | error e =>
      refine ⟨hreaders, ?_⟩
      intro _ _ y _ _
      apply safe_run
      intro z _ _
      exact ⟨trivial, fun _ _ _ _ _ => trivial⟩
    | ok done =>
      refine ⟨hwx.complete (hok done rfl), ?_⟩
      intro _ _ _ _ hset
      cases hset
      apply safe_run
      intro z hyz _
      refine ⟨trivial, ?_⟩
      intro _ _ _ _ hunlock
      cases hunlock
      exact hyz.indexReady

/-! ### Appending -/

/-- What a request has become before the state is looked at. -/
def Built (s : Schema) (input : AppendInput) (env : Signable) (canonical : Json) (logID : String) : Prop :=
  ∃ header pem, readHeader P input.producerSignature = .ok header ∧
    verifyDetachedWithPEM P input.producerSignature input.rawBody pem = .ok () ∧
    parseAndBuild P s input.rawBody header.raid header.kid input.producerSignature logID = .ok (env, canonical)

/-- The canonical event of a request. -/
def requestedEvent (P : Primitives) (s : Schema) (input : AppendInput) : Except Error Json := do
  let header ← readHeader P input.producerSignature
  let inner ← parseEvent P s input.rawBody header.raid
  (s.canonicalizeEvent P inner).mapError .plain

/-- An answer names a leaf with the content that was asked for. -/
def Answered (s : Schema) (input : AppendInput) (r : AppendResult P) (t : State P) : Prop :=
  ∃ event raw sealed, requestedEvent P s input = .ok event ∧ t.entries[r.leafIndex]? = some raw ∧
    Leaf.eventIn raw = some sealed ∧ P.sha256 sealed = P.sha256 event ∧ Leaf.logIDIn raw = some (.string r.logID) ∧
    r.leafHash = P.leafHash raw

/-- What the checks against a mirror found. -/
structure Cleared (store : EventStore P) (env : Signable) (canonical : Json) : Prop where
  fresh : store.existsByEventHash (P.sha256 canonical) = none
  checked : env.schema ≠ .identity → ∃ raID, checkIncoming P env canonical = .ok raID ∧
    ∀ rec, store.latestAgentState env.ansName env.agentID = some rec → checkPrior P env raID rec = .ok ()

section Append

variable {lane : Schema} {input : AppendInput} {env : Signable} {canonical : Json} {logID signature : String}
  {s t : State P}

theorem Answered.mono {r : AppendResult P} (h : Answered lane input r s) (hgrows : s.entries <+: t.entries) :
    Answered lane input r t := by
  obtain ⟨event, raw, content, hevent, hraw, hrest⟩ := h
  refine ⟨event, raw, content, hevent, ?_, hrest⟩
  obtain ⟨rest, hrest⟩ := hgrows
  have hlt := (List.getElem?_eq_some_iff.mp hraw).1
  rw [← hrest, getElem?_append_left hlt, hraw]

theorem Built.requestedEvent_eq (h : Built (P := P) lane input env canonical logID) :
    requestedEvent P lane input = .ok canonical := by
  obtain ⟨header, _, hheader, _, hbuilt⟩ := h
  obtain ⟨inner, hinner, hcanonical, _⟩ := parseAndBuild_eq_ok_iff.mp hbuilt
  simp only [requestedEvent, bind_eq_ok_iff, mapError_eq_ok_iff]
  exact ⟨header, hheader, inner, hinner, hcanonical⟩

/-- An envelope that passes its checks with a signature is a leaf. -/
theorem Built.leaf {bytes : Json} (h : Built (P := P) lane input env canonical logID)
    (hvalid : (env.setOuterSignature signature).validate P = .ok ())
    (hbytes : (env.setOuterSignature signature).leafBytes P = .ok bytes) :
    ∃ (l : Leaf P) (pem : String), l.signable = env.setOuterSignature signature ∧ l.inner = canonical ∧ l.raw = bytes ∧
      l.logID = logID ∧ Requested l input pem := by
  obtain ⟨header, pem, hheader, hverified, hbuilt⟩ := h
  obtain ⟨inner, hinner, hcanonical, henv⟩ := parseAndBuild_eq_ok_iff.mp hbuilt
  obtain rfl : env = ⟨lane, lane.buildEnvelope logID inner header.kid input.producerSignature⟩ := henv
  rw [Schema.canonicalizeEvent, Leaf.Schema.canonicalize_eq_ok_iff] at hcanonical
  obtain ⟨hsound, rfl⟩ := Json.of_canonicalize hcanonical
  have hsigned : signature ≠ "" := by
    simp only [Signable.leafBytes, bind_eq_ok_iff, require_eq_ok_iff] at hbytes
    exact hbytes.choose_spec.1
  simp only [Signable.validate, Signable.setOuterSignature, Schema.buildEnvelope, bind_eq_ok_iff,
    require_eq_ok_iff] at hvalid
  obtain ⟨_, _, _, hlogID, _, hkeyID, _, hsignature, hvalid⟩ := hvalid
  replace hkeyID := require_eq_ok_iff.mp hkeyID
  replace hsignature := require_eq_ok_iff.mp hsignature
  let l : Leaf P :=
    { schema := lane, event := inner, logID, keyID := header.kid, producerSignature := input.producerSignature, signature,
      valid := hvalid, sound := hsound, logID_ne := hlogID, signature_ne := hsigned,
      producer_ne := fun h => ⟨hkeyID h, hsignature h⟩ }
  refine ⟨l, pem, rfl, rfl, ?_, rfl, hverified, ⟨header.raid, hheader, hinner⟩, rfl⟩
  have hraw := l.leafBytes_signable
  exact ok.inj (hraw.symm.trans hbytes)

theorem Cleared.accepts {store : EventStore P} {log : List (Leaf P)} (h : Cleared store env canonical)
    (hmirrors : Mirrors store log) {pem : String} (hsignable : l.signable = env.setOuterSignature signature)
    (hinner : l.inner = canonical) (hrequested : Requested l input pem) : Accepts log l := by
  subst hinner
  refine ⟨⟨input, pem, hrequested⟩, hmirrors.of_existsByEventHash_eq_none h.fresh, ?_⟩
  intro hschema
  have henv : env.schema ≠ .identity := by
    intro hidentity
    exact hschema ((congrArg Signable.schema hsignable).trans hidentity)
  obtain ⟨raID, hincoming, hprior⟩ := h.checked henv
  -- the signature of the log is no part of what is checked
  refine ⟨raID, ?_, store, hmirrors, ?_⟩
  · rw [hsignable]
    exact hincoming
  · rw [hsignable]
    exact hprior

theorem verify_safe {jws : String} {body : Body} : (verify jws body).Safe (discipline P)
    (fun header _ => readHeader P jws = .ok header ∧ ∃ pem, verifyDetachedWithPEM P jws body pem = .ok ()) s := by
  unfold verify
  apply safe_lift
  intro header hheader
  apply safe_ask
  intro key
  match key with
  | .error .notFound => trivial
  | .error .failed => trivial
  | .ok pem =>
    apply safe_lift
    intro _ hverified
    rw [mapError_eq_ok_iff] at hverified
    exact ⟨hheader, pem, hverified⟩

/-- The part of `checkAgentState` for the agent lanes: the row decides whether there is something to compare with. -/
theorem checkAgentEvent_safe {incoming : Except Error String} (hincoming : checkIncoming P env canonical = incoming)
    {judge : String → Option (EventRecord P) → Program P Unit} (hnone : ∀ raID, judge raID none = pure ())
    (hsome : ∀ raID rec, judge raID (some rec) = lift (checkPrior P env raID rec)) (hready : s.indexReady = true) (hfresh : s.store.existsByEventHash (P.sha256 canonical) = none) :
    (lift incoming >>= fun raID => run (.latestAgentState env.ansName env.agentID) >>= judge raID).Safe (discipline P)
        (fun _ t => t.indexReady = true ∧ Cleared t.store env canonical) s := by
  apply safe_lift
  intro raID hok
  rw [hok] at hincoming
  apply safe_run
  intro t hst _
  refine ⟨trivial, ?_⟩
  intro _ row _ _ hread
  cases hread
  have ht : t.indexReady = true := hst.indexReady.trans hready
  have hfresh' : t.store.existsByEventHash (P.sha256 canonical) = none := by rw [hst.store, hfresh]
  cases hrow : t.store.latestAgentState env.ansName env.agentID with
  | none =>
    have hcleared : Cleared t.store env canonical := by
      refine ⟨hfresh', fun _ => ⟨raID, hincoming, ?_⟩⟩
      intro rec hrec
      rw [hrow] at hrec
      cases hrec
    rw [hnone]
    exact ⟨ht, hcleared⟩
  | some rec =>
    rw [hsome]
    generalize hprior : checkPrior P env raID rec = result
    cases result with
    | error e => trivial
    | ok passed =>
      have hcleared : Cleared t.store env canonical := by
        refine ⟨hfresh', fun _ => ⟨raID, hincoming, ?_⟩⟩
        intro other hother
        rw [hrow] at hother
        obtain rfl := Option.some.inj hother
        exact hprior
      exact ⟨ht, hcleared⟩

theorem checkAgentState_safe (hready : s.indexReady = true) (hfresh : s.store.existsByEventHash (P.sha256 canonical) = none) :
    (checkAgentState env canonical).Safe (discipline P)
      (fun _ t => t.indexReady = true ∧ Cleared t.store env canonical) s := by
  unfold checkAgentState
  generalize hincoming : checkIncoming P env canonical = incoming
  cases hschema : env.schema with
  | identity =>
    have hcleared : Cleared s.store env canonical := ⟨hfresh, fun h => absurd hschema h⟩
    exact ⟨hready, hcleared⟩
  | v1 | v2 => exact checkAgentEvent_safe hincoming (fun _ => rfl) (fun _ _ => rfl) hready hfresh

theorem attest_safe {Q : State P → Prop} (hs : Q s) : (attest env).Safe (discipline P)
    (fun signed t => Q t ∧ ∃ signature, signed = env.setOuterSignature signature) s := by
  unfold attest
  apply safe_liftText
  intro signingInput _
  apply safe_ask
  intro answer
  apply safe_liftText
  intro signature _
  exact ⟨hs, signature, rfl⟩

/-- The leaf is written behind the mirrored ones. -/
theorem logAppend_safe (hbuilt : Built (P := P) lane input env canonical logID) (hunready : s.indexReady = false)
    (hcomplete : Complete s) (hcleared : Cleared s.store env canonical) :
    (logAppend (env.setOuterSignature signature)).Safe (discipline P) (fun res t => ∃ l : Leaf P,
      l.signable = env.setOuterSignature signature ∧ l.inner = canonical ∧ l.logID = logID ∧
      res.leafHash = P.leafHash l.raw ∧ res.canonical = l.raw ∧ res.isDuplicate = false ∧ ∃ entries,
        RestoredTo entries res.leafIndex t ∧ entries[res.leafIndex]? = some l.raw ∧
          entries.length = res.leafIndex + 1) s := by
  unfold logAppend
  apply safe_liftText
  intro _ hvalid
  apply safe_liftText
  intro bytes hbytes
  obtain ⟨l, pem, hsignable, hinner, rfl, hlogID, hrequested⟩ := hbuilt.leaf hvalid hbytes
  apply safe_run
  intro t hst hinv
  have ht := hst.complete hcomplete
  have haccepts : ∀ log, Mirrors t.store log → Accepts log l := by
    rw [hst.store]
    exact fun log hmirrors => hcleared.accepts hmirrors hsignable hinner hrequested
  refine ⟨⟨hst.indexReady.trans hunready, ht, l, rfl, haccepts⟩, ?_⟩
  intro input added u _ hadd
  cases input with
  | sequenced =>
    cases hadd
    refine ⟨l, hsignable, hinner, hlogID, rfl, rfl, rfl, t.entries ++ [l.raw], ⟨ht.1, rfl, ht.2⟩, ?_, ?_⟩
    · exact getElem?_concat_length
    · exact length_append
  | duplicate index =>
    have hentry : t.entries[index]? = some l.raw := by
      by_contra hne
      rw [Call.exec, if_neg hne] at hadd
      cases hadd
    -- the content is new, so its bytes are
    obtain ⟨log, pending, hrep⟩ := hinv.represents
    obtain ⟨m, hm, hraw⟩ := hrep.getElem?_entries hentry
    have hfresh := (haccepts log (hrep.of_complete ht).2).fresh m (mem_of_getElem? hm)
    exact absurd (congrArg P.sha256 (Leaf.inner_eq_of_raw_eq hraw)) hfresh
  | unresolved =>
    cases hadd
    trivial

theorem completeAppend_safe (hbuilt : Built (P := P) lane input env canonical logID) (hunready : s.indexReady = false)
    (hcomplete : Complete s) (hcleared : Cleared s.store env canonical) :
    (completeAppend (env.setOuterSignature signature) (P.sha256 canonical) logID).Safe (discipline P)
      (fun r => Answered lane input r) s := by
  unfold completeAppend
  apply (safe_inContext (logAppend_safe hbuilt hunready hcomplete hcleared)).bind
  rintro res t _ ⟨l, hsignable, hinner, rfl, hleafHash, hbytes, hduplicate, entries, ht, hentry, hlength⟩
  rw [if_neg (by rw [hduplicate]; exact Bool.false_ne_true)]
  have hrow : recordOf res.leafIndex res.leafHash (P.sha256 canonical) (env.setOuterSignature signature) res.canonical =
      l.row res.leafIndex := by
    rw [hleafHash, hbytes, ← hinner, ← hsignable]
    rfl
  have hlinks : linkRows res.leafIndex (env.setOuterSignature signature) = l.links res.leafIndex := by
    rw [← hsignable]
    rfl
  apply (safe_inContext (storeEvent_safe ht hentry hrow hlinks)).bind
  intro _ u _ hu
  apply safe_run
  intro v huv _
  have hv := hu.stable huv
  refine ⟨hv.complete hlength.symm, ?_⟩
  intro _ _ _ _ hset
  cases hset
  refine ⟨canonical, l.raw, l.inner, hbuilt.requestedEvent_eq, ?_, l.eventIn_raw, by rw [hinner], l.logIDIn_raw, hleafHash⟩
  change v.entries[res.leafIndex]? = some l.raw
  rw [hv.entries, hentry]

/-- A content that is there already is answered with its leaf. -/
theorem duplicateResult_safe (hbuilt : Built (P := P) lane input env canonical logID) {index : Nat}
    (hentry : s.entries[index]? = some l.raw) (hhash : P.sha256 l.inner = P.sha256 canonical) :
    (duplicateResult (l.row index)).Safe (discipline P) (fun r => Answered lane input r) s := by
  unfold duplicateResult currentTreeSize
  have hanswered (treeSize : Nat) : Answered lane input ⟨(l.row index).logID, (l.row index).leafIndex,
      (l.row index).leafHash, true, treeSize⟩ s :=
    ⟨canonical, l.raw, l.inner, hbuilt.requestedEvent_eq, hentry, l.eventIn_raw, hhash, l.logIDIn_raw, rfl⟩
  intro latest
  cases latest with
  | none | some => exact hanswered _

theorem appendChecked_safe (hbuilt : Built (P := P) lane input env canonical logID) (hready : s.indexReady = true) :
    (appendChecked env canonical logID).Safe (discipline P) (fun r => Answered lane input r) s := by
  unfold appendChecked
  apply safe_run
  intro t hst hinv
  have ht : t.indexReady = true := hst.indexReady.trans hready
  refine ⟨ht, ?_⟩
  intro _ existing _ _ hread
  cases hread
  cases hexisting : t.store.existsByEventHash (P.sha256 canonical) with
  | some index =>
    apply safe_run
    intro u htu hinvu
    refine ⟨trivial, ?_⟩
    intro _ row _ _ hread
    cases hread
    apply safe_lift
    intro rec hrec
    rw [EventStore.found_eq_ok_iff] at hrec
    obtain ⟨log, pending, hrep⟩ := hinvu.represents
    have hmirrors := (hrep.of_complete (hinvu.ready (htu.indexReady.trans ht))).2
    obtain ⟨l, hl, hhash⟩ := hmirrors.of_existsByEventHash_eq_some (htu.store ▸ hexisting)
    rw [hmirrors.getEventByLeafIndex_eq, hl] at hrec
    obtain rfl := Option.some.inj hrec
    refine duplicateResult_safe hbuilt ?_ hhash
    rw [hrep.entries, getElem?_map, hl]
    rfl
  | none =>
    apply (checkAgentState_safe ht hexisting).bind
    rintro _ u _ hu
    apply (attest_safe (Q := fun x => x.indexReady = true ∧ Cleared x.store env canonical) hu).bind
    rintro signed v _ ⟨⟨hv, hcleared⟩, signature, rfl⟩
    apply safe_run
    intro w hvw _
    refine ⟨trivial, ?_⟩
    intro _ _ x _ hlock
    have hx : x.fenced = true ∧ x.indexReady = true ∧ x.store = v.store := by
      simp only [Call.exec] at hlock
      split at hlock <;> cases hlock
      exact ⟨rfl, hvw.indexReady.trans hv, hvw.store⟩
    apply safe_run
    intro y hxy hinvy
    refine ⟨hinvy.fenced (hxy.fenced.trans hx.1), ?_⟩
    intro _ _ _ _ hset
    cases hset
    have hcomplete : Complete y := hinvy.ready (hxy.indexReady.trans hx.2.1)
    have hcleared' : Cleared y.store env canonical := by
      rw [hxy.store, hx.2.2]
      exact hcleared
    have hcompleted : (completeAppend (env.setOuterSignature signature) (P.sha256 canonical) logID).Safe (discipline P)
        (Answered lane input) { y with indexReady := false } := completeAppend_safe hbuilt rfl hcomplete hcleared'
    apply (safe_outcome hcompleted).bind
    intro result z _ hresult
    apply safe_run
    intro z' hzz' _
    refine ⟨trivial, ?_⟩
    intro _ _ _ _ hunlock
    cases hunlock
    cases result with
    | error e => trivial
    | ok r => exact (hresult r rfl).mono hzz'.entries_prefix

theorem append_safe : (append lane input).Safe (discipline P) (fun r => Answered lane input r) s := by
  unfold append
  apply verify_safe.bind
  rintro header t _ ⟨hheader, pem, hverified⟩
  apply safe_ask
  intro answer
  apply safe_liftText
  intro logID _
  apply safe_lift
  intro built hparsed
  have hbuilt : Built lane input built.1 built.2 logID := ⟨header, pem, hheader, hverified, hparsed⟩
  apply ensureIndexReady_safe.bind
  intro _ u _ hready
  exact appendChecked_safe hbuilt hready

end Append

/-! ### Whole runs -/

theorem recoverIndexRequest_safe {s : State P} : (recoverIndexRequest).Safe (discipline P) (fun _ _ => True) s := by
  unfold recoverIndexRequest
  apply safe_run
  intro t _ _
  refine ⟨trivial, ?_⟩
  intro _ _ u _ hlock
  have hu : u.fenced = true := by
    simp only [Call.exec] at hlock
    split at hlock <;> cases hlock
    rfl
  apply safe_run
  intro v huv hinvv
  refine ⟨hinvv.fenced (huv.fenced.trans hu), ?_⟩
  intro _ _ w _ _
  apply (safe_outcome recoverIndex_safe).bind
  intro result x _ hok
  cases result with
  | error e =>
    apply safe_run
    intro y _ _
    exact ⟨trivial, fun _ _ _ _ _ => trivial⟩
  | ok done =>
    apply safe_run
    intro y hxy _
    refine ⟨hxy.complete (hok done rfl), ?_⟩
    intro _ _ z _ _
    apply safe_run
    intro z' _ _
    exact ⟨trivial, fun _ _ _ _ _ => trivial⟩

/-- What an answer promises. -/
def Post : Op → Out P → State P → Prop
  | .append lane input, .appended r, t => Answered lane input r t
  | .append .., .recovered, _ => False
  | .recoverIndex, _, _ => True

theorem guards (P : Primitives) : (discipline P).Guards (service P) (setting P) Post where
  init := Inv.initial
  happens _ _ _ hinv hhappen := hinv.happens hhappen
  restarts _ hinv := ⟨hinv.restart, prefix_rfl⟩
  stable op out s t hgrows hpost := by
    cases op with
    | recoverIndex => trivial
    | append lane input =>
      cases out with
      | appended r => exact Answered.mono hpost hgrows
      | recovered => exact hpost
  body op s hinv := by
    cases op with
    | append lane input =>
      apply append_safe.bind
      intro r t _ hr
      exact hr
    | recoverIndex =>
      apply recoverIndexRequest_safe.bind
      intro _ _ _ _
      trivial

/-! ### What is served -/

/-- For every index there is the one row with the bytes and the hash of the leaf, or there is no leaf and no row. -/
def Exact (s : State P) : Prop :=
  ∀ index, (s.store.events.filter (·.leafIndex = index)).map (fun r => (r.rawEvent, r.leafHash)) =
    (s.entries[index]?.map fun raw => (raw, P.leafHash raw)).toList

theorem Inv.exact {s : State P} (hinv : Inv s) (hcomplete : Complete s) : Exact s := by
  obtain ⟨log, pending, hrep⟩ := hinv.represents
  intro index
  rw [(hrep.of_complete hcomplete).2.filter_leafIndex, hrep.entries, getElem?_map]
  cases log[index]? <;> rfl

/-- Whenever a reader is let in, as long as there is one, and when `append` is past its ready check, the index mirrors the
log. -/
theorem served_index_mirrors_log {g : Gate (service P)} (hrun : Run P g) :
    (∀ t, lockIndexedRead g.state = some t → Exact t) ∧ (0 < g.state.readers → Exact g.state) ∧
      ∀ op eventHash next, g.holder = some (op, .call (.existsByEventHash eventHash) next) → Exact g.state := by
  have hsound := (guards P).sound hrun
  have hready (hindexReady : g.state.indexReady = true) : Exact g.state :=
    hsound.inv.exact (hsound.inv.ready hindexReady)
  refine ⟨?_, ?_, ?_⟩
  · intro t hgranted
    have hentered : happen .readerEnters g.state = some t := hgranted
    have hinv := (hsound.inv.happens hentered).1
    unfold lockIndexedRead at hgranted
    split at hgranted <;> cases hgranted
    rename_i hfree
    exact hinv.exact (hinv.ready hfree.2)
  · intro hreaders
    exact hready (hsound.inv.readers hreaders)
  · intro op eventHash next hholder
    exact hready (hsound.holder op _ hholder g.state (Rely.refl _) hsound.inv).1

set_option maxRecDepth 20000 in
/-- A reader is let in behind an append that was sent twice. -/
theorem served_index_mirrors_log_retried : ∃ t, lockIndexedRead Sample.retried.state = some t ∧ Exact t := by
  have hgranted : (lockIndexedRead Sample.retried.state).isSome = true := by decide +kernel
  obtain ⟨t, ht⟩ := Option.isSome_iff_exists.mp hgranted
  exact ⟨t, ht, (served_index_mirrors_log Sample.run_retried).1 t ht⟩

/-- With a hash that does not collide, no two leaves carry the same event, and every answer to an append names the one leaf
of the event that was asked for. -/
theorem no_duplicate_event {g : Gate (service P)} (hsha256 : Function.Injective P.sha256) (hrun : Run P g) :
    (∀ (i j : Nat) raw raw' event, g.state.entries[i]? = some raw → g.state.entries[j]? = some raw' →
      Leaf.eventIn raw = some event → Leaf.eventIn raw' = some event → i = j) ∧
    ∀ lane input r, (Op.append lane input, Out.appended r) ∈ g.answers → ∃ event raw,
      requestedEvent P lane input = .ok event ∧ g.state.entries[r.leafIndex]? = some raw ∧
        Leaf.eventIn raw = some event ∧ Leaf.logIDIn raw = some (.string r.logID) ∧ r.leafHash = P.leafHash raw ∧
        ∀ (j : Nat) raw', g.state.entries[j]? = some raw' → Leaf.eventIn raw' = some event → j = r.leafIndex := by
  have hsound := (guards P).sound hrun
  obtain ⟨log, pending, hrep⟩ := hsound.inv.represents
  have honce : ∀ (i j : Nat) raw raw' event, g.state.entries[i]? = some raw → g.state.entries[j]? = some raw' →
      Leaf.eventIn raw = some event → Leaf.eventIn raw' = some event → i = j := by
    intro i j raw raw' event hi hj hraw hraw'
    obtain ⟨l, hl, rfl⟩ := hrep.getElem?_entries hi
    obtain ⟨m, hm, rfl⟩ := hrep.getElem?_entries hj
    rw [Leaf.eventIn_raw] at hraw hraw'
    have hinner : l.inner = m.inner := Option.some.inj (hraw.trans hraw'.symm)
    exact hrep.admitted.of_append.sha256_injective hl hm (congrArg P.sha256 hinner)
  refine ⟨honce, ?_⟩
  intro lane input r hanswer
  obtain ⟨event, raw, content, hevent, hraw, hcontent, hhash, hlogID, hleafHash⟩ := hsound.answers _ hanswer
  obtain rfl := hsha256 hhash
  refine ⟨content, raw, hevent, hraw, hcontent, hlogID, hleafHash, ?_⟩
  intro j raw' hj hraw'
  exact honce j r.leafIndex raw' raw content hj hraw hraw' hcontent

set_option maxRecDepth 20000 in
/-- The second of two equal appends is answered with the leaf of the first. -/
theorem no_duplicate_event_retried : ∃ r : AppendResult Sample.primitives, r.duplicate = true ∧ ∃ event raw,
    requestedEvent Sample.primitives .identity ⟨Sample.revocation "i", "ra"⟩ = .ok event ∧
      Sample.retried.state.entries[r.leafIndex]? = some raw ∧ Leaf.eventIn raw = some event ∧
      Leaf.logIDIn raw = some (.string r.logID) := by
  have hanswer : ∃ x ∈ Sample.answers Sample.retried,
      x.1 = .append .identity ⟨Sample.revocation "i", "ra"⟩ ∧
        (match x.2 with | .appended r => r.duplicate | .recovered => false) = true := by decide +kernel
  obtain ⟨⟨op, out⟩, hmem, rfl, hduplicate⟩ := hanswer
  cases out with
  | recovered => cases hduplicate
  | appended r =>
    obtain ⟨event, raw, hevent, hraw, hcontent, hlogID, _⟩ :=
      (no_duplicate_event (fun _ _ h => h) Sample.run_retried).2 .identity ⟨Sample.revocation "i", "ra"⟩ r hmem
    exact ⟨r, hduplicate, event, raw, hevent, hraw, hcontent, hlogID⟩

end AgentNameService.TransparencyLog
