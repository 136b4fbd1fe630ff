/-
Purpose: What recovery makes of a leaf that the direct path did not mirror.  The direct path takes its rows from the typed
  event; recovery reads the sealed bytes, checks them again and takes its rows from what it read.  The module says exactly
  for which accepted events the two write the same rows.
Source: internal/tl/service/{log,ingest,codec}.go, internal/adapter/store/sqlitetl/events.go, internal/tl/event/identity/event.go
Trusted boundary: none
-/
import AgentNameService.TransparencyLog.Ingest

namespace AgentNameService.TransparencyLog

open Interleaving List Except Interleaving.Prog Sequencing Json Registration

/-! ### Checks that are made again -/

section Again

variable (P : Primitives)

theorem norm_certificates (typeName : String) (certs : List CertificateInfo) :
    certs.map (certificateInfoCodec typeName : Codec P.numbers _).norm = certs := map_id _

theorem Event.validate_norm (e : Event) : Event.validate P (Schema.v2.norm e P.numbers) = Event.validate P e := by
  have htype : (Schema.v2.norm e P.numbers).eventType = e.eventType := EventType.ofText_text _
  have hattestations : (Schema.v2.norm e P.numbers).attestations =
      e.attestations.map (attestationsCodec : Codec P.numbers _).norm := rfl
  unfold Event.validate
  rw [htype, hattestations]
  cases e.attestations with
  | none => rfl
  | some a =>
    have hidentity : ((attestationsCodec : Codec P.numbers _).norm a).identityCerts = a.identityCerts :=
      norm_certificates P _ _
    have hserver : ((attestationsCodec : Codec P.numbers _).norm a).serverCerts = a.serverCerts :=
      norm_certificates P _ _
    simp only [Option.map_some]
    rw [hidentity, hserver]
    rfl

theorem V1.Event.validate_norm (e : V1.Event) : V1.Event.validate P (Schema.v1.norm e P.numbers) = V1.Event.validate P e := by
  have htype : (Schema.v1.norm e P.numbers).eventType = e.eventType := EventType.ofText_text _
  have hattestations : (Schema.v1.norm e P.numbers).attestations =
      e.attestations.map (V1.attestationsCodec : Codec P.numbers _).norm := rfl
  unfold V1.Event.validate
  rw [htype, hattestations]
  cases e.attestations with
  | none => rfl
  | some a =>
    have hidentity : ((V1.attestationsCodec : Codec P.numbers _).norm a).validIdentityCerts = a.validIdentityCerts :=
      norm_certificates P _ _
    have hserver : ((V1.attestationsCodec : Codec P.numbers _).norm a).validServerCerts = a.validServerCerts :=
      norm_certificates P _ _
    simp only [Option.map_some]
    rw [hidentity, hserver]
    rfl

namespace Identity

/-- A proven key with the members of its verification method sorted, as the leaf has it. -/
def ProvenKey.sorted (k : ProvenKey) : ProvenKey :=
  { k with verificationMethod := some (canonical P.numbers (k.verificationMethod.getD .null)) }

theorem keys_norm (e : Event) : (Schema.identity.norm e P.numbers).keys = e.keys.map (ProvenKey.sorted P) := rfl

theorem validateKey_sorted {k : ProvenKey} {i : Nat} (h : validateKey P (k, i) = .ok ()) :
    validateKey P (k.sorted P, i) = .ok () ↔ (k.sorted P).id P ≠ "" := by
  simp only [validateKey, bind_eq_ok_iff, require_eq_ok_iff] at h ⊢
  obtain ⟨_, _, _, _, hproof⟩ := h
  constructor
  · rintro ⟨_, _, _, hid, _⟩
    exact hid
  · intro hid
    exact ⟨(), by simp [ProvenKey.sorted], (), hid, hproof⟩

theorem validateProofFields_norm {e : Event} (h : validateProofFields P e = .ok ()) :
    validateProofFields P (Schema.identity.norm e P.numbers) = .ok () ↔ ∀ k ∈ e.keys, (k.sorted P).id P ≠ "" := by
  simp only [validateProofFields, bind_eq_ok_iff, require_eq_ok_iff, forM_eq_ok_iff] at h ⊢
  obtain ⟨_, hkeys, _, hall, _, hrest⟩ := h
  have hvalid {k : ProvenKey} {i : Nat} (hi : e.keys[i]? = some k) : validateKey P (k, i) = .ok () :=
    hall _ (mem_zipIdx_iff_getElem?.mpr hi)
  constructor
  · rintro ⟨_, _, _, hall', _⟩ k hk
    obtain ⟨i, hi⟩ := mem_iff_getElem?.mp hk
    have hmem : (k.sorted P, i) ∈ (Schema.identity.norm e P.numbers).keys.zipIdx := by
      rw [mem_zipIdx_iff_getElem?, keys_norm, getElem?_map, hi]
      rfl
    exact (validateKey_sorted P (hvalid hi)).mp (hall' _ hmem)
  · intro hnamed
    refine ⟨(), ?_, (), ?_, (), hrest⟩
    · rw [keys_norm]
      simpa using hkeys
    · rintro ⟨k', i⟩ hk'
      rw [mem_zipIdx_iff_getElem?, keys_norm, getElem?_map, Option.map_eq_some_iff] at hk'
      obtain ⟨k, hi, rfl⟩ := hk'
      exact (validateKey_sorted P (hvalid hi)).mpr (hnamed k (mem_of_getElem? hi))

theorem validateAnsIDs_norm (e : Event) : validateAnsIDs (Schema.identity.norm e P.numbers) = validateAnsIDs e := by
  have htype : (Schema.identity.norm e P.numbers).eventType = e.eventType := EventType.ofText_text _
  have hids : (Schema.identity.norm e P.numbers).ansIDs = e.ansIDs := map_id _
  unfold validateAnsIDs
  rw [htype, hids]

theorem Event.validate_norm_iff {e : Event} (h : Event.validate P e = .ok ()) :
    Event.validate P (Schema.identity.norm e P.numbers) = .ok () ↔
      (e.eventType.isProof = true → ∀ k ∈ e.keys, (k.sorted P).id P ≠ "") := by
  have htype : (Schema.identity.norm e P.numbers).eventType = e.eventType := EventType.ofText_text _
  unfold Event.validate at h ⊢
  rw [validateAnsIDs_norm, htype]
  simp only [bind_eq_ok_iff, require_eq_ok_iff] at h ⊢
  obtain ⟨_, hidentity, _, hid, _, hkind, _, hvalue, _, htime, _, hids, hrest⟩ := h
  by_cases hproof : e.eventType.isProof = true
  · rw [if_pos hproof, bind_eq_ok_iff] at hrest
    obtain ⟨_, hfields, hrevoked⟩ := hrest
    have hnamed := validateProofFields_norm P hfields
    constructor
    · rintro ⟨_, _, _, _, _, _, _, _, _, _, _, _, hrest'⟩ _
      rw [if_pos hproof, bind_eq_ok_iff] at hrest'
      obtain ⟨_, hfields', _⟩ := hrest'
      exact hnamed.mp hfields'
    · intro hkeys
      refine ⟨(), hidentity, (), hid, (), hkind, (), hvalue, (), htime, (), hids, ?_⟩
      rw [if_pos hproof, bind_eq_ok_iff]
      exact ⟨(), hnamed.mpr (hkeys hproof), hrevoked⟩
  · rw [if_neg hproof] at hrest
    apply iff_of_true
    · refine ⟨(), hidentity, (), hid, (), hkind, (), hvalue, (), htime, (), hids, ?_⟩
      rw [if_neg hproof]
      exact hrest
    · intro hisProof
      exact absurd hisProof hproof

end Identity

/-- The verification method of every proven key has an id also when its members are sorted. -/
def Schema.KeysNamed : (s : Schema) → s.Event → Prop
  | .v2 => fun _ => True
  | .v1 => fun _ => True
  | .identity => fun e => e.eventType.isProof = true → ∀ k ∈ e.keys, (k.sorted P).id P ≠ ""

/-- An event that passed its checks passes them again after it was read back, just where its keys are still named. -/
theorem Leaf.recoverable_iff {P : Primitives} (l : Leaf P) : l.Recoverable ↔ l.schema.KeysNamed P l.event := by
  obtain ⟨schema, event, _, _, _, _, hvalid, _, _, _, _⟩ := l
  unfold Leaf.Recoverable
  cases schema with
  | v2 =>
    have hsame : Schema.v2.validate P (Schema.v2.norm event P.numbers) = .ok () :=
      (Event.validate_norm P event).trans hvalid
    exact iff_of_true hsame trivial
  | v1 =>
    have hsame : Schema.v1.validate P (Schema.v1.norm event P.numbers) = .ok () :=
      (V1.Event.validate_norm P event).trans hvalid
    exact iff_of_true hsame trivial
  | identity => exact Identity.Event.validate_norm_iff P hvalid

end Again

/-! ### Both paths by themselves -/

section Paths

variable {P : Primitives} {world : (q : Query) → q.Answer} {input : Sequencing} {s t : State P} {index : Nat}
  {leafHash eventHash : P.Digest} {env : Signable} {raw : Json} {l : Leaf P}

theorem ends_run_iff {c : Call P} {r : c.Reply} : (run c).Ends input world s r t ↔ c.exec input s = .ok (r, t) :=
  ends_perform_iff

theorem ends_liftText_iff {α : Type} {result : Except String α} {a : α} :
    (liftText result).Ends input world s a t ↔ result = .ok a ∧ t = s := by
  unfold liftText lift
  rw [ends_lift_iff, mapError_eq_ok_iff]

theorem ends_inContext_iff {α : Type} {context : String} {p : Program P α} {a : α} :
    (inContext context p).Ends input world s a t ↔ p.Ends input world s a t := by
  constructor
  · intro h
    obtain ⟨result, u, houtcome, hlift⟩ := ends_bind_iff.mp h
    obtain ⟨hresult, rfl⟩ := ends_lift_iff.mp hlift
    obtain rfl := mapError_eq_ok_iff.mp hresult
    exact ends_outcome_iff.mp houtcome
  · intro h
    exact ends_bind_iff.mpr ⟨.ok a, t, ends_outcome_iff.mpr h, rfl⟩

/-- The row that was just written is found. -/
theorem EventStore.getEventByLeafIndex_storeEvent {store store' : EventStore P}
    (h : store.storeEvent index leafHash eventHash env raw = .ok store') :
    store'.getEventByLeafIndex index = some (recordOf index leafHash eventHash env raw) := by
  obtain ⟨_, hfree, _, hevents, _⟩ := EventStore.storeEvent_eq_ok_iff.mp h
  have hnone : store.events.find? (·.leafIndex = index) = none := by
    rw [find?_eq_none]
    intro r hr hindex
    exact hfree (mem_map.mpr ⟨r, hr, of_decide_eq_true hindex⟩)
  unfold EventStore.getEventByLeafIndex
  rw [hevents, find?_append, hnone, Option.none_or]
  simp [recordOf]

theorem ends_storeEvent_iff {r : EventRecord P} : (storeEvent index leafHash eventHash env raw).Ends input world s r t ↔
      ∃ store, s.store.storeEvent index leafHash eventHash env raw = .ok store ∧ t = { s with store } ∧
        r = recordOf index leafHash eventHash env raw := by
  constructor
  · intro h
    obtain ⟨_, u, hwrite, hrest⟩ := ends_bind_iff.mp h
    obtain ⟨row, v, hread, hlift⟩ := ends_bind_iff.mp hrest
    obtain ⟨hfound, rfl⟩ := ends_lift_iff.mp hlift
    have hwritten := ends_run_iff.mp hwrite
    have hrow := ends_run_iff.mp hread
    simp only [Call.exec] at hwritten
    split at hwritten
    · rename_i store hok
      cases hwritten
      cases hrow
      rw [EventStore.found_eq_ok_iff, EventStore.getEventByLeafIndex_storeEvent hok] at hfound
      exact ⟨store, hok, rfl, (Option.some.inj hfound).symm⟩
    · cases hwritten
  · rintro ⟨store, hok, rfl, rfl⟩
    have hwrite : (Call.storeEvent index leafHash eventHash env raw).exec input s = .ok ((), { s with store }) := by
      simp only [Call.exec, hok]
    have hfound := EventStore.found_eq_ok_iff.mpr (EventStore.getEventByLeafIndex_storeEvent hok)
    refine ends_bind_iff.mpr ⟨(), _, ends_run_iff.mpr hwrite, ends_bind_iff.mpr ⟨_, _, ends_run_iff.mpr rfl, ?_⟩⟩
    exact ends_lift_iff.mpr ⟨hfound, rfl⟩

/-- Recovery restores a leaf just where the bytes pass the checks again and the tables take the rows. -/
theorem ends_restoreIndexedLeaf_iff (hnone : s.store.getEventByLeafIndex index = none) :
    (restoreIndexedLeaf index l.raw (P.leafHash l.raw)).Ends input world s () t ↔
      l.raw.depth ≤ 10000 ∧ l.Recoverable ∧ ∃ store,
        s.store.storeEvent index (P.leafHash l.raw) (P.sha256 l.inner) l.read l.raw = .ok store ∧ t = { s with store } := by
  have hread : (Call.getEventByLeafIndex index).exec input s = .ok (none, s) := congrArg (fun row => ok (row, s)) hnone
  constructor
  · intro h
    obtain ⟨_, _, htile, h₁⟩ := ends_bind_iff.mp h
    obtain ⟨_, rfl⟩ := ends_liftText_iff.mp htile
    obtain ⟨existing, _, hexisting, h₂⟩ := ends_bind_iff.mp h₁
    cases hread.symm.trans (ends_run_iff.mp hexisting)
    simp only [ends_bind_iff, ends_liftText_iff, ends_storeEvent_iff, ends_pure_iff] at h₂
    obtain ⟨env, _, ⟨henv, rfl⟩, _, _, ⟨_, rfl⟩, _, _, ⟨_, rfl⟩, inner, _, ⟨hinner, rfl⟩, _, _, ⟨store, hstore, rfl, _⟩, _, rfl⟩ := h₂
    obtain ⟨hdepth, hrecoverable, rfl⟩ := l.decodeStoredEnvelope_raw.mp henv
    obtain ⟨_, rfl⟩ := l.innerEventBytes_raw.mp hinner
    exact ⟨hdepth, hrecoverable, store, hstore, rfl⟩
  · rintro ⟨hdepth, hrecoverable, store, hstore, rfl⟩
    have hdecode := l.decodeStoredEnvelope_raw.mpr ⟨hdepth, hrecoverable, rfl⟩
    have hbytes := (l.normalized hrecoverable).leafBytes_signable
    rw [Leaf.raw_normalized] at hbytes
    have hinner := l.innerEventBytes_raw.mpr ⟨hdepth, rfl⟩
    refine ends_bind_iff.mpr ⟨(), s, ends_liftText_iff.mpr ⟨require_eq_ok_iff.mpr rfl, rfl⟩, ?_⟩
    refine ends_bind_iff.mpr ⟨none, s, ends_run_iff.mpr hread, ?_⟩
    refine ends_bind_iff.mpr ⟨_, s, ends_liftText_iff.mpr ⟨hdecode, rfl⟩, ?_⟩
    refine ends_bind_iff.mpr ⟨_, s, ends_liftText_iff.mpr ⟨hbytes, rfl⟩, ?_⟩
    refine ends_bind_iff.mpr ⟨(), s, ends_liftText_iff.mpr ⟨require_eq_ok_iff.mpr rfl, rfl⟩, ?_⟩
    refine ends_bind_iff.mpr ⟨_, s, ends_liftText_iff.mpr ⟨hinner, rfl⟩, ?_⟩
    exact ends_bind_iff.mpr ⟨_, _, ends_storeEvent_iff.mpr ⟨store, hstore, rfl, rfl⟩, rfl⟩

/-- What the Merkle log makes of a new leaf. -/
theorem ends_logAppend_iff {a : LogAppend P} :
    (logAppend l.signable).Ends sequenced world s a t ↔
      a = ⟨s.entries.length, P.leafHash l.raw, l.raw, false⟩ ∧ t = { s with entries := s.entries ++ [l.raw] } := by
  constructor
  · intro h
    obtain ⟨_, _, hvalid, h₁⟩ := ends_bind_iff.mp h
    obtain ⟨_, rfl⟩ := ends_liftText_iff.mp hvalid
    obtain ⟨raw, _, hraw, h₂⟩ := ends_bind_iff.mp h₁
    obtain ⟨hbytes, rfl⟩ := ends_liftText_iff.mp hraw
    cases l.leafBytes_signable.symm.trans hbytes
    obtain ⟨added, _, hadded, h₃⟩ := ends_bind_iff.mp h₂
    cases ends_run_iff.mp hadded
    obtain ⟨entry, _, hentry, h₄⟩ := ends_bind_iff.mp h₃
    obtain ⟨heq, rfl⟩ := ends_lift_iff.mp hentry
    cases heq
    exact ends_pure_iff.mp h₄
  · rintro ⟨rfl, rfl⟩
    refine ends_bind_iff.mpr ⟨(), s, ends_liftText_iff.mpr ⟨l.validate_signable, rfl⟩, ?_⟩
    refine ends_bind_iff.mpr ⟨_, s, ends_liftText_iff.mpr ⟨l.leafBytes_signable, rfl⟩, ?_⟩
    refine ends_bind_iff.mpr ⟨_, _, ends_run_iff.mpr rfl, ?_⟩
    exact ends_bind_iff.mpr ⟨_, _, ends_lift_iff.mpr ⟨rfl, rfl⟩, rfl⟩

/-- The direct path mirrors a new leaf just where the tables take the rows. -/
theorem ends_completeAppend_iff {logID : String} {result : AppendResult P} :
    (completeAppend l.signable eventHash logID).Ends sequenced world s result t ↔
      ∃ store, s.store.storeEvent s.entries.length (P.leafHash l.raw) eventHash l.signable l.raw = .ok store ∧
        t = { s with entries := s.entries ++ [l.raw], store, indexReady := true } ∧
        result = ⟨logID, s.entries.length, P.leafHash l.raw, false, s.entries.length + 1⟩ := by
  constructor
  · intro h
    obtain ⟨_, _, hadd, h₁⟩ := ends_bind_iff.mp h
    obtain ⟨rfl, rfl⟩ := ends_logAppend_iff.mp (ends_inContext_iff.mp hadd)
    rw [if_neg Bool.false_ne_true] at h₁
    obtain ⟨_, _, hstore, h₂⟩ := ends_bind_iff.mp h₁
    obtain ⟨store, hok, rfl, _⟩ := ends_storeEvent_iff.mp (ends_inContext_iff.mp hstore)
    obtain ⟨_, _, hready, h₃⟩ := ends_bind_iff.mp h₂
    cases ends_run_iff.mp hready
    obtain ⟨rfl, rfl⟩ := ends_pure_iff.mp h₃
    exact ⟨store, hok, rfl, rfl⟩
  · rintro ⟨store, hok, rfl, rfl⟩
    refine ends_bind_iff.mpr ⟨_, _, ends_inContext_iff.mpr (ends_logAppend_iff.mpr ⟨rfl, rfl⟩), ?_⟩
    rw [if_neg Bool.false_ne_true]
    refine ends_bind_iff.mpr ⟨_, _, ends_inContext_iff.mpr (ends_storeEvent_iff.mpr ⟨store, hok, rfl, rfl⟩), ?_⟩
    exact ends_bind_iff.mpr ⟨(), _, ends_run_iff.mpr rfl, rfl⟩

end Paths

/-! ### Which rows the tables take -/

section Tables

variable {P : Primitives} {store : EventStore P} {log : List (Leaf P)} {l : Leaf P}

theorem Mirrors.leafIndex_lt (h : Mirrors store log) {row : LinkRow} (hrow : row ∈ store.links) : row.leafIndex < log.length := by
  rw [h.links, mem_flatten] at hrow
  obtain ⟨rows, hrows, hrow⟩ := hrow
  obtain ⟨i, hi, rfl⟩ := mem_mapIdx.mp hrows
  have hindex : ∀ row ∈ (log[i]).links i, row.leafIndex = i := by
    intro row hrow
    unfold Leaf.links linkRows at hrow
    split at hrow
    · cases hrow
    · split at hrow
      · cases hrow
      · obtain ⟨_, _, rfl⟩ := mem_map.mp hrow
        rfl
  rw [hindex row hrow]
  exact hi

/-- The agents that an event links. -/
def Signable.linkedAgents (env : Signable) : List String := (env.identity?.map Prod.snd).getD []

theorem Leaf.identityID_ne (l : Leaf P) {identityID : String} {agents : List String}
    (h : l.signable.identity? = some (identityID, agents)) : identityID ≠ "" := by
  obtain ⟨schema, event, _, _, _, _, hvalid, _, _, _, _⟩ := l
  cases schema with
  | v2 | v1 => cases h
  | identity =>
    cases h
    simp only [Schema.validate, Identity.Event.validate, bind_eq_ok_iff, require_eq_ok_iff] at hvalid
    obtain ⟨_, _, _, hid, _⟩ := hvalid
    exact hid

theorem Leaf.links_eq (l : Leaf P) (index : Nat) : l.links index = l.signable.linkedAgents.map fun ansID =>
    ⟨index, (l.signable.identity?.map Prod.fst).getD "", ansID, l.signable.eventType⟩ := by
  unfold Leaf.links linkRows Signable.linkedAgents
  cases hidentity : l.signable.identity? with
  | none => rfl
  | some pair => exact if_neg (l.identityID_ne hidentity)

/-- The next leaf is mirrored just where it is nested at most so deep and names every agent once. -/
theorem Mirrors.exists_storeEvent_iff (h : Mirrors store log) {leafHash eventHash : P.Digest} :
    (∃ store', store.storeEvent log.length leafHash eventHash l.signable l.raw = .ok store') ↔
      l.raw.depth ≤ 1000 ∧ l.signable.linkedAgents.Nodup := by
  have hnew : ((linkRows log.length l.signable).map fun row => (row.leafIndex, row.ansID)).Nodup ↔
      l.signable.linkedAgents.Nodup := by
    change ((l.links log.length).map fun row => (row.leafIndex, row.ansID)).Nodup ↔ _
    rw [l.links_eq, map_map]
    exact nodup_map_iff fun a b hab => (Prod.mk.inj hab).2
  have hfree : log.length ∉ store.events.map EventRecord.leafIndex := by
    change log.length ∉ store.leafIndexes
    rw [h.leafIndexes_eq, mem_range]
    exact Nat.lt_irrefl _
  have hapart : ∀ a ∈ store.links.map fun row => (row.leafIndex, row.ansID),
      ∀ b ∈ (linkRows log.length l.signable).map fun row => (row.leafIndex, row.ansID), a ≠ b := by
    intro a ha b hb heq
    obtain ⟨old, hold, rfl⟩ := mem_map.mp ha
    obtain ⟨new, hnew', rfl⟩ := mem_map.mp hb
    change new ∈ l.links log.length at hnew'
    rw [l.links_eq] at hnew'
    obtain ⟨_, _, rfl⟩ := mem_map.mp hnew'
    have hlt := h.leafIndex_lt hold
    have hindex : old.leafIndex = log.length := (Prod.mk.inj heq).1
    omega
  have hlinks : ((store.links ++ linkRows log.length l.signable).map fun row => (row.leafIndex, row.ansID)).Nodup ↔
      l.signable.linkedAgents.Nodup := by
    rw [map_append, nodup_append, hnew]
    exact ⟨fun hall => hall.2.1, fun hall => ⟨store.link_unique, hall, hapart⟩⟩
  constructor
  · rintro ⟨store', hok⟩
    obtain ⟨hdepth, _, hnodup, _⟩ := EventStore.storeEvent_eq_ok_iff.mp hok
    exact ⟨hdepth, hlinks.mp hnodup⟩
  · rintro ⟨hdepth, hnodup⟩
    let row := recordOf log.length leafHash eventHash l.signable l.raw
    have hunique := store.leafIndex_unique_append (r := row) hfree
    have hraw := store.raw_valid_append (r := row) hdepth
    refine ⟨⟨store.events ++ [row], store.links ++ _, hunique, hraw, hlinks.mpr hnodup⟩, ?_⟩
    exact EventStore.storeEvent_eq_ok_iff.mpr ⟨hdepth, hfree, hlinks.mpr hnodup, rfl, rfl⟩

/-- The rows of what was read are the rows of what was written. -/
theorem storeEvent_read_iff {store' : EventStore P} {index : Nat} :
    store.storeEvent index (P.leafHash l.raw) (P.sha256 l.inner) l.read l.raw = .ok store' ↔
      store.storeEvent index (P.leafHash l.raw) (P.sha256 l.inner) l.signable l.raw = .ok store' := by
  rw [EventStore.storeEvent_eq_ok_iff, EventStore.storeEvent_eq_ok_iff, l.recordOf_read, l.linkRows_read]
  rfl

end Tables

/-! ### Recovery and the direct path -/

section Agreement

variable {P : Primitives}

/-- A request that `append` accepts in a state, with what it makes of it: the envelope, the canonical event, the log's
signature and the bytes of the leaf. -/
structure Accepted (s : State P) (lane : Schema) (input : AppendInput) (env : Signable) (canonical : Json)
    (logID signature : String) (raw : Json) : Prop where
  built : Built (P := P) lane input env canonical logID
  cleared : Cleared s.store env canonical
  valid : (env.setOuterSignature signature).validate P = .ok ()
  bytes : (env.setOuterSignature signature).leafBytes P = .ok raw

/-- The direct path writes its rows, and where it is skipped recovery ends well and leaves the same tables. -/
def RecoversAlike (world : (q : Query) → q.Answer) (s : State P) (signed : Signable) (eventHash : P.Digest) (logID : String)
    (raw : Json) : Prop :=
  ∃ result t t', (completeAppend signed eventHash logID).Ends sequenced world s result t ∧
    (restoreIndexedLeaf result.leafIndex raw (P.leafHash raw)).Ends sequenced world
      { s with entries := t.entries } () t' ∧ t'.store = t.store

/-- An event that can be restored: it names every agent once, it is not nested too deep, and the verification methods of its
keys have their ids also when their members are sorted. -/
structure Restorable (P : Primitives) (env : Signable) (canonical : Json) : Prop where
  distinct : env.linkedAgents.Nodup
  shallow : canonical.depth ≤ 997
  named : ∀ e, env.envelope.innerEvent = some e → env.schema.KeysNamed P e

theorem Leaf.restorable_iff (l : Leaf P) {env : Signable} {signature : String} (h : l.signable = env.setOuterSignature signature) :
    Restorable P env l.inner ↔ l.raw.depth ≤ 1000 ∧ l.signable.linkedAgents.Nodup ∧ l.Recoverable := by
  have hdepth := l.depth_raw
  have hnamed : l.Recoverable ↔ ∀ e, env.envelope.innerEvent = some e → env.schema.KeysNamed P e := by
    have hleaf : l.Recoverable ↔ ∀ e, l.signable.envelope.innerEvent = some e → l.signable.schema.KeysNamed P e := by
      rw [l.recoverable_iff]
      constructor
      · rintro hkeys e he
        cases he
        exact hkeys
      · intro hall
        exact hall l.event rfl
    rw [hleaf, h]
    rfl
  have hagents : l.signable.linkedAgents = env.linkedAgents := by
    rw [h]
    rfl
  rw [hnamed, hagents]
  constructor
  · intro hrestorable
    exact ⟨by have := hrestorable.shallow; omega, hrestorable.distinct, hrestorable.named⟩
  · rintro ⟨hraw, hdistinct, hkeys⟩
    exact ⟨hdistinct, by omega, hkeys⟩

section Next

variable (world : (q : Query) → q.Answer) {s : State P} {log : List (Leaf P)}

/-- The direct path ends well just where the tables take the rows. -/
theorem Leaf.exists_ends_completeAppend_iff (l : Leaf P) (logID : String) (hmirrors : Mirrors s.store log)
    (hentries : s.entries.length = log.length) : (∃ result t, (completeAppend l.signable (P.sha256 l.inner) logID).Ends sequenced world s result t) ↔
      l.raw.depth ≤ 1000 ∧ l.signable.linkedAgents.Nodup := by
  rw [← hmirrors.exists_storeEvent_iff]
  simp only [ends_completeAppend_iff, hentries]
  constructor
  · rintro ⟨_, _, store, hstore, _, _⟩
    exact ⟨store, hstore⟩
  · rintro ⟨store, hstore⟩
    exact ⟨_, _, store, hstore, rfl, rfl⟩

/-- Recovery ends well just where moreover the event passes its checks again. -/
theorem Leaf.exists_ends_restoreIndexedLeaf_iff (l : Leaf P) (hmirrors : Mirrors s.store log) :
    (∃ t, (restoreIndexedLeaf log.length l.raw (P.leafHash l.raw)).Ends sequenced world s () t) ↔
      l.raw.depth ≤ 1000 ∧ l.signable.linkedAgents.Nodup ∧ l.Recoverable := by
  have hnone : s.store.getEventByLeafIndex log.length = none := by
    rw [hmirrors.getEventByLeafIndex_eq, getElem?_eq_none (Nat.le_refl _), Option.map_none]
  simp only [ends_restoreIndexedLeaf_iff hnone, storeEvent_read_iff]
  constructor
  · rintro ⟨_, _, hrecoverable, store, hstore, _⟩
    obtain ⟨hdepth, hnodup⟩ := hmirrors.exists_storeEvent_iff.mp ⟨store, hstore⟩
    exact ⟨hdepth, hnodup, hrecoverable⟩
  · rintro ⟨hdepth, hnodup, hrecoverable⟩
    obtain ⟨store, hstore⟩ := hmirrors.exists_storeEvent_iff.mpr ⟨hdepth, hnodup⟩
    exact ⟨_, by omega, hrecoverable, store, hstore, rfl⟩

variable {world}

/-- Where both end well, they leave the same tables. -/
theorem Leaf.store_eq (l : Leaf P) (hmirrors : Mirrors s.store log) (hentries : s.entries.length = log.length) {logID : String}
    {result : AppendResult P} {t t' u : State P}
    (hdirect : (completeAppend l.signable (P.sha256 l.inner) logID).Ends sequenced world s result t)
    (hu : u.store = s.store) (hrestore : (restoreIndexedLeaf log.length l.raw (P.leafHash l.raw)).Ends sequenced world u () t') :
    t'.store = t.store := by
  have hnone : u.store.getEventByLeafIndex log.length = none := by
    rw [hu, hmirrors.getEventByLeafIndex_eq, getElem?_eq_none (Nat.le_refl _), Option.map_none]
  obtain ⟨store, hstore, rfl, _⟩ := ends_completeAppend_iff.mp hdirect
  obtain ⟨_, _, store', hstore', rfl⟩ := (ends_restoreIndexedLeaf_iff hnone).mp hrestore
  rw [storeEvent_read_iff, hu, ← hentries, hstore] at hstore'
  exact (ok.inj hstore').symm

theorem Leaf.recoversAlike_iff (l : Leaf P) (hmirrors : Mirrors s.store log) (hentries : s.entries.length = log.length) :
    RecoversAlike world s l.signable (P.sha256 l.inner) l.logID l.raw ↔
      l.raw.depth ≤ 1000 ∧ l.signable.linkedAgents.Nodup ∧ l.Recoverable := by
  have hindex {result : AppendResult P} {t : State P}
      (hdirect : (completeAppend l.signable (P.sha256 l.inner) l.logID).Ends sequenced world s result t) :
      result.leafIndex = log.length := by
    obtain ⟨_, _, _, rfl⟩ := ends_completeAppend_iff.mp hdirect
    exact hentries
  constructor
  · rintro ⟨result, t, t', hdirect, hrestore, _⟩
    rw [hindex hdirect] at hrestore
    exact (l.exists_ends_restoreIndexedLeaf_iff world (s := { s with entries := t.entries }) hmirrors).mp ⟨t', hrestore⟩
  · intro h
    obtain ⟨result, t, hdirect⟩ := (l.exists_ends_completeAppend_iff world l.logID hmirrors hentries).mpr ⟨h.1, h.2.1⟩
    obtain ⟨t', hrestore⟩ := (l.exists_ends_restoreIndexedLeaf_iff world (s := { s with entries := t.entries }) hmirrors).mpr h
    refine ⟨result, t, t', hdirect, ?_, l.store_eq (u := { s with entries := t.entries }) hmirrors hentries hdirect rfl hrestore⟩
    rw [hindex hdirect]
    exact hrestore

end Next

/-- In every run, of every event that is accepted: recovery writes what the direct path would have written just where the
event can be restored. -/
theorem recovery_agrees_iff {g : Gate (service P)} (hrun : Run P g) (hready : g.state.indexReady = true) {lane : Schema}
    {input : AppendInput} {env : Signable} {canonical raw : Json} {logID signature : String}
    (haccepted : Accepted g.state lane input env canonical logID signature raw) (world : (q : Query) → q.Answer) :
    RecoversAlike world g.state (env.setOuterSignature signature) (P.sha256 canonical) logID raw ↔
      Restorable P env canonical := by
  have hinv := ((guards P).sound hrun).inv
  obtain ⟨log, pending, hrep⟩ := hinv.represents
  obtain ⟨_, hmirrors⟩ := hrep.of_complete (hinv.ready hready)
  obtain ⟨l, _, hsignable, rfl, rfl, rfl, _⟩ := haccepted.built.leaf haccepted.valid haccepted.bytes
  rw [← hsignable, l.recoversAlike_iff hmirrors hrep.entries_length, l.restorable_iff hsignable]

/-- A leaf whose request passes the checks was accepted. -/
theorem Requested.accepted {s : State P} {l : Leaf P} {input : AppendInput} (pem : String) (h : Requested l input pem)
    (hcleared : Cleared s.store ⟨l.schema, l.schema.buildEnvelope l.logID l.event l.keyID l.producerSignature⟩ l.inner) :
    Accepted s l.schema input ⟨l.schema, l.schema.buildEnvelope l.logID l.event l.keyID l.producerSignature⟩ l.inner l.logID
      l.signature l.raw where
  built := by
    obtain ⟨raID, hheader, hevent⟩ := h.parsed
    obtain ⟨members, hmembers⟩ := Leaf.encode_eq_object l.schema l.event
    have hcanonical : l.schema.canonicalizeEvent P l.event = .ok l.inner := by
      rw [Schema.canonicalizeEvent, Leaf.Schema.canonicalize_eq_ok_iff, hmembers, canonicalize_object, ← hmembers]
      exact ⟨l.sound, rfl⟩
    refine ⟨_, pem, hheader, h.verified, parseAndBuild_eq_ok_iff.mpr ⟨l.event, hevent, hcanonical, ?_⟩⟩
    rw [← h.signature]
  cleared := hcleared
  valid := l.validate_signable
  bytes := l.leafBytes_signable

end Agreement

/-! ### Events of a small log -/

namespace Sample

/-- The members that all events of the sample have. -/
def common (eventType : String) : List (String × Json) :=
  [("identityId", .string "i"), ("kind", .string "did:web"), ("value", .string "did:web:a"), ("eventType", .string eventType),
    ("timestamp", .string "t")]

/-- The proof of a key whose verification method has an id in two spellings. -/
def verification (first second : String × Json) : Body :=
  .document (.object (common "IDENTITY_VERIFIED" ++ [("verifiedAt", .string "t"), ("providerId", .string "o"), ("keys", .array
    [.object [("verificationMethod", .object [first, second]), ("signedProof", .string "p")]])]))

def verificationEvent (first second : String × Json) : Identity.Event where
  ansIDs := []
  eventType := .identityVerified
  identityID := "i"
  kind := "did:web"
  keys := [⟨some (.object [first, second]), "p"⟩]
  previousValue := ""
  proofMethod := ""
  providerID := "o"
  raID := "ra"
  revokedAt := ""
  timestamp := "t"
  value := "did:web:a"
  verifiedAt := "t"

/-- The leaf of such a proof. -/
def verificationLeaf (first second : String × Json)
    (hvalid : Schema.identity.validate primitives (verificationEvent first second) = .ok ())
    (hsound : defect primitives.numbers ((Schema.identity.codec : Codec primitives.numbers _).encode
      (verificationEvent first second)) = none) : Leaf primitives :=
  leaf .identity (verificationEvent first second) hvalid hsound

/-- A method with one id. -/
def plain : Leaf primitives := verificationLeaf ("id", .string "a") ("type", .string "k") rfl rfl

/-- A method whose last member is its id; sorted, the empty one comes last. -/
def shadowed : Leaf primitives := verificationLeaf ("id", .string "") ("ID", .string "a") rfl rfl

/-- The log after its first recovery. -/
def recovered : Gate (service primitives) := serve (.start _) .recoverIndex "log-0"

theorem run_recovered : Run primitives recovered := run_serve .refl _ _

theorem ready_recovered : recovered.state.indexReady = true := by decide +kernel

theorem store_recovered : recovered.state.store = .empty := by rfl

theorem length_recovered : recovered.state.entries.length = 0 := by decide +kernel

theorem mirrors_recovered : Mirrors recovered.state.store [] := by
  rw [store_recovered]
  exact ⟨rfl, rfl⟩

theorem signable_plain : (⟨.identity, Schema.identity.buildEnvelope "log-1" plain.event "key" "ra"⟩ :
    Signable).setOuterSignature "seal" = plain.signable := rfl

theorem signable_shadowed : (⟨.identity, Schema.identity.buildEnvelope "log-1" shadowed.event "key" "ra"⟩ :
    Signable).setOuterSignature "seal" = shadowed.signable := rfl

theorem depth_plain : plain.raw.depth ≤ 1000 := by decide +kernel

theorem depth_shadowed : shadowed.raw.depth ≤ 1000 := by decide +kernel

theorem cleared_recovered {env : Signable} (canonical : Json) (h : env.schema = .identity) :
    Cleared recovered.state.store env canonical := by
  rw [store_recovered]
  exact ⟨rfl, fun hne => absurd h hne⟩

theorem accepted_plain : Accepted recovered.state .identity ⟨verification ("id", .string "a") ("type", .string "k"), "ra"⟩
    ⟨.identity, Schema.identity.buildEnvelope "log-1" plain.event "key" "ra"⟩ plain.inner "log-1" "seal" plain.raw :=
  Requested.accepted (l := plain) "pem" ⟨rfl, ⟨"ra", rfl, rfl⟩, rfl⟩ (cleared_recovered _ rfl)

theorem accepted_shadowed : Accepted recovered.state .identity ⟨verification ("id", .string "") ("ID", .string "a"), "ra"⟩
    ⟨.identity, Schema.identity.buildEnvelope "log-1" shadowed.event "key" "ra"⟩ shadowed.inner "log-1" "seal" shadowed.raw :=
  Requested.accepted (l := shadowed) "pem" ⟨rfl, ⟨"ra", rfl, rfl⟩, rfl⟩ (cleared_recovered _ rfl)

end Sample

open Sample

/-- A proof of a key with one id is restored as it was written. -/
theorem plain_key_is_restored : RecoversAlike (world "log-1") recovered.state plain.signable
    (primitives.sha256 plain.inner) "log-1" plain.raw := by
  rw [← signable_plain]
  apply (recovery_agrees_iff run_recovered ready_recovered accepted_plain _).mpr
  constructor
  · exact nodup_nil
  · have hraw := depth_plain
    rw [plain.depth_raw] at hraw
    exact Nat.le_of_add_le_add_right hraw
  · intro e he _
    cases he
    decide +kernel

/-- A proof of a key whose method has an empty id and then another one, in capitals: it is accepted and mirrored directly, and
recovery rejects its leaf. -/
theorem recovery_rejects_shadowed_id : ∃ input env canonical raw,
    Accepted recovered.state .identity input env canonical "log-1" "seal" raw ∧
      (∃ result t, (completeAppend (env.setOuterSignature "seal") (primitives.sha256 canonical) "log-1").Ends
        sequenced (world "log-1") recovered.state result t) ∧
      ¬∃ t, (restoreIndexedLeaf 0 raw (primitives.leafHash raw)).Ends sequenced (world "log-1")
        { recovered.state with entries := [raw] } () t := by
  refine ⟨_, _, _, _, accepted_shadowed, ?_, ?_⟩
  · rw [signable_shadowed]
    exact (shadowed.exists_ends_completeAppend_iff _ _ mirrors_recovered length_recovered).mpr
      ⟨depth_shadowed, nodup_nil⟩
  · intro hends
    have hrecoverable := ((shadowed.exists_ends_restoreIndexedLeaf_iff _
      (s := { recovered.state with entries := [shadowed.raw] }) mirrors_recovered).mp hends).2.2
    exact shadowed.recoverable_iff.mp hrecoverable rfl _ mem_cons_self rfl

end AgentNameService.TransparencyLog
