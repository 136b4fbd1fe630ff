/-
Purpose: The log as a list of leaves, each accepted against the leaves before it, and the mirror as the rows of a
  beginning of that list.  What is kept in every state is one representation of the stored bytes by such a list; the
  discipline says what each call of the ingest pipeline has to know and what it keeps.
Source: internal/tl/service/{log,ingest}.go, internal/adapter/store/sqlitetl/events.go
Trusted boundary: none
-/
import AgentNameService.TransparencyLog.Leaf
import AgentNameService.TransparencyLog.Service

namespace AgentNameService.TransparencyLog

open List Except Json Interleaving Codec

variable {index : Nat} {raw : Json}

/-! ### The rows of a leaf -/

namespace Leaf

variable {P : Primitives} (l : Leaf P)

/-- The envelope that the bytes of a leaf are read as. -/
def read : Signable := ⟨l.schema, (l.schema.envelopeCodec : Codec P.numbers _).norm l.envelope⟩

/-- The row that mirrors a leaf. -/
def row (index : Nat) : EventRecord P := recordOf index (P.leafHash l.raw) (P.sha256 l.inner) l.signable l.raw

/-- The links that mirror a leaf. -/
def links (index : Nat) : List LinkRow := linkRows index l.signable

theorem identity?_read : l.read.identity? = l.signable.identity? := l.schema.identity?_norm l.event

theorem eventType_read : l.read.eventType = l.signable.eventType := l.schema.eventType_norm l.event

/-- Reading the bytes back does not change the row. -/
theorem recordOf_read (index : Nat) : recordOf index (P.leafHash l.raw) (P.sha256 l.inner) l.read l.raw = l.row index := by
  have hagent : l.read.agentID = l.signable.agentID := l.schema.agentID_norm l.event
  have hname : l.read.ansName = l.signable.ansName := l.schema.ansName_norm l.event
  have hfqdn : l.read.agentFQDN = l.signable.agentFQDN := l.schema.agentFQDN_norm l.event
  unfold row recordOf
  rw [hagent, hname, hfqdn, eventType_read, identity?_read]
  rfl

theorem linkRows_read (index : Nat) : linkRows index l.read = l.links index := by
  unfold links linkRows
  rw [eventType_read, identity?_read]

/-! ### What the bytes determine -/

/-- A member of a document. -/
def member (name : String) : Json → Option Json
  | .object members => (members.find? fun m => m.1 = name).map Prod.snd
  | _ => none

/-- The producer's event in the bytes of a leaf. -/
def eventIn (raw : Json) : Option Json := ((member "payload" raw).bind (member "producer")).bind (member "event")

/-- The log id in the bytes of a leaf. -/
def logIDIn (raw : Json) : Option Json := (member "payload" raw).bind (member "logId")

theorem eventIn_raw : eventIn l.raw = some l.inner := by
  rw [raw_eq]
  rfl

theorem logIDIn_raw : logIDIn l.raw = some (.string l.logID) := by
  rw [raw_eq]
  rfl

variable {l} {m : Leaf P}

theorem inner_eq_of_raw_eq (h : l.raw = m.raw) : l.inner = m.inner := by
  have hevent := l.eventIn_raw
  rw [h, eventIn_raw] at hevent
  exact (Option.some.inj hevent).symm

theorem schema_eq_of_raw_eq (h : l.raw = m.raw) : l.schema = m.schema := by
  have hl := l.decode_storedHeader
  rw [h, m.decode_storedHeader] at hl
  have hheader := ok.inj hl
  have hversion : m.schema.version = l.schema.version := congrArg Prod.fst hheader
  have htype : m.eventType.text = l.eventType.text := congrArg (fun header => header.2.1.1.1.1) hheader
  have hschema := m.storedSchema_eq
  rw [hversion, htype, l.storedSchema_eq] at hschema
  exact ok.inj hschema

/-- Two leaves with the same bytes are read alike. -/
theorem read_eq_of_raw_eq (h : l.raw = m.raw) : l.read = m.read := by
  have hschema := schema_eq_of_raw_eq h
  have hl : (l.schema.envelopeCodec : Codec P.numbers _).decode l.raw (zero _) = .ok l.read.envelope :=
    decode_canonical _ _ l.defect_envelope
  have hm : (m.schema.envelopeCodec : Codec P.numbers _).decode m.raw (zero _) = .ok m.read.envelope :=
    decode_canonical _ _ m.defect_envelope
  rw [h] at hl
  change (⟨l.schema, l.read.envelope⟩ : Signable) = ⟨m.schema, m.read.envelope⟩
  generalize l.read.envelope = x at hl ⊢
  generalize m.read.envelope = y at hm ⊢
  generalize m.raw = raw at hl hm
  change Envelope l.schema.Event at x
  change Envelope m.schema.Event at y
  generalize l.schema = s, m.schema = s' at *
  obtain rfl : s = s' := hschema
  rw [hm] at hl
  rw [ok.inj hl]

theorem row_eq_of_raw_eq (h : l.raw = m.raw) (index : Nat) : l.row index = m.row index := by
  rw [← recordOf_read, ← recordOf_read, read_eq_of_raw_eq h, inner_eq_of_raw_eq h, h]

theorem links_eq_of_raw_eq (h : l.raw = m.raw) (index : Nat) : l.links index = m.links index := by
  rw [← linkRows_read, ← linkRows_read, read_eq_of_raw_eq h]

end Leaf

/-! ### Mirrors -/

section Mirrors

variable {P : Primitives}

/-- The tables hold the rows of a list of leaves, in order. -/
structure Mirrors (store : EventStore P) (log : List (Leaf P)) : Prop where
  events : store.events = log.mapIdx fun i l => l.row i
  links : store.links = (log.mapIdx fun i l => l.links i).flatten

namespace Mirrors

variable {store : EventStore P} {log : List (Leaf P)} {eventHash : P.Digest}

theorem length_eq (h : Mirrors store log) : store.events.length = log.length := by simp [h.events]

theorem leafIndexes_eq (h : Mirrors store log) : store.leafIndexes = List.range log.length := by
  apply ext_getElem?
  intro i
  rw [EventStore.leafIndexes, h.events, getElem?_map, getElem?_mapIdx]
  by_cases hi : i < log.length
  · simp [hi, Leaf.row, recordOf]
  · simp [hi]

/-- A mirror of the first leaves has its first gap behind them. -/
theorem firstUnindexedLeaf_eq (h : Mirrors store log) : store.firstUnindexedLeaf = log.length := by
  unfold EventStore.firstUnindexedLeaf
  rw [h.leafIndexes_eq]
  cases hlength : log.length with
  | zero => simp
  | succ n =>
    have hmin : (((List.range (n + 1)).map (· + 1)).filter (· ∉ List.range (n + 1))).min? = some (n + 1) := by
      rw [min?_eq_some_iff]
      constructor
      · simp
      · intro i hi
        simpa using (mem_filter.mp hi).2
    rw [if_pos (by simp), hmin]
    rfl

theorem indexedSize_eq (h : Mirrors store log) : store.indexedSize = log.length := by
  unfold EventStore.indexedSize
  rw [h.leafIndexes_eq]
  cases log.length with
  | zero => rfl
  | succ n =>
    have hmax : (List.range (n + 1)).max? = some n := by
      rw [max?_eq_some_iff]
      constructor
      · simp
      · intro i hi
        exact Nat.le_of_lt_succ (mem_range.mp hi)
    rw [hmax]
    rfl

theorem getEventByLeafIndex_eq (h : Mirrors store log) (index : Nat) :
    store.getEventByLeafIndex index = log[index]?.map fun l => l.row index := by
  unfold EventStore.getEventByLeafIndex
  cases hleaf : log[index]? with
  | none =>
    rw [Option.map_none, find?_eq_none]
    intro r hr
    rw [h.events] at hr
    obtain ⟨i, hi, rfl⟩ := mem_mapIdx.mp hr
    have hle := List.getElem?_eq_none_iff.mp hleaf
    have hne : i ≠ index := by omega
    simpa [Leaf.row, recordOf] using hne
  | some l =>
    have hmem : l.row index ∈ store.events := by
      rw [h.events]
      obtain ⟨hi, rfl⟩ := List.getElem?_eq_some_iff.mp hleaf
      exact mem_mapIdx.mpr ⟨index, hi, rfl⟩
    cases hfound : store.events.find? (·.leafIndex = index) with
    | none =>
      rw [find?_eq_none] at hfound
      exact absurd (decide_eq_true rfl) (hfound _ hmem)
    | some r =>
      have hr := mem_of_find?_eq_some hfound
      have hindex : r.leafIndex = index := by simpa using find?_some hfound
      have hsame : r = l.row index := inj_on_of_nodup_map store.leafIndex_unique hr hmem hindex
      rw [hsame]
      rfl

theorem mem_events (h : Mirrors store log) {r : EventRecord P} :
    r ∈ store.events ↔ ∃ (i : Nat) (l : Leaf P), log[i]? = some l ∧ r = l.row i := by
  rw [h.events, mem_mapIdx]
  constructor
  · rintro ⟨i, hi, rfl⟩
    exact ⟨i, log[i], getElem?_eq_getElem hi, rfl⟩
  · rintro ⟨i, l, hl, rfl⟩
    obtain ⟨hi, rfl⟩ := List.getElem?_eq_some_iff.mp hl
    exact ⟨i, hi, rfl⟩

/-- One row for every leaf, and no other rows. -/
theorem filter_leafIndex (h : Mirrors store log) (index : Nat) :
    store.events.filter (·.leafIndex = index) = (log[index]?.map fun l => l.row index).toList := by
  rw [h.events]
  clear h
  induction log using List.reverseRecOn with
  | nil => rfl
  | append_singleton log l ih =>
    have hlast : (l.row log.length).leafIndex = log.length := rfl
    rw [mapIdx_append, filter_append, ih]
    rcases Nat.lt_trichotomy index log.length with hlt | rfl | hgt
    · have hne : log.length ≠ index := Nat.ne_of_gt hlt
      simp [getElem?_append_left hlt, hlast, hne]
    · simp [hlast]
    · have hne : log.length ≠ index := Nat.ne_of_lt hgt
      have hnone : (log ++ [l])[index]? = none := by
        rw [List.getElem?_eq_none_iff, length_append]
        exact hgt
      rw [hnone, getElem?_eq_none (Nat.le_of_lt hgt)]
      simp [hlast, hne]

/-- Where a content hash is found there is a leaf with that content. -/
theorem of_existsByEventHash_eq_some (h : Mirrors store log)
    (hfound : store.existsByEventHash eventHash = some index) :
    ∃ l, log[index]? = some l ∧ P.sha256 l.inner = eventHash := by
  obtain ⟨r, hr, rfl⟩ := Option.map_eq_some_iff.mp hfound
  have hmem := mem_filter.mp (argmin_mem hr)
  obtain ⟨i, l, hl, rfl⟩ := h.mem_events.mp hmem.1
  exact ⟨l, hl, of_decide_eq_true hmem.2⟩

/-- Where a content hash is not found it is new. -/
theorem of_existsByEventHash_eq_none (h : Mirrors store log)
    (hnone : store.existsByEventHash eventHash = none) : ∀ l ∈ log, P.sha256 l.inner ≠ eventHash := by
  intro l hl hhash
  obtain ⟨i, hi⟩ := mem_iff_getElem?.mp hl
  have hmem : l.row i ∈ store.events.filter (·.eventHash = eventHash) := by
    rw [mem_filter]
    exact ⟨h.mem_events.mpr ⟨i, l, hi, rfl⟩, by simpa [Leaf.row, recordOf] using hhash⟩
  rw [EventStore.existsByEventHash, Option.map_eq_none_iff, argmin_eq_none] at hnone
  rw [hnone] at hmem
  exact not_mem_nil hmem

/-- Mirroring the next leaf. -/
theorem storeEvent (h : Mirrors store log) {l : Leaf P} {store' : EventStore P}
    {leafHash : P.Digest} {env : Signable} (hindex : index = log.length)
    (hrow : recordOf index leafHash eventHash env raw = l.row index) (hlinks : linkRows index env = l.links index)
    (hstore : store.storeEvent index leafHash eventHash env raw = .ok store') : Mirrors store' (log ++ [l]) := by
  subst hindex
  obtain ⟨_, _, _, hevents', hlinks'⟩ := EventStore.storeEvent_eq_ok_iff.mp hstore
  constructor
  · rw [hevents', hrow, h.events, mapIdx_append]
    simp
  · rw [hlinks', hlinks, h.links, mapIdx_append]
    simp

end Mirrors

end Mirrors

/-! ### Accepted leaves -/

section Accepted

variable {P : Primitives}

/-- The request that a leaf was made for, with the key that its signature was checked with. -/
structure Requested (l : Leaf P) (input : AppendInput) (pem : String) : Prop where
  verified : verifyDetachedWithPEM P input.producerSignature input.rawBody pem = .ok ()
  parsed : ∃ raID, readHeader P input.producerSignature = .ok ⟨l.keyID, raID⟩ ∧
    parseEvent P l.schema input.rawBody raID = .ok l.event
  signature : l.producerSignature = input.producerSignature

/-- What `append` found out about a leaf that it wrote behind a log. -/
structure Accepts (log : List (Leaf P)) (l : Leaf P) : Prop where
  requested : ∃ input pem, Requested l input pem
  fresh : ∀ m ∈ log, P.sha256 m.inner ≠ P.sha256 l.inner
  checked : l.schema ≠ .identity → ∃ raID, checkIncoming P l.signable l.inner = .ok raID ∧
    ∃ store, Mirrors store log ∧ ∀ rec, store.latestAgentState l.signable.ansName l.signable.agentID = some rec →
      checkPrior P l.signable raID rec = .ok ()

/-- The logs that accepted requests build. -/
inductive Admitted : List (Leaf P) → Prop
  | nil : Admitted []
  | snoc {log l} (hlog : Admitted log) (hl : Accepts log l) : Admitted (log ++ [l])

namespace Admitted

variable {log : List (Leaf P)}

theorem of_snoc {l : Leaf P} (h : Admitted (log ++ [l])) : Admitted log ∧ Accepts log l := by
  generalize hall : log ++ [l] = all at h
  cases h with
  | nil => simp at hall
  | snoc hlog hl =>
    obtain ⟨rfl, hsame⟩ := append_inj' hall rfl
    obtain rfl := singleton_inj.mp hsame
    exact ⟨hlog, hl⟩

theorem of_append {rest : List (Leaf P)} (h : Admitted (log ++ rest)) : Admitted log := by
  induction rest using List.reverseRecOn with
  | nil => simpa using h
  | append_singleton rest l ih =>
    rw [← append_assoc] at h
    exact ih h.of_snoc.1

/-- Every leaf was accepted against the leaves before it. -/
theorem accepts (h : Admitted log) {i : Nat} {l : Leaf P} (hl : log[i]? = some l) :
    Accepts (log.take i) l := by
  obtain ⟨hi, rfl⟩ := List.getElem?_eq_some_iff.mp hl
  have hsplit : log = (log.take i ++ [log[i]]) ++ log.drop (i + 1) := by simp
  rw [hsplit] at h
  exact h.of_append.of_snoc.2

/-- No content twice. -/
theorem sha256_injective (h : Admitted log) {i j : Nat} {l m : Leaf P} (hl : log[i]? = some l)
    (hm : log[j]? = some m) (hhash : P.sha256 l.inner = P.sha256 m.inner) : i = j := by
  have hearlier {i j : Nat} {l m : Leaf P} (hl : log[i]? = some l) (hm : log[j]? = some m)
      (hhash : P.sha256 l.inner = P.sha256 m.inner) : ¬i < j := by
    intro hij
    have hmem : l ∈ log.take j := by
      rw [mem_iff_getElem?]
      exact ⟨i, by rw [getElem?_take_of_lt hij, hl]⟩
    exact (h.accepts hm).fresh l hmem hhash
  have hij := hearlier hl hm hhash
  have hji := hearlier hm hl hhash.symm
  omega

end Admitted

end Accepted

/-! ### The invariant -/

section Invariant

variable {P : Primitives}

/-- The leaves behind the bytes of a state, and the leaf behind the entry whose outcome is unknown. -/
structure Represents (s : State P) (log : List (Leaf P)) (pending : Option (Leaf P)) : Prop where
  entries : s.entries = log.map Leaf.raw
  submitted : s.submitted = pending.map Leaf.raw
  admitted : Admitted (log ++ pending.toList)
  mirrors : Mirrors s.store (log.take s.store.events.length)

namespace Represents

variable {s : State P} {log : List (Leaf P)} {pending : Option (Leaf P)}

theorem mirrored_le (h : Represents s log pending) : s.store.events.length ≤ log.length := by
  have hlength := h.mirrors.length_eq
  rw [List.length_take] at hlength
  omega

theorem length_take (h : Represents s log pending) : (log.take s.store.events.length).length = s.store.events.length :=
  h.mirrors.length_eq.symm

theorem entries_length (h : Represents s log pending) : s.entries.length = log.length := by
  rw [h.entries, length_map]

theorem getElem?_entries (h : Represents s log pending) {i : Nat} (hraw : s.entries[i]? = some raw) :
    ∃ l, log[i]? = some l ∧ l.raw = raw := by
  rw [h.entries, getElem?_map] at hraw
  exact Option.map_eq_some_iff.mp hraw

end Represents

/-- Nothing is underway and every leaf is mirrored. -/
def Complete (s : State P) : Prop := s.submitted = none ∧ s.store.events.length = s.entries.length

theorem Represents.of_complete {s : State P} {log : List (Leaf P)} {pending : Option (Leaf P)}
    (h : Represents s log pending) (hcomplete : Complete s) : pending = none ∧ Mirrors s.store log := by
  obtain ⟨hsubmitted, hlength⟩ := hcomplete
  rw [h.submitted, Option.map_eq_none_iff] at hsubmitted
  have hmirrors := h.mirrors
  rw [hlength, h.entries_length, take_length] at hmirrors
  exact ⟨hsubmitted, hmirrors⟩

/-- Only the log, the entry underway and the tables are represented. -/
theorem Represents.of_same {s t : State P} {log : List (Leaf P)} {pending : Option (Leaf P)} (h : Represents s log pending)
    (hentries : t.entries = s.entries) (hsubmitted : t.submitted = s.submitted) (hstore : t.store = s.store) :
    Represents t log pending where
  entries := hentries.trans h.entries
  submitted := hsubmitted.trans h.submitted
  admitted := h.admitted
  mirrors := by
    rw [hstore]
    exact h.mirrors

structure Inv (s : State P) : Prop where
  represents : ∃ log pending, Represents s log pending
  ready : s.indexReady = true → Complete s
  fenced : s.fenced = true → s.readers = 0
  readers : 0 < s.readers → s.indexReady = true

/-- What the world may do meanwhile: readers come and go, and the entry underway is integrated. -/
structure Rely (s t : State P) : Prop where
  store : t.store = s.store
  indexReady : t.indexReady = s.indexReady
  fenced : t.fenced = s.fenced
  log : (t.entries = s.entries ∧ t.submitted = s.submitted) ∨
    ∃ entry, s.submitted = some entry ∧ t.entries = s.entries ++ [entry] ∧ t.submitted = none

namespace Rely

variable {s t u : State P}

theorem refl (s : State P) : Rely s s := ⟨rfl, rfl, rfl, .inl ⟨rfl, rfl⟩⟩

theorem trans (h : Rely s t) (h' : Rely t u) : Rely s u := by
  refine ⟨h'.store.trans h.store, h'.indexReady.trans h.indexReady, h'.fenced.trans h.fenced, ?_⟩
  rcases h.log with ⟨hentries, hsubmitted⟩ | ⟨entry, hsome, hentries, hnone⟩
  · rw [← hentries, ← hsubmitted]
    exact h'.log
  · rcases h'.log with ⟨hentries', hsubmitted'⟩ | ⟨entry', hsome', _⟩
    · exact .inr ⟨entry, hsome, hentries'.trans hentries, hsubmitted'.trans hnone⟩
    · rw [hnone] at hsome'
      cases hsome'

/-- Where nothing is underway the log stays as it is. -/
theorem of_none (h : Rely s t) (hnone : s.submitted = none) : t.entries = s.entries ∧ t.submitted = none := by
  rcases h.log with ⟨hentries, hsubmitted⟩ | ⟨entry, hsome, _⟩
  · exact ⟨hentries, hsubmitted.trans hnone⟩
  · rw [hnone] at hsome
    cases hsome

theorem entries_prefix (h : Rely s t) : s.entries <+: t.entries := by
  rcases h.log with ⟨hentries, _⟩ | ⟨entry, _, hentries, _⟩
  · exact ⟨[], by rw [append_nil, hentries]⟩
  · exact ⟨[entry], hentries.symm⟩

theorem complete (h : Rely s t) (hcomplete : Complete s) : Complete t := by
  obtain ⟨hentries, hnone⟩ := h.of_none hcomplete.1
  refine ⟨hnone, ?_⟩
  rw [h.store, hentries]
  exact hcomplete.2

end Rely

/-- What a call has to know. -/
def Pre : Call P → State P → Prop
  -- the index is not ready, the mirror is complete, and the entry is a leaf that passed the checks against it
  | .add entry, s => s.indexReady = false ∧ Complete s ∧
      ∃ l : Leaf P, l.raw = entry ∧ ∀ log, Mirrors s.store log → Accepts log l
  -- the row is the one of the leaf at its index, and there is no gap before it
  | .storeEvent index leafHash eventHash env raw, s => index ≤ s.store.events.length ∧
      ∃ l : Leaf P, s.entries[index]? = some l.raw ∧ recordOf index leafHash eventHash env raw = l.row index ∧
        linkRows index env = l.links index
  | .setIndexReady true, s => Complete s
  | .setIndexReady false, s => s.readers = 0
  | .existsByEventHash _, s => s.indexReady = true
  | _, _ => True

/-! ### What the calls keep -/

section Keeps

variable {s : State P} {log : List (Leaf P)} {pending : Option (Leaf P)} {l : Leaf P}

/-- The entry underway becomes the last leaf. -/
theorem Represents.integrate (h : Represents s log (some l)) :
    Represents { s with entries := s.entries ++ [l.raw], submitted := none } (log ++ [l]) none where
  entries := by simp [h.entries]
  submitted := rfl
  admitted := by simpa using h.admitted
  mirrors := by
    have hmirrors := h.mirrors
    rwa [take_append_of_le_length h.mirrored_le]

/-- A leaf is handed over. -/
theorem Represents.submit (h : Represents s log none) (hl : Accepts log l) :
    Represents { s with submitted := some l.raw } log (some l) where
  entries := h.entries
  submitted := rfl
  admitted := .snoc (by simpa using h.admitted) hl
  mirrors := h.mirrors

/-- The next leaf is mirrored. -/
theorem Represents.mirror (h : Represents s log pending) {store : EventStore P}
    (hleaf : log[s.store.events.length]? = some l) (hstore : Mirrors store (log.take s.store.events.length ++ [l])) :
    Represents { s with store } log pending where
  entries := h.entries
  submitted := h.submitted
  admitted := h.admitted
  mirrors := by
    have hlength : store.events.length = s.store.events.length + 1 := by
      rw [hstore.length_eq, length_append, h.length_take]
      rfl
    obtain ⟨hi, rfl⟩ := List.getElem?_eq_some_iff.mp hleaf
    change Mirrors store (log.take store.events.length)
    rw [hlength, take_succ_eq_append_getElem hi]
    exact hstore

theorem Inv.of_add (hinv : Inv s) {entry : Json} (hpre : Pre (.add entry) s) {input : Sequencing}
    {r : Except Registration.Error EntryIndex} {t : State P} (hexec : (Call.add entry).exec input s = .ok (r, t)) :
    Inv t ∧ s.entries <+: t.entries := by
  obtain ⟨hready, hcomplete, l, rfl, haccepts⟩ := hpre
  obtain ⟨log, pending, hrep⟩ := hinv.represents
  obtain ⟨rfl, hmirrors⟩ := hrep.of_complete hcomplete
  have hunready {Q : Prop} : s.indexReady = true → Q := fun h => absurd (hready.symm.trans h) Bool.false_ne_true
  cases input with
  | sequenced =>
    cases hexec
    have hintegrated := (hrep.submit (haccepts log hmirrors)).integrate
    refine ⟨⟨⟨log ++ [l], none, ?_⟩, hunready, hinv.fenced, hinv.readers⟩, prefix_append _ _⟩
    exact hintegrated.of_same rfl hcomplete.1 rfl
  | duplicate index =>
    simp only [Call.exec] at hexec
    split at hexec <;> cases hexec
    exact ⟨hinv, prefix_rfl⟩
  | unresolved =>
    cases hexec
    exact ⟨⟨⟨log, some l, hrep.submit (haccepts log hmirrors)⟩, hunready, hinv.fenced, hinv.readers⟩, prefix_rfl⟩

theorem Inv.of_storeEvent (hinv : Inv s) {leafHash eventHash : P.Digest} {env : Signable}
    (hpre : Pre (.storeEvent index leafHash eventHash env raw) s) {store : EventStore P}
    (hstore : s.store.storeEvent index leafHash eventHash env raw = .ok store) : Inv { s with store } := by
  obtain ⟨hle, l, hentry, hrow, hlinks⟩ := hpre
  obtain ⟨log, pending, hrep⟩ := hinv.represents
  obtain ⟨m, hm, hraw⟩ := hrep.getElem?_entries hentry
  have hfresh := (EventStore.storeEvent_eq_ok_iff.mp hstore).2.1
  -- the row is not there yet and there is no gap, so it is the next one
  have hnext : index = s.store.events.length := by
    have hrange := hrep.mirrors.leafIndexes_eq
    rw [EventStore.leafIndexes, hrep.length_take] at hrange
    rw [hrange, mem_range] at hfresh
    omega
  subst hnext
  rw [Leaf.row_eq_of_raw_eq hraw.symm] at hrow
  rw [Leaf.links_eq_of_raw_eq hraw.symm] at hlinks
  have hmirrors := hrep.mirrors.storeEvent hrep.length_take.symm hrow hlinks hstore
  refine ⟨⟨log, pending, hrep.mirror hm hmirrors⟩, ?_, hinv.fenced, hinv.readers⟩
  intro hready
  have hlength := (hinv.ready hready).2
  have hlt := (List.getElem?_eq_some_iff.mp hentry).1
  omega

theorem Inv.keeps {c : Call P} {input : Sequencing} {r : c.Reply} {t : State P} (hinv : Inv s) (hpre : Pre c s)
    (hexec : c.exec input s = .ok (r, t)) : Inv t ∧ s.entries <+: t.entries := by
  cases c with
  | add entry => exact hinv.of_add hpre hexec
  | storeEvent index leafHash eventHash env raw =>
    simp only [Call.exec] at hexec
    split at hexec <;> cases hexec
    rename_i store hstore
    exact ⟨hinv.of_storeEvent hpre hstore, prefix_rfl⟩
  | lockIndex =>
    obtain ⟨log, pending, hrep⟩ := hinv.represents
    simp only [Call.exec] at hexec
    split at hexec <;> cases hexec
    rename_i hfree
    exact ⟨⟨⟨log, pending, hrep.of_same rfl rfl rfl⟩, hinv.ready,
      fun _ => hfree.2, hinv.readers⟩, prefix_rfl⟩
  | unlockIndex =>
    obtain ⟨log, pending, hrep⟩ := hinv.represents
    cases hexec
    exact ⟨⟨⟨log, pending, hrep.of_same rfl rfl rfl⟩, hinv.ready,
      nofun, hinv.readers⟩, prefix_rfl⟩
  | setIndexReady ready =>
    obtain ⟨log, pending, hrep⟩ := hinv.represents
    cases hexec
    refine ⟨⟨⟨log, pending, hrep.of_same rfl rfl rfl⟩, ?_,
      hinv.fenced, ?_⟩, prefix_rfl⟩
    · rintro rfl
      exact hpre
    · intro hreaders
      cases ready with
      | true => rfl
      | false => exact absurd hpre (Nat.ne_of_gt hreaders)
  | integratedSize =>
    cases hexec
    obtain ⟨log, pending, hrep⟩ := hinv.represents
    -- the entry underway is given up
    have hdiscarded : Represents { s with submitted := none } log none :=
      ⟨hrep.entries, rfl, by simpa using hrep.admitted.of_append, hrep.mirrors⟩
    exact ⟨⟨⟨log, none, hdiscarded⟩, fun hready => ⟨rfl, (hinv.ready hready).2⟩, hinv.fenced, hinv.readers⟩,
      prefix_rfl⟩
  | indexReady | existsByEventHash eventHash | getEventByLeafIndex index | latestAgentState ansName agentID
  | firstUnindexedLeaf | indexedSize | readEntryBundle index size | fetchLeafHashes first count size =>
    cases hexec
    exact ⟨hinv, prefix_rfl⟩

end Keeps

/-- What the programs of the log promise and rely on. -/
def discipline (P : Primitives) : Discipline (TL P) where
  Inv := Inv
  Rely := Rely
  Grows s t := s.entries <+: t.entries
  Pre := Pre
  refl := Rely.refl
  trans _ _ _ := Rely.trans
  grows _ _ := Rely.entries_prefix
  grows_trans _ _ _ := List.IsPrefix.trans
  keeps _ _ _ _ _ hinv hpre hexec := hinv.keeps hpre hexec

theorem Inv.initial : Inv (State.initial P) where
  represents := ⟨[], none, rfl, rfl, .nil, ⟨rfl, rfl⟩⟩
  ready := nofun
  fenced := nofun
  readers := nofun

/-- What happens by itself keeps the invariant and is within what programs rely on. -/
theorem Inv.happens {what : Happening} {s t : State P} (hinv : Inv s) (h : happen what s = some t) : Inv t ∧ Rely s t := by
  cases what with
  | integrated =>
    obtain ⟨entry, hsome, rfl⟩ := Option.map_eq_some_iff.mp h
    obtain ⟨log, pending, hrep⟩ := hinv.represents
    have hpending := hrep.submitted
    rw [hsome] at hpending
    obtain ⟨l, rfl, rfl⟩ := Option.map_eq_some_iff.mp hpending.symm
    refine ⟨⟨⟨_, none, hrep.integrate⟩, ?_, hinv.fenced, hinv.readers⟩, ⟨rfl, rfl, rfl, .inr ⟨l.raw, hsome, rfl, rfl⟩⟩⟩
    intro hready
    have hnone := (hinv.ready hready).1
    rw [hsome] at hnone
    cases hnone
  | readerEnters =>
    simp only [happen, lockIndexedRead] at h
    split at h <;> cases h
    rename_i hfree
    refine ⟨⟨?_, hinv.ready, ?_, fun _ => hfree.2⟩, ⟨rfl, rfl, rfl, .inl ⟨rfl, rfl⟩⟩⟩
    · obtain ⟨log, pending, hrep⟩ := hinv.represents
      exact ⟨log, pending, hrep.of_same rfl rfl rfl⟩
    · intro hfenced
      exact absurd (hfree.1.symm.trans hfenced) Bool.false_ne_true
  | readerLeaves =>
    simp only [happen] at h
    split at h <;> cases h
    rename_i hsome
    refine ⟨⟨?_, hinv.ready, ?_, ?_⟩, ⟨rfl, rfl, rfl, .inl ⟨rfl, rfl⟩⟩⟩
    · obtain ⟨log, pending, hrep⟩ := hinv.represents
      exact ⟨log, pending, hrep.of_same rfl rfl rfl⟩
    · intro hfenced
      exact absurd (hinv.fenced hfenced) hsome
    · intro _
      exact hinv.readers (Nat.pos_of_ne_zero hsome)

theorem Inv.restart {s : State P} (hinv : Inv s) : Inv (restart s) := by
  obtain ⟨log, pending, hrep⟩ := hinv.represents
  exact ⟨⟨log, pending, hrep.of_same rfl rfl rfl⟩, nofun, nofun, nofun⟩

end Invariant

end AgentNameService.TransparencyLog
