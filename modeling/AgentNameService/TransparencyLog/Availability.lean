/-
Purpose: Whether the log stays in service.  A leaf that is in the Merkle log and cannot be mirrored stops recovery, and with
  it all reads and all appends.  The module says which accepted events can be mirrored on one of the two paths, and that a log
  of events that can be restored comes back into service from every state of every run.
Source: internal/tl/service/{log,ingest}.go, internal/adapter/store/sqlitetl/events.go,
  internal/adapter/store/sqlitetl/migrations/004_identity_events.sql
Trusted boundary: none
-/
import AgentNameService.TransparencyLog.Recovery

namespace AgentNameService.TransparencyLog

open Interleaving List Interleaving.Prog Except Sequencing Json

/-! ### Recovery by itself -/

section Restoring

variable {P : Primitives} {s : State P} {log done rest : List (Leaf P)}

/-- A leaf that recovery can restore. -/
structure Leaf.Restores (l : Leaf P) : Prop where
  shallow : l.raw.depth ≤ 1000
  distinct : l.signable.linkedAgents.Nodup
  named : l.schema.KeysNamed P l.event

variable (world : (q : Query) → q.Answer)

/-- One leaf after the other. -/
theorem ends_restoreEntries (hmirrors : Mirrors s.store done) (hrest : ∀ l ∈ rest, l.Restores) :
    ∃ store, (restoreEntries done.length (rest.map fun l => (l.raw, P.leafHash l.raw))).Ends sequenced world s ()
      { s with store } ∧ Mirrors store (done ++ rest) := by
  induction rest generalizing done s with
  | nil => exact ⟨s.store, rfl, by rwa [append_nil]⟩
  | cons l rest ih =>
    have hl := hrest l mem_cons_self
    have hnone : s.store.getEventByLeafIndex done.length = none := by
      rw [hmirrors.getEventByLeafIndex_eq, getElem?_eq_none (Nat.le_refl _), Option.map_none]
    obtain ⟨store, hstore⟩ : ∃ store, s.store.storeEvent done.length (P.leafHash l.raw) (P.sha256 l.inner) l.signable l.raw =
        .ok store := hmirrors.exists_storeEvent_iff.mpr ⟨hl.shallow, hl.distinct⟩
    have hleaf : (restoreIndexedLeaf done.length l.raw (P.leafHash l.raw)).Ends sequenced world s () { s with store } := by
      have hdepth := hl.shallow
      exact (ends_restoreIndexedLeaf_iff hnone).mpr
        ⟨by omega, l.recoverable_iff.mpr hl.named, store, storeEvent_read_iff.mpr hstore, rfl⟩
    have hmirrored : Mirrors store (done ++ [l]) := hmirrors.storeEvent rfl rfl rfl hstore
    obtain ⟨store', hends, hmirrors'⟩ := ih (s := { s with store }) hmirrored fun m hm => hrest m (mem_cons_of_mem l hm)
    rw [length_append, length_singleton] at hends
    rw [append_assoc, singleton_append] at hmirrors'
    exact ⟨store', ends_bind_iff.mpr ⟨(), _, ends_inContext_iff.mpr hleaf, hends⟩, hmirrors'⟩

/-- What a round reads of a bundle and of the tiles. -/
theorem bundle_eq (log : List (Leaf P)) (next : Nat) {count : Nat}
    (hcount : count ≤ entryBundleWidth - next % entryBundleWidth) :
    ((((((log.map Leaf.raw).take log.length).drop (next / entryBundleWidth * entryBundleWidth)).take entryBundleWidth).drop
      (next % entryBundleWidth)).take count).zip (((((log.map Leaf.raw).take log.length).drop next).take count).map P.leafHash) =
      ((log.drop next).take count).map fun l => (l.raw, P.leafHash l.raw) := by
  have hindex : next / entryBundleWidth * entryBundleWidth + next % entryBundleWidth = next := by
    rw [Nat.mul_comm, Nat.div_add_mod]
  have hall : (log.map Leaf.raw).take log.length = log.map Leaf.raw := by
    rw [← length_map Leaf.raw, take_length]
  rw [hall, drop_take, drop_drop, hindex, take_take, Nat.min_eq_left hcount, ← map_drop, ← map_take,
    map_map, zip_map']
  rfl

theorem ends_restoreBundles {rounds : Nat} (hentries : s.entries = log.map Leaf.raw) (hmirrors : Mirrors s.store done)
    (hlog : log = done ++ rest) (hrounds : rest.length ≤ rounds) (hrest : ∀ l ∈ rest, l.Restores) :
    ∃ store, (restoreBundles log.length rounds done.length).Ends sequenced world s () { s with store } ∧
      Mirrors store log := by
  induction rounds generalizing s done rest with
  | zero =>
    obtain rfl := eq_nil_of_length_eq_zero (Nat.le_zero.mp hrounds)
    rw [append_nil] at hlog
    exact ⟨s.store, rfl, hlog ▸ hmirrors⟩
  | succ rounds ih =>
    have hlength : log.length = done.length + rest.length := by rw [hlog, length_append]
    unfold restoreBundles
    split
    · rename_i hlt
      generalize hbundle : (((log.map Leaf.raw).take log.length).drop (done.length / entryBundleWidth * entryBundleWidth)).take
        entryBundleWidth = bundle
      generalize hcount : min (bundle.length - done.length % entryBundleWidth) (log.length - done.length) = count
      have hwidth : entryBundleWidth = 256 := rfl
      have hsize : bundle.length = min entryBundleWidth
          (log.length - done.length / entryBundleWidth * entryBundleWidth) := by
        rw [← hbundle, length_take, length_drop, length_take, length_map, Nat.min_self]
      have hoffset : done.length % entryBundleWidth < bundle.length := by
        rw [hsize, hwidth]
        omega
      have hpos : 0 < count := by omega
      have hwithin : count ≤ entryBundleWidth - done.length % entryBundleWidth := by omega
      have hzip := bundle_eq log done.length hwithin
      rw [hbundle, hlog, drop_left, ← hlog, ← hentries] at hzip
      have hround : ∀ l ∈ rest.take count, l.Restores := fun l hl => hrest l (mem_of_mem_take hl)
      obtain ⟨store, hends, hmirrors'⟩ := ends_restoreEntries world hmirrors hround
      have htaken : (done ++ rest.take count).length = done.length + count := by
        rw [length_append, length_take]
        omega
      have hsplit : log = (done ++ rest.take count) ++ rest.drop count := by
        rw [append_assoc, take_append_drop, hlog]
      have hfewer : (rest.drop count).length ≤ rounds := by
        rw [length_drop]
        omega
      obtain ⟨store', hends', hall⟩ := ih (s := { s with store }) hentries hmirrors' hsplit hfewer
        fun l hl => hrest l (mem_of_mem_drop hl)
      rw [htaken] at hends'
      refine ⟨store', ?_, hall⟩
      refine ends_bind_iff.mpr ⟨bundle, s, ends_run_iff.mpr ?_, ?_⟩
      · rw [← hbundle, ← hentries]
        rfl
      · refine ends_bind_iff.mpr ⟨(), s, ends_liftText_iff.mpr ⟨require_eq_ok_iff.mpr hoffset, rfl⟩, ?_⟩
        refine ends_bind_iff.mpr ⟨_, s, ends_run_iff.mpr rfl, ?_⟩
        rw [hcount, hzip]
        exact ends_bind_iff.mpr ⟨(), _, hends, hends'⟩
    · obtain rfl := eq_nil_of_length_eq_zero (show rest.length = 0 by omega)
      rw [append_nil] at hlog
      exact ⟨s.store, rfl, hlog ▸ hmirrors⟩

/-- Recovery ends well where every leaf can be restored. -/
theorem ends_recoverIndex {pending : Option (Leaf P)} (hrep : Represents s log pending)
    (hlog : ∀ l ∈ log, l.Restores) :
    ∃ store, (recoverIndex).Ends sequenced world s () { s with submitted := none, store } ∧ Mirrors store log := by
  have hfirst : s.store.firstUnindexedLeaf = (log.take s.store.events.length).length := hrep.mirrors.firstUnindexedLeaf_eq
  have hindexed : s.store.indexedSize = (log.take s.store.events.length).length := hrep.mirrors.indexedSize_eq
  have hentries := hrep.entries_length
  have hsplit : log = log.take s.store.events.length ++ log.drop s.store.events.length := (take_append_drop _ _).symm
  have hlength := congrArg length hsplit
  rw [length_append] at hlength
  have hrest : ∀ l ∈ log.drop s.store.events.length, l.Restores := fun l hl => hlog l (mem_of_mem_drop hl)
  obtain ⟨store, hends, hmirrors⟩ := ends_restoreBundles world (s := { s with submitted := none }) hrep.entries hrep.mirrors
    hsplit le_rfl hrest
  refine ⟨store, ?_, hmirrors⟩
  refine ends_bind_iff.mpr ⟨s.store.firstUnindexedLeaf, s, ends_run_iff.mpr rfl, ?_⟩
  refine ends_bind_iff.mpr ⟨s.entries.length, { s with submitted := none }, ends_run_iff.mpr rfl, ?_⟩
  refine ends_bind_iff.mpr ⟨s.store.indexedSize, { s with submitted := none }, ends_run_iff.mpr rfl, ?_⟩
  refine ends_bind_iff.mpr ⟨(), { s with submitted := none }, ends_liftText_iff.mpr
    ⟨require_eq_ok_iff.mpr (by omega), rfl⟩, ?_⟩
  have hrounds : s.entries.length - s.store.firstUnindexedLeaf = (log.drop s.store.events.length).length := by omega
  rw [hrounds, hfirst, hentries]
  exact hends

/-- A request for recovery puts an index back into service. -/
theorem ends_recoverIndexRequest {pending : Option (Leaf P)} (hrep : Represents s log pending)
    (hlog : ∀ l ∈ log, l.Restores) (hfenced : s.fenced = false) (hreaders : s.readers = 0) :
    ∃ store, (recoverIndexRequest).Ends sequenced world s ()
      { s with submitted := none, store, indexReady := true, fenced := false } ∧ Mirrors store log := by
  have hlocked : Represents { s with fenced := true, indexReady := false } log pending := hrep.of_same rfl rfl rfl
  obtain ⟨store, hends, hmirrors⟩ := ends_recoverIndex world hlocked hlog
  have hlock : (Call.lockIndex).exec .sequenced s = .ok ((), { s with fenced := true }) := if_pos ⟨hfenced, hreaders⟩
  refine ⟨store, ?_, hmirrors⟩
  refine ends_bind_iff.mpr ⟨(), _, ends_run_iff.mpr hlock, ?_⟩
  refine ends_bind_iff.mpr ⟨(), _, ends_run_iff.mpr rfl, ?_⟩
  refine ends_bind_iff.mpr ⟨.ok (), _, ends_outcome_iff.mpr hends, ?_⟩
  refine ends_bind_iff.mpr ⟨(), _, ends_run_iff.mpr rfl, ?_⟩
  exact ends_bind_iff.mpr ⟨(), _, ends_run_iff.mpr rfl, rfl⟩

end Restoring

/-! ### Events that stop the log -/

section Service

variable {P : Primitives}

/-- In every run: an accepted event gets its rows on one of the two paths just where it names every agent once and is not
nested too deep; and where all leaves can be restored, a request for recovery puts the index back into service and lets readers
in, whatever the state of the log. -/
theorem accepted_events_are_indexed_iff {g : Gate (service P)} (hrun : Run P g) (world : (q : Query) → q.Answer) :
    (∀ lane input env canonical logID signature raw, g.state.indexReady = true →
      Accepted g.state lane input env canonical logID signature raw →
      ((∃ result t, (completeAppend (env.setOuterSignature signature) (P.sha256 canonical) logID).Ends sequenced world
          g.state result t) ∨
        (∃ t, (restoreIndexedLeaf g.state.entries.length raw (P.leafHash raw)).Ends sequenced world
          { g.state with entries := g.state.entries ++ [raw] } () t) ↔
        env.linkedAgents.Nodup ∧ canonical.depth ≤ 997)) ∧
    ((∀ l : Leaf P, l.raw ∈ g.state.entries → l.Restores) → g.state.fenced = false → g.state.readers = 0 →
      ∃ t, (recoverIndexRequest).Ends sequenced world g.state () t ∧ t.entries = g.state.entries ∧
        Exact t ∧ t.indexReady = true ∧ (lockIndexedRead t).isSome = true) := by
  have hinv := ((guards P).sound hrun).inv
  obtain ⟨log, pending, hrep⟩ := hinv.represents
  constructor
  · intro lane input env canonical logID signature raw hready haccepted
    obtain ⟨_, hmirrors⟩ := hrep.of_complete (hinv.ready hready)
    obtain ⟨l, _, hsignable, rfl, rfl, rfl, _⟩ := haccepted.built.leaf haccepted.valid haccepted.bytes
    have hdepth := l.depth_raw
    have hagents : l.signable.linkedAgents = env.linkedAgents := by
      rw [hsignable]
      rfl
    have hdirect := l.exists_ends_completeAppend_iff world l.logID hmirrors hrep.entries_length
    have hrestore := l.exists_ends_restoreIndexedLeaf_iff world (s := { g.state with entries := g.state.entries ++ [l.raw] })
      hmirrors
    rw [← hrep.entries_length] at hrestore
    rw [← hsignable, hdirect, hrestore, hagents]
    constructor
    · rintro (⟨hraw, hnodup⟩ | ⟨hraw, hnodup, _⟩)
      · exact ⟨hnodup, by omega⟩
      · exact ⟨hnodup, by omega⟩
    · rintro ⟨hnodup, hshallow⟩
      exact .inl ⟨by omega, hnodup⟩
  · intro hall hfenced hreaders
    have hlog : ∀ l ∈ log, l.Restores := by
      intro l hl
      apply hall
      rw [hrep.entries]
      exact mem_map_of_mem hl
    obtain ⟨store, hends, hmirrors⟩ := ends_recoverIndexRequest world hrep hlog hfenced hreaders
    refine ⟨_, hends, rfl, ?_, rfl, rfl⟩
    intro index
    change (store.events.filter (·.leafIndex = index)).map _ = _
    rw [hmirrors.filter_leafIndex, hrep.entries, getElem?_map]
    cases log[index]? <;> rfl

end Service

namespace Sample

/-- The link of an identity to agents. -/
def linking (agents : List String) : Body :=
  .document (.object (common "IDENTITY_LINKED" ++ [("ansIds", array (agents.map string))]))

def linkEvent (agents : List String) : Identity.Event where
  ansIDs := agents
  eventType := .identityLinked
  identityID := "i"
  kind := "did:web"
  keys := []
  previousValue := ""
  proofMethod := ""
  providerID := ""
  raID := "ra"
  revokedAt := ""
  timestamp := "t"
  value := "did:web:a"
  verifiedAt := ""

/-- The leaf of a link to an agent that is named twice. -/
def repeated : Leaf primitives := leaf .identity (linkEvent ["a", "a"]) rfl rfl

theorem accepted_repeated : Accepted recovered.state .identity ⟨linking ["a", "a"], "ra"⟩
    ⟨.identity, Schema.identity.buildEnvelope "log-1" repeated.event "key" "ra"⟩ repeated.inner "log-1" "seal" repeated.raw :=
  Requested.accepted (l := repeated) "pem" ⟨rfl, ⟨"ra", rfl, rfl⟩, rfl⟩ (cleared_recovered _ rfl)

/-- The log after that link. -/
def linked : Gate (service primitives) := serve recovered (.append .identity ⟨linking ["a", "a"], "ra"⟩) "log-1"

/-- The log after a request for recovery and another event. -/
def later : Gate (service primitives) :=
  serve (serve linked .recoverIndex "log-2") (.append .identity ⟨revocation "j", "ra"⟩) "log-3"

theorem run_linked : Run primitives linked := run_serve run_recovered _ _

theorem run_later : Run primitives later := run_serve (run_serve run_linked _ _) _ _

end Sample

open Sample

set_option maxRecDepth 20000 in
/-- A link that names an agent twice is accepted, and its leaf is in the log; neither path writes its rows.  From then on
recovery fails, no reader is let in and no other event is taken. -/
theorem repeated_link_stops_the_log : ∃ input env canonical raw,
    Accepted recovered.state .identity input env canonical "log-1" "seal" raw ∧
      (¬∃ result t, (completeAppend (env.setOuterSignature "seal") (primitives.sha256 canonical) "log-1").Ends
        sequenced (world "log-1") recovered.state result t) ∧
      (¬∃ t, (restoreIndexedLeaf 0 raw (primitives.leafHash raw)).Ends sequenced (world "log-1")
        { recovered.state with entries := [raw] } () t) ∧
      Run primitives linked ∧ linked.state.entries.length = 1 ∧
      Run primitives later ∧ later.state.entries.length = 1 ∧
      later.answers.length = linked.answers.length ∧ (lockIndexedRead later.state).isSome = false := by
  have hrepeated : ¬repeated.signable.linkedAgents.Nodup := by decide
  refine ⟨_, _, _, _, accepted_repeated, ?_, ?_, run_linked, ?_, run_later, ?_⟩
  · intro hends
    exact hrepeated ((repeated.exists_ends_completeAppend_iff _ _ mirrors_recovered length_recovered).mp hends).2
  · intro hends
    exact hrepeated ((repeated.exists_ends_restoreIndexedLeaf_iff _
      (s := { recovered.state with entries := [repeated.raw] }) mirrors_recovered).mp hends).2.1
  · decide +kernel
  · decide +kernel

/-- The proof of a key is mirrored on one of the two paths. -/
theorem key_proof_is_indexed :
    (∃ result t, (completeAppend Sample.plain.signable (primitives.sha256 plain.inner) "log-1").Ends
        sequenced (world "log-1") recovered.state result t) ∨
      ∃ t, (restoreIndexedLeaf recovered.state.entries.length plain.raw (primitives.leafHash
        plain.raw)).Ends sequenced (world "log-1")
          { recovered.state with entries := recovered.state.entries ++ [plain.raw] } () t := by
  have hraw := depth_plain
  rw [plain.depth_raw] at hraw
  rw [← signable_plain]
  exact ((accepted_events_are_indexed_iff run_recovered (world "log-1")).1 _ _ _ _ _ _ _ ready_recovered
    accepted_plain).mpr ⟨nodup_nil, Nat.le_of_add_le_add_right hraw⟩

end AgentNameService.TransparencyLog
