/-
Purpose: The evidence of an activation is single-valued.  Whatever attempts at activating an agent run side by
  side, time out, crash or fail to commit, all that reach the transparency log submit the evidence that was
  stored first, so the log holds at most one leaf for the activation.  No record of the authority is ever lost.
Source: internal/ra/service/registration.go (sealActivationEvent), internal/ra/service/lifecycle.go (VerifyDNS),
  internal/adapter/store/sqlite/activation_seals.go
Trusted boundary: none
-/
import AgentNameService.Registration.Lifecycle
import AgentNameService.Registration.Recorded

namespace AgentNameService.Registration

open Interleaving Interleaving.Prog Store List Table Tx

/-! ### Stored evidence -/

/-- The evidence on record for an agent. -/
def Evidence (agentID : String) (lane : Lane) (payload : OutboxPayload) (s : Store) : Prop :=
  ∃ id, (id, { agentID, schemaVersion := lane, payload }) ∈ s.seals.rows

/-- An agent has at most one piece of evidence. -/
def EvidenceUnique (s : Store) : Prop :=
  ∀ i j row row', (i, row) ∈ s.seals.rows → (j, row') ∈ s.seals.rows → row.agentID = row'.agentID → row = row'

/-- Evidence is never taken back. -/
def KeepsEvidence (s t : Store) : Prop := ∀ id row, (id, row) ∈ s.seals.rows → (id, row) ∈ t.seals.rows

variable {s t : Store} {agentID : String} {lane : Lane} {payload : OutboxPayload} {A : Allowed}

theorem Evidence.kept (h : KeepsEvidence s t) (hevidence : Evidence agentID lane payload s) :
    Evidence agentID lane payload t := by
  obtain ⟨id, hid⟩ := hevidence
  exact ⟨id, h id _ hid⟩

theorem EvidenceUnique.eq {lane' : Lane} {payload' : OutboxPayload} (hunique : EvidenceUnique s)
    (h : Evidence agentID lane payload s) (h' : Evidence agentID lane' payload' s) :
    (lane, payload) = (lane', payload') := by
  obtain ⟨i, hi⟩ := h
  obtain ⟨j, hj⟩ := h'
  have hrow := hunique i j _ _ hi hj rfl
  cases hrow
  rfl

/-- The seal table is written by the election of evidence only. -/
theorem Store.Write.evidence (h : Write A s t) : KeepsEvidence s t ∧ (EvidenceUnique s → EvidenceUnique t) := by
  cases h with
  | @sealElected agentID hfirst lane payload =>
    constructor
    · intro id row hrow
      exact mem_insert.mpr (.inl hrow)
    · intro hunique i j row row' hi hj hagent
      have hnone : ∀ k other, (k, other) ∈ s.seals.rows → other.agentID ≠ agentID := by
        intro k other hother
        have := any_eq_false.mp hfirst (k, other) hother
        simpa using this
      rcases mem_insert.mp hi with hi | hi <;> rcases mem_insert.mp hj with hj | hj
      · exact hunique i j row row' hi hj hagent
      · rw [(Prod.mk.inj hj).2] at hagent
        exact absurd hagent (hnone i row hi)
      · rw [(Prod.mk.inj hi).2] at hagent
        exact absurd hagent.symm (hnone j row' hj)
      · rw [(Prod.mk.inj hi).2, (Prod.mk.inj hj).2]
  | _ => exact ⟨fun _ _ hrow => hrow, id⟩

theorem Store.Writes.keepsEvidence (h : Writes A s t) : KeepsEvidence s t := by
  induction h with
  | refl => exact fun _ _ hrow => hrow
  | tail _ hlast ih => exact fun id row hrow => hlast.evidence.1 id row (ih id row hrow)

theorem Store.Writes.evidenceUnique (h : Writes A s t) (hunique : EvidenceUnique s) : EvidenceUnique t :=
  h.keeps (fun _ _ hwrite => hwrite.evidence.2) hunique

/-- What `LoadActivationSeal` returns is on record. -/
theorem loadActivationSeal_evidence (h : loadActivationSeal agentID s = .ok (some (lane, payload), t)) :
    s = t ∧ Evidence agentID lane payload s := by
  obtain ⟨hfound, hsame⟩ := run_reads_eq_ok_iff.mp h
  obtain ⟨⟨id, row⟩, hfirst, hrow⟩ := Option.map_eq_some_iff.mp hfound
  obtain ⟨hmem, hagent⟩ := mem_of_first hfirst
  obtain ⟨rfl, rfl⟩ := Prod.mk.inj hrow
  obtain rfl := beq_iff_eq.mp hagent
  exact ⟨hsame, id, hmem⟩

/-! ### What is submitted to the log -/

/-- The lane and the payload that an entry submits to activate an agent. -/
def submission {w : Wiring} (agentID : String) : Entry (service w) → Option (Lane × OutboxPayload)
  | .asked _ (.verifyDNS asking _) (.sealAgentEvent lane payload) _ =>
    if asking = agentID then some (lane, payload) else none
  | _ => none

/-- Everything that calls of `VerifyDNS` on an agent have submitted. -/
def submissions {w : Wiring} (agentID : String) (h : History w) : List (Lane × OutboxPayload) :=
  h.filterMap (submission agentID)

/-- Everything submitted for an agent is the evidence on record for it. -/
def SubmitsEvidence {w : Wiring} (s : Scene (service w)) : Prop :=
  ∀ agentID lane payload, (lane, payload) ∈ submissions agentID s.history → Evidence agentID lane payload s.state

/-- What the request to the sealer needs. -/
def SealsEvidence {w : Wiring} (op : Op) (q : Query) (s : Scene (service w)) : Prop :=
  match op, q with
  | .verifyDNS agentID _, .sealAgentEvent lane payload => Evidence agentID lane payload s.state
  | _, _ => True

section

variable {w : Wiring} {scene : Scene (service w)} {i : Nat} {op : Op}

theorem SubmitsEvidence.called {c : Call} {r : c.Reply} (h : SubmitsEvidence scene)
    (hkeeps : KeepsEvidence scene.state t) : SubmitsEvidence (scene.after t (.called i op c r)) := by
  intro agentID lane payload hmem
  simp only [Scene.after, submissions, filterMap_append] at hmem
  rcases mem_append.mp hmem with hold | hnew
  · exact (h agentID lane payload hold).kept hkeeps
  · simp [submission] at hnew

theorem SubmitsEvidence.asked {q : Query} {a : q.Answer} (h : SubmitsEvidence scene)
    (hseals : SealsEvidence op q scene) : SubmitsEvidence (scene.after scene.state (.asked i op q a)) := by
  intro agentID lane payload hmem
  simp only [Scene.after, submissions, filterMap_append] at hmem
  rcases mem_append.mp hmem with hold | hnew
  · exact h agentID lane payload hold
  · obtain ⟨entry, hentry, hsubmission⟩ := mem_filterMap.mp hnew
    rw [mem_singleton.mp hentry] at hsubmission
    unfold submission at hsubmission
    split at hsubmission
    · rename_i hasked
      cases hasked
      split at hsubmission
      · rename_i hagent
        cases hsubmission
        cases hagent
        exact hseals
      · cases hsubmission
    · cases hsubmission

end

/-! ### The watch -/

/-- The log is only asked to seal evidence that is on record. -/
def evidenceWatch (w : Wiring) : Watch discipline (service w) where
  Inv := fun s => EvidenceUnique s.state ∧ SubmitsEvidence s
  Rely := fun s t => KeepsEvidence s.state t.state
  Calls := fun _ _ _ _ => True
  Asks := fun _ op q s => SealsEvidence op q s
  refl := fun _ _ _ hrow => hrow
  trans := fun _ _ _ h h' id row hrow => h' id row (h id row hrow)
  called := by
    intro i op c ambient s r t _ _ hinv _ hexec
    have hwrites := c.writes ambient s.state r t hexec
    exact ⟨⟨hwrites.evidenceUnique hinv.1, hinv.2.called hwrites.keepsEvidence⟩, hwrites.keepsEvidence⟩
  asked := by
    intro i op q a s _ hinv hseals
    exact ⟨⟨hinv.1, hinv.2.asked hseals⟩, fun _ _ hrow => hrow⟩

section

variable {w : Wiring} {scene : Scene (service w)} {i : Nat}

/-- Questions to other ports than the sealer need nothing. -/
theorem sealsEvidence_of_port {op : Op} {q : Query} (hport : q.port ≠ .sealer) : SealsEvidence op q scene := by
  unfold SealsEvidence
  split
  · exact absurd rfl hport
  · trivial

/-- An operation that does not ask the sealer heeds the watch. -/
theorem heeds_of_ports {op : Op} {α : Type} {p : Program α} {writes : Call → Bool} {ports : List Port}
    (h : Reaches writes ports p) (hports : ports.contains .sealer = false) :
    p.Heeds (evidenceWatch w) i op (fun _ _ => True) scene := by
  apply heeds_yields h (fun _ _ _ _ _ => trivial)
  intro q hq t _
  apply sealsEvidence_of_port
  intro hport
  rw [Within, hport, hports] at hq
  cases hq

/-- The evidence that an attempt goes on with is on record. -/
theorem prepareEvidence_heeds {reg : AgentRegistration} {attested : List String} {lane : Lane} {now : Time}
    (hreg : reg.agentID = agentID) :
    (prepareEvidence reg attested lane now).Heeds (evidenceWatch w) i (.verifyDNS agentID lane)
      (fun prepared t => ∀ prepLane payload, prepared = some (prepLane, payload) →
        Evidence agentID prepLane payload t.state) scene := by
  subst hreg
  apply heeds_find (fun _ => trivial)
  intro t _ prepared _ _ hload
  cases prepared with
  | some evidence =>
    intro prepLane payload heq
    cases heq
    exact (loadActivationSeal_evidence hload).2
  | none =>
    apply heeds_find (fun _ => trivial)
    intro t' _ identityCerts _ _ _
    apply heeds_find (fun _ => trivial)
    intro t'' _ serverCerts _ _ _
    apply heeds_ask (fun _ _ _ _ => trivial)
    intro u signed _ _ _
    cases signed with
    | error e => trivial
    | ok candidate =>
      intro v _ _ _ _
      refine ⟨trivial, ?_, fun _ => trivial⟩
      intro ambient r v' hexec prepLane payload heq
      cases heq
      -- every caller of `PrepareActivationSeal` gets the evidence on record
      obtain ⟨_, _, _, hload⟩ := run_bind_eq_ok_iff.mp hexec
      obtain ⟨rfl, hevidence⟩ := loadActivationSeal_evidence hload
      exact hevidence

/-- Every attempt submits the evidence on record. -/
theorem sealActivationEvent_heeds {reg : AgentRegistration} {attested : List String} {lane : Lane} {now : Time}
    (hreg : reg.agentID = agentID) :
    (sealActivationEvent w reg attested lane now).Heeds (evidenceWatch w) i (.verifyDNS agentID lane)
      (fun _ _ => True) scene := by
  apply heeds_check
  intro _
  apply Heeds.bind (prepareEvidence_heeds hreg)
  intro prepared t _ hprepared
  cases prepared with
  | none => trivial
  | some evidence =>
    apply heeds_check
    intro _
    apply heeds_check
    intro _
    apply heeds_ask
    · intro u htu _ _
      exact (hprepared evidence.1 evidence.2 rfl).kept htu
    · intro u outcome _ _ _
      cases outcome with
      | error | ok => trivial

theorem verifyDNS_heeds (lane : Lane) :
    (verifyDNS w agentID lane).Heeds (evidenceWatch w) i (.verifyDNS agentID lane) (fun _ _ => True) scene := by
  apply heeds_ask (fun _ _ _ _ => trivial)
  intro t now _ _ _
  apply heeds_find (fun _ => trivial)
  intro t' _ reg _ _ hfind
  have hreg : reg.agentID = agentID := by
    obtain ⟨_, row, _, hdomain, hagent⟩ := findByAgentID_stored hfind
    rw [← hdomain]
    exact hagent
  apply Heeds.bind (heeds_of_ports (ensureHostNotTakenByOther_reaches reg) rfl)
  intro _ u _ _
  refine heeds_ite (fun _ => trivial) ?_
  intro _
  apply heeds_check
  intro _
  apply heeds_find (fun _ => trivial)
  intro u' _ endpoints _ _ _
  apply Heeds.bind (heeds_of_ports (loadServerCert_reaches agentID) rfl)
  intro serverCert v _ _
  apply heeds_ask (fun _ _ _ _ => trivial)
  intro v' report _ _ _
  cases report with
  | error e => trivial
  | ok report =>
    refine heeds_ite (fun _ => trivial) ?_
    intro _
    apply heeds_orFail
    intro activated hactivate
    have hactivated : activated.agentID = agentID := by
      obtain ⟨_, hsame⟩ := AgentRegistration.activate_eq_ok_iff.mp hactivate
      rw [← hsame]
      exact hreg
    apply Heeds.bind (sealActivationEvent_heeds hactivated)
    intro sealed x _ _
    apply Heeds.bind (heeds_of_ports (revokeConflictLoserCertsAtCA_reaches _ _) rfl)
    intro _ y _ _
    apply heeds_run (fun _ _ _ _ _ => trivial)
    intro z _ _ _ _ _ _ _
    trivial

theorem program_heeds_evidence (op : Op) : (op.program w).Heeds (evidenceWatch w) i op (fun _ _ => True) scene := by
  cases op with
  | verifyDNS agentID lane =>
    apply Heeds.bind (verifyDNS_heeds lane)
    intro _ _ _ _
    trivial
  | _ => exact heeds_of_ports (program_reaches w _) rfl

end

/-! ### The evidence is single-valued -/

/-- An activation is never left to the outbox workers: its row is delivered when it is written. -/
def RegisteredDelivered (s : Store) : Prop :=
  ∀ id row, (id, row) ∈ s.outbox.rows → row.eventType = .agentRegistered → row.sentAt.isSome = true

theorem RegisteredDelivered.continues (h : RegisteredDelivered s) (hcontinues : Outbox.Continues s.outbox t.outbox) :
    RegisteredDelivered t := by
  intro id row hrow htype
  have hnotRenewed : row.eventType ≠ .agentRenewed := by
    rw [htype]
    exact nofun
  obtain ⟨old, hold, hsame, _⟩ := hcontinues.nothingNew id row hrow hnotRenewed
  have hsent := h id old hold (hsame.symm.trans htype)
  obtain ⟨new, hnew, hsucceeds⟩ := hcontinues.kept id old hold
  rw [mem_unique hrow hnew, hsucceeds.delivered hsent]
  exact hsent

theorem Effect.registeredDelivered {c : Call} (h : Effect s t c) (hs : RegisteredDelivered s) :
    RegisteredDelivered t := by
  have hsame (houtbox : t.outbox = s.outbox) : RegisteredDelivered t := hs.continues (houtbox ▸ .refl s.outbox)
  have hinserted {u : Table OutboxRow} {new : OutboxRow}
      (hu : ∀ id row, (id, row) ∈ u.rows → row.eventType = .agentRegistered → row.sentAt.isSome = true)
      (hnew : new.eventType = .agentRegistered → new.sentAt.isSome = true) (houtbox : t.outbox = u.insert new) :
      RegisteredDelivered t := by
    intro id row hrow htype
    rw [houtbox] at hrow
    rcases mem_insert.mp hrow with hold | heq
    · exact hu id row hold htype
    · rw [(Prod.mk.inj heq).2] at htype ⊢
      exact hnew htype
  cases h with
  | quiet _ _ houtbox | rotated _ _ _ _ _ houtbox => exact hs.continues houtbox.toContinues
  | sent _ _ _ houtbox =>
    obtain ⟨now, houtbox⟩ := houtbox
    exact hs.continues (houtbox ▸ Outbox.continues_markSent now _ _ _)
  | registered _ _ _ houtbox | advanced _ _ _ houtbox | lapsed _ _ houtbox => exact hsame houtbox
  | saved _ hresult | cancelled _ hresult | swept hresult => exact hsame (hresult ▸ rfl)
  | activated _ _ _ _ _ _ houtbox =>
    obtain ⟨now, houtbox⟩ := houtbox
    exact hinserted hs (fun _ => rfl) houtbox
  | revoked _ _ _ _ _ houtbox =>
    obtain ⟨fenced, hfenced, now, payload, houtbox⟩ := houtbox
    have hf : RegisteredDelivered { s with outbox := fenced } := hs.continues hfenced.toContinues
    exact hinserted hf (fun htype => by cases htype) houtbox

theorem registeredDelivered (w : Wiring) {p : Pool (service w)} (h : Reached (service w) p) :
    RegisteredDelivered p.state :=
  (governs w).invariant (by simp [RegisteredDelivered, Store.empty])
    (fun _ _ _ _ _ hinv hpre _ hs hexec => (effect_of_exec hinv hpre hexec).registeredDelivered hs) h

/-- The leaves of a log that the activation of an agent has left. -/
def activationLeaves {w : Wiring} (agentID : String) (h : History w) (log : List String) : List String :=
  log.filter fun event => (submissions agentID h).any fun submitted => submitted.2.innerEventCanonical == event

/-- In every run, with any interleaving, any answers from outside, lost acknowledgements and failed calls: all
attempts at activating an agent that reach the log submit the same lane, canonical event and signature; the log
holds at most one leaf for the activation; and the outbox workers never have an activation to deliver. -/
theorem activation_evidence_single_valued (w : Wiring) {p : Recorded (service w)}
    (h : Recording (service w) p) (agentID : String) :
    (∀ x ∈ submissions agentID p.history, ∀ y ∈ submissions agentID p.history, x = y) ∧
      (∀ log, Logs p.history log → (activationLeaves agentID p.history log).length ≤ 1) ∧
      RegisteredDelivered p.pool.state := by
  obtain ⟨hunique, hsubmits⟩ := (evidenceWatch w).inv (governs w)
    ⟨by simp [EvidenceUnique, Store.empty], by simp [SubmitsEvidence, submissions]⟩
    (fun _ op _ _ _ => program_heeds_evidence op) h
  have hsame : ∀ x ∈ submissions agentID p.history, ∀ y ∈ submissions agentID p.history, x = y := by
    rintro ⟨lane, payload⟩ hx ⟨lane', payload'⟩ hy
    exact hunique.eq (hsubmits agentID lane payload hx) (hsubmits agentID lane' payload' hy)
  refine ⟨hsame, ?_, registeredDelivered w h.reached⟩
  intro log hlogs
  -- the leaves are distinct, and those of the activation are all the one canonical event
  have hnodup : (activationLeaves agentID p.history log).Nodup := hlogs.nodup.filter _
  have hone : ∀ x ∈ activationLeaves agentID p.history log, ∀ y ∈ activationLeaves agentID p.history log, x = y := by
    intro x hx y hy
    simp only [activationLeaves, mem_filter, any_eq_true, beq_iff_eq] at hx hy
    obtain ⟨_, submitted, hsubmitted, rfl⟩ := hx
    obtain ⟨_, submitted', hsubmitted', rfl⟩ := hy
    rw [hsame submitted hsubmitted submitted' hsubmitted']
  rcases hleaves : activationLeaves agentID p.history log with _ | ⟨x, _ | ⟨y, rest⟩⟩
  · exact Nat.zero_le 1
  · exact Nat.le_refl 1
  · rw [hleaves] at hnodup hone
    have heq := hone x mem_cons_self y (mem_cons_of_mem x mem_cons_self)
    exact absurd heq (ne_of_not_mem_cons (nodup_cons.mp hnodup).1)

/-! ### A retry after a lost acknowledgement -/

/-- The log does not answer in time. -/
def timingOutWorld : (q : Query) → q.Answer
  | .sealAgentEvent .. => .error (.unavailable "TL_UNAVAILABLE" "seal timed out")
  | q => grantingWorld "agent-1" "log-1" q

/-- A later moment: the event would be built and signed anew. -/
def laterWorld : (q : Query) → q.Answer
  | .sign _ => .ok ⟨"later event", "later signature"⟩
  | q => grantingWorld "agent-1" "log-1" q

/-- The first activation may have been sealed, but its acknowledgement is lost; the second one succeeds. -/
def retriedActivation : Recorded (service {}) :=
  let granting := fun (p : Recorded (service {})) thread moves =>
    p.drive thread grantingAmbient (grantingWorld "agent-1" "log-1") moves
  let registered := granting ((Recorded.start _).spawn (.registerAgent sampleRequest)) 0 20
  let validated := granting (registered.spawn (.verifyACME "agent-1")) 1 20
  let timedOut := (validated.spawn (.verifyDNS "agent-1" .v2)).drive 2 grantingAmbient timingOutWorld 30
  (timedOut.spawn (.verifyDNS "agent-1" .v2)).drive 3 grantingAmbient laterWorld 30

theorem retriedActivation_recording : Recording (service {}) retriedActivation := by
  have hregistered := (Recording.start.spawn (S := service {}) (.registerAgent sampleRequest)).drive 0
    grantingAmbient (grantingWorld "agent-1" "log-1") 20
  have hvalidated := (hregistered.spawn (.verifyACME "agent-1")).drive 1
    grantingAmbient (grantingWorld "agent-1" "log-1") 20
  have htimedOut := (hvalidated.spawn (.verifyDNS "agent-1" .v2)).drive 2 grantingAmbient timingOutWorld 30
  exact (htimedOut.spawn (.verifyDNS "agent-1" .v2)).drive 3 grantingAmbient laterWorld 30

set_option maxRecDepth 20000 in
theorem retriedActivation_submissions : statuses retriedActivation.pool.state = [(1, "agent-1", .active)] ∧
    submissions "agent-1" retriedActivation.history =
      [(.v2, ⟨"event", "signature"⟩), (.v2, ⟨"event", "signature"⟩)] := by decide +kernel

theorem activation_evidence_single_valued_retried : (submissions "agent-1" retriedActivation.history).length = 2 ∧
      (∀ x ∈ submissions "agent-1" retriedActivation.history,
        ∀ y ∈ submissions "agent-1" retriedActivation.history, x = y) ∧ ∀ log, Logs retriedActivation.history log →
        (activationLeaves "agent-1" retriedActivation.history log).length ≤ 1 := by
  obtain ⟨hsame, hleaves, _⟩ := activation_evidence_single_valued {} retriedActivation_recording "agent-1"
  refine ⟨?_, hsame, hleaves⟩
  rw [retriedActivation_submissions.2]
  rfl

/-! ### The archive -/

/-- What the tables never lose.  Of registrations, requests and certificates some columns are overwritten. -/
structure Archived (s t : Store) : Prop where
  agents : Stays (fun row reg => AgentRow.overwrite reg row) s.agents t.agents
  csrs : Stays (fun row csr => CSRRow.overwrite csr row) s.csrs t.csrs
  certificates : Stays (fun row status => { row with certificate := { row.certificate with status } })
    s.certificates t.certificates
  byoc : Stays id s.byoc t.byoc
  seals : Stays id s.seals t.seals
  outbox : Outbox.Follows s.outbox t.outbox

namespace Archived

theorem refl (s : Store) : Archived s s := ⟨.refl, .refl, .refl, .refl, .refl, .refl _⟩

theorem trans (s t u : Store) (h : Archived s t) (h' : Archived t u) : Archived s u :=
  ⟨h.agents.trans h'.agents, h.csrs.trans h'.csrs, h.certificates.trans h'.certificates, h.byoc.trans h'.byoc,
    h.seals.trans h'.seals, h.outbox.trans h'.outbox⟩

theorem of_leaves {s t : Store} {st : Statement} (h : st.Leaves s t) : Archived s t := by
  cases h with
  | agentInserted => exact { refl s with agents := .insert }
  | agentSaved | agentsLapsed => exact { refl s with agents := .update fun _ => rfl }
  | csrSaved => exact { refl s with csrs := .update fun _ => rfl }
  | csrInserted => exact { refl s with csrs := .insert }
  | certificateInserted => exact { refl s with certificates := .insert }
  | certificateStatus => exact { refl s with certificates := .update fun _ => rfl }
  | byocInserted => exact { refl s with byoc := .insert }
  | sealElected => exact { refl s with seals := .insert }
  | endpoints | renewalInserted | renewalSaved | renewalDeleted | sealKept => exact { refl s with }
  | outbox => exact { refl s with outbox := Outbox.Statement.follows _ _ }

end Archived

end AgentNameService.Registration
