/-
Purpose: Whether the revocation of an activated registration reaches the transparency log.  It does as long
  as no registration is cancelled as pending after its activation has committed; `cancelPending` decides on
  a copy, so an activation that commits in between makes it revoke a live registration without an event.
Source: internal/ra/service/{lifecycle,registration}.go, internal/adapter/store/sqlite/outbox.go
Trusted boundary: none
-/
import AgentNameService.Registration.Lifecycle

namespace AgentNameService.Registration

open Interleaving Store List Table

variable {s t : Store} {c : Call} {id : Nat} {row row' : AgentRow} {agentID : String}

/-- The activation of an agent has committed: its `AGENT_REGISTERED` row is in the outbox. -/
def Activated (agentID : String) (s : Store) : Prop :=
  ∃ ev ∈ s.outbox.rows, ev.2.agentID = agentID ∧ ev.2.eventType = .agentRegistered

/-- An `AGENT_REVOKED` row of the agent is in the outbox, neither dead nor cancelled. -/
def Announced (agentID : String) (s : Store) : Prop :=
  ∃ ev ∈ s.outbox.rows, ev.2.agentID = agentID ∧ ev.2.eventType = .agentRevoked ∧ ev.2.deadAt = none ∧
    ev.2.cancelledAt = none

/-- Every activated registration that is revoked is announced as revoked. -/
def Published (s : Store) : Prop :=
  ∀ id row, (id, row) ∈ s.agents.rows → row.status = .revoked → Activated row.agentID s → Announced row.agentID s

/-- The step cancels no registration as pending whose activation has committed: neither the one that
`cancelPending` saves, nor a rival on the host of an activation. -/
def CancelsUnactivated : Call → Store → Prop
  | .commitCancellation reg _, s =>
    ∀ stored ∈ s.agents.rows, stored.1 = reg.id → stored.2.status = .revoked ∨ ¬ Activated stored.2.agentID s
  | .commitActivation reg _, s => ∀ r ∈ losers reg s, ¬ Activated r.agentID s
  | _, _ => True

instance (agentID : String) (s : Store) : Decidable (Activated agentID s) :=
  inferInstanceAs (Decidable (∃ ev ∈ s.outbox.rows, _))

instance (c : Call) (s : Store) : Decidable (CancelsUnactivated c s) :=
  match c with
  | .commitCancellation .. => inferInstanceAs (Decidable (∀ stored ∈ s.agents.rows, _))
  | .commitActivation reg _ => inferInstanceAs (Decidable (∀ r ∈ losers reg s, _))
  | .read _ | .saveAgent _ | .saveCSR .. | .saveRenewal _ | .prepareActivationSeal ..
  | .expireLapsedPendingValidation _ | .delivery _ | .register _ | .commitACME .. | .commitRevocation ..
  | .sweepCertificates _ | .commitIdentityCSR .. | .commitServerCSR .. | .submitRenewal .. | .cancelRenewal ..
  | .commitRenewal .. => .isTrue trivial

/-! ### The outbox -/

theorem Effect.announced (h : Effect s t c) (hs : Announced agentID s) : Announced agentID t := by
  obtain ⟨⟨k, old⟩, hold, hagent, htype, hdead, hcancelled⟩ := hs
  obtain ⟨new, hnew, hto⟩ := h.outbox_kept hold
  obtain ⟨hdead', hcancelled'⟩ := hto.revocation htype
  exact ⟨(k, new), hnew, hto.agentID.trans hagent, hto.eventType.trans htype, hdead'.trans hdead,
    hcancelled'.trans hcancelled⟩

theorem Activated.of_continues (h : Outbox.Continues s.outbox t.outbox) (ht : Activated agentID t) :
    Activated agentID s := by
  obtain ⟨⟨k, new⟩, hnew, hagent, htype⟩ := ht
  replace htype : new.eventType = .agentRegistered := htype
  obtain ⟨old, hold, htype', hagent'⟩ := h.nothingNew k new hnew (by simp [htype])
  exact ⟨(k, old), hold, hagent'.symm.trans hagent, htype'.symm.trans htype⟩

/-- Only an activation records that an agent has been activated, and it leaves the agent active. -/
theorem Effect.activated_before (h : Effect s t c) (hpre : Pre c s) (ht : Activated agentID t) :
    Activated agentID s ∨ ∃ id row, (id, row) ∈ t.agents.rows ∧ row.agentID = agentID ∧ row.status = .active := by
  have hsame (houtbox : t.outbox = s.outbox) : Activated agentID s :=
    ht.of_continues (houtbox ▸ .refl s.outbox)
  cases h with
  | quiet _ _ houtbox | rotated _ _ _ _ _ houtbox => exact .inl (ht.of_continues houtbox.toContinues)
  | sent _ _ _ houtbox =>
    obtain ⟨now, houtbox⟩ := houtbox
    exact .inl (ht.of_continues (houtbox ▸ Outbox.continues_markSent _ _ _ _))
  | registered _ _ _ houtbox | advanced _ _ _ houtbox | lapsed _ _ houtbox => exact .inl (hsame houtbox)
  | saved _ hresult | cancelled _ hresult | swept hresult => exact .inl (hsame (hresult ▸ rfl))
  | @activated reg _ own hown _ _ _ hagents _ houtbox =>
    obtain ⟨now, houtbox⟩ := houtbox
    obtain ⟨⟨k, ev⟩, hev, hagent, htype⟩ := ht
    rw [houtbox, Outbox.recordSealed, mem_insert] at hev
    rcases hev with hold | hnew
    · exact .inl ⟨(k, ev), hold, hagent, htype⟩
    · right
      obtain ⟨⟨own', hown', hownAgent, _⟩, hactive, _⟩ := hpre
      obtain rfl := mem_unique hown hown'
      refine ⟨reg.id, own.overwrite reg, ?_, ?_, hactive⟩
      · exact (rewrites_activation hagents _ _).mpr ⟨own, hown, by simp [afterActivation]⟩
      · rw [(Prod.mk.inj hnew).2] at hagent
        exact hownAgent.trans hagent
  | revoked _ _ _ _ _ houtbox =>
    obtain ⟨fenced, hfenced, _, _, houtbox⟩ := houtbox
    obtain ⟨⟨k, ev⟩, hev, hagent, htype⟩ := ht
    replace htype : ev.eventType = .agentRegistered := htype
    rw [houtbox, Outbox.enqueue, mem_insert] at hev
    rcases hev with hold | hnew
    · obtain ⟨old, hold, htype', hagent'⟩ := hfenced.nothingNew k ev hold (by simp [htype])
      exact .inl ⟨(k, old), hold, hagent'.symm.trans hagent, htype'.symm.trans htype⟩
    · rw [(Prod.mk.inj hnew).2] at htype
      cases htype

/-! ### Registrations that a step revokes -/

/-- A revocation of a live registration that changes the registrations announces it. -/
theorem Effect.announces {reg : AgentRegistration} {certs : List StoredCertificate} {reason : RevocationReason}
    {lane : Lane} {now : Time} (h : Effect s t (.commitRevocation reg certs reason lane now)) :
    t.agents = s.agents ∨ Announced reg.agentID t := by
  cases h with
  | quiet hagents => exact .inl hagents
  | revoked _ _ _ _ _ houtbox =>
    obtain ⟨fenced, _, stamp, payload, houtbox⟩ := houtbox
    refine .inr ⟨(fenced.next, { eventType := .agentRevoked, agentID := reg.agentID, schemaVersion := lane,
                                 payload, nextAttemptAt := now, createdAt := stamp }), ?_, rfl, rfl, rfl, rfl⟩
    rw [houtbox]
    exact mem_insert.mpr (.inr rfl)

theorem Effect.published (h : Effect s t c) (hinv : Inv s) (hpre : Pre c s) (hallowed : CancelsUnactivated c s)
    (hs : Published s) : Published t := by
  intro id row' hrow' hrevoked hactivated
  -- the step did not activate the registration, or it would be active now
  have hbefore : Activated row'.agentID s := by
    rcases h.activated_before hpre hactivated with hbefore | ⟨j, other, hother, hagent, hactive⟩
    · exact hbefore
    · obtain ⟨_, rfl⟩ := (h.keeps hinv hpre).1.unique hrow' hother hagent.symm
      rw [hrevoked] at hactive
      cases hactive
  rcases h.revoked_by hpre hrow' hrevoked with ⟨row, hrow, hagent, hold⟩ | ⟨hchanged, hby⟩
  · rw [← hagent] at hbefore ⊢
    exact h.announced (hs id row hrow hold hbefore)
  · cases hby with
    | loser hloses hagent => exact absurd hbefore (hagent ▸ hallowed _ hloses)
    | live hagent => exact hagent ▸ h.announces.resolve_left hchanged
    | pending hstored hagent hwas =>
      exact absurd hbefore (hagent ▸ (hallowed _ hstored rfl).resolve_left hwas)

/-! ### Every run -/

/-- In every run in which no registration is cancelled as pending once its activation has committed, every
activated registration that is revoked is announced as revoked. -/
theorem published_of_cancelsUnactivated (w : Wiring) {p : Pool (service w)}
    (hreachable : Reachable (service w) CancelsUnactivated p) : Published p.state :=
  (governs w).invariant (by simp [Published, Store.empty])
    (fun _ _ _ _ _ hinv hpre hallowed hs hexec =>
      (effect_of_exec hinv hpre hexec).published hinv hpre hallowed hs) hreachable

/-- A registration that runs through its life with nothing in between: validated, activated and revoked. -/
def retiredPool : Pool (service {}) :=
  let step := advanceWhile fun c s => decide (CancelsUnactivated c s)
  let registered := step ((Pool.start (service {})).spawn (.registerAgent sampleRequest)) 0 20
  let validated := step (registered.spawn (.verifyACME "agent-1")) 1 20
  let activated := step (validated.spawn (.verifyDNS "agent-1" .v2)) 2 30
  step (activated.spawn (.revoke "agent-1" .keyCompromise .v2)) 3 30

theorem retiredPool_reachable : Reachable (service {}) CancelsUnactivated retiredPool := by
  have hstep {p : Pool (service {})} (h : Reachable (service {}) CancelsUnactivated p) (thread moves : Nat) :
      Reachable (service {}) CancelsUnactivated
        (advanceWhile (fun c s => decide (CancelsUnactivated c s)) p thread moves) :=
    h.driveWhile (fun _ _ hadmitted => of_decide_eq_true hadmitted) _ _ _ _
  have hregistered := hstep (Reachable.start.spawn (Op.registerAgent sampleRequest)) 0 20
  have hvalidated := hstep (hregistered.spawn (.verifyACME "agent-1")) 1 20
  have hactivated := hstep (hvalidated.spawn (.verifyDNS "agent-1" .v2)) 2 30
  exact hstep (hactivated.spawn (.revoke "agent-1" .keyCompromise .v2)) 3 30

set_option maxRecDepth 20000 in
theorem retiredPool_revoked : statuses retiredPool.state = [(1, "agent-1", .revoked)] ∧
    Activated "agent-1" retiredPool.state := by decide +kernel

/-- The condition is met where the revocation follows the activation, and the revocation is announced. -/
theorem published_of_cancelsUnactivated_retired : Announced "agent-1" retiredPool.state := by
  obtain ⟨hstatus, hactivated⟩ := retiredPool_revoked
  obtain ⟨row, hrow, hagent, hrevoked⟩ := mem_of_statuses hstatus
  rw [← hagent] at hactivated ⊢
  exact published_of_cancelsUnactivated {} retiredPool_reachable 1 row hrow hrevoked hactivated

/-! ### The race -/

/-- `cancelPending` has read a registration that waits for its records and is about to commit; `VerifyDNS`
activates it; the cancellation commits. -/
def cancelledLivePool : Pool (service {}) :=
  let validated := advance (registeredPool.spawn (.verifyACME "agent-1")) 1 20
  let cancelling := advance (validated.spawn (.revoke "agent-1" .keyCompromise .v2)) 2 6
  let activated := advance (cancelling.spawn (.verifyDNS "agent-1" .v2)) 3 30
  advance activated 2 10

theorem cancelledLivePool_reached : Reached (service {}) cancelledLivePool := by
  have hvalidated := advance_reached (registeredPool_reached.spawn (.verifyACME "agent-1")) 1 20
  have hcancelling := advance_reached (hvalidated.spawn (.revoke "agent-1" .keyCompromise .v2)) 2 6
  have hactivated := advance_reached (hcancelling.spawn (.verifyDNS "agent-1" .v2)) 3 30
  exact advance_reached hactivated 2 10

set_option maxRecDepth 20000 in
theorem cancelledLivePool_events : statuses cancelledLivePool.state = [(1, "agent-1", .revoked)] ∧
    cancelledLivePool.state.outbox.rows.map (fun ev => (ev.2.agentID, ev.2.eventType)) =
      [("agent-1", .agentRegistered)] := by decide +kernel

/-- The registration has been activated and is revoked, and the outbox holds nothing but its activation. -/
theorem revoked_without_event : ∃ p : Pool (service {}), Reached (service {}) p ∧ Revoked "agent-1" p.state ∧
    Activated "agent-1" p.state ∧ ¬ Announced "agent-1" p.state := by
  obtain ⟨hstatus, hevents⟩ := cancelledLivePool_events
  obtain ⟨row, hrow, hagent, hrevoked⟩ := mem_of_statuses hstatus
  have hmem : ("agent-1", EventType.agentRegistered) ∈
      cancelledLivePool.state.outbox.rows.map fun ev => (ev.2.agentID, ev.2.eventType) := by
    rw [hevents]
    exact mem_singleton_self _
  obtain ⟨ev, hev, heq⟩ := mem_map.mp hmem
  refine ⟨cancelledLivePool, cancelledLivePool_reached, ⟨1, row, hrow, hagent, hrevoked⟩,
    ⟨ev, hev, (Prod.mk.inj heq).1, (Prod.mk.inj heq).2⟩, ?_⟩
  rintro ⟨ev', hev', _, htype, _⟩
  have hmem' := mem_map_of_mem (f := fun ev : Nat × OutboxRow => (ev.2.agentID, ev.2.eventType)) hev'
  rw [hevents, mem_singleton] at hmem'
  rw [(Prod.mk.inj hmem').2] at htype
  cases htype

end AgentNameService.Registration
