/-
Purpose: The order of the log follows the order of the outbox.  A worker posts a row only after every earlier row
  of its agent is closed, and nothing of an agent is open when its revocation is announced; so however long a
  worker is paused and however late a post arrives, an agent's delivered rows have their leaves in the order in
  which they were enqueued.
Source: internal/ra/outbox/worker.go, internal/adapter/store/sqlite/outbox.go, internal/ra/service/revocation.go
Trusted boundary: none
-/
import AgentNameService.Registration.Evidence

namespace AgentNameService.Registration

open Interleaving Interleaving.Prog Store List Table

variable {s t : Store} {row : OutboxRow} {c : Call} {id : Nat} {ambient : Ambient} {agentID : String} {event : String}

/-! ### Revocations are announced once -/

/-- Whoever is announced as revoked is revoked. -/
def RevokedRows (s : Store) : Prop :=
  ∀ id row, (id, row) ∈ s.outbox.rows → row.eventType = .agentRevoked → Revoked row.agentID s

/-- A revocation that is announced after a step was so before, or the step is the revocation. -/
theorem Effect.revocation_before (h : Effect s t c)
    (hrow : (id, row) ∈ t.outbox.rows) (htype : row.eventType = .agentRevoked) :
    (∃ old, (id, old) ∈ s.outbox.rows ∧ old.eventType = .agentRevoked ∧ old.agentID = row.agentID) ∨
      Revoked row.agentID t := by
  have hnotRenewed : row.eventType ≠ .agentRenewed := by
    rw [htype]
    exact nofun
  have hcontinues {u : Table OutboxRow} (hu : Outbox.Continues s.outbox u) (hmem : (id, row) ∈ u.rows) :
      ∃ old, (id, old) ∈ s.outbox.rows ∧ old.eventType = .agentRevoked ∧ old.agentID = row.agentID := by
    obtain ⟨old, hold, heventType, hagentID⟩ := hu.nothingNew id row hmem hnotRenewed
    exact ⟨old, hold, heventType.symm.trans htype, hagentID.symm⟩
  have hsame (houtbox : t.outbox = s.outbox) := hcontinues (houtbox ▸ .refl s.outbox) hrow
  cases h with
  | quiet _ _ houtbox | rotated _ _ _ _ _ houtbox => exact .inl (hcontinues houtbox.toContinues hrow)
  | sent _ _ _ houtbox =>
    obtain ⟨now, houtbox⟩ := houtbox
    exact .inl (hcontinues (houtbox ▸ Outbox.continues_markSent now _ _ _) hrow)
  | registered _ _ _ houtbox | advanced _ _ _ houtbox | lapsed _ _ houtbox => exact .inl (hsame houtbox)
  | saved _ hresult | cancelled _ hresult | swept hresult => exact .inl (hsame (hresult ▸ rfl))
  | activated _ _ _ _ _ _ houtbox =>
    obtain ⟨now, houtbox⟩ := houtbox
    rw [houtbox] at hrow
    rcases mem_insert.mp hrow with hold | hnew
    · exact .inl ⟨row, hold, htype, rfl⟩
    · rw [(Prod.mk.inj hnew).2] at htype
      cases htype
  | @revoked reg _ _ _ _ agent stored hstored hagent _ hagents _ houtbox =>
    obtain ⟨fenced, hfenced, _, _, houtbox⟩ := houtbox
    rw [houtbox] at hrow
    rcases mem_insert.mp hrow with hold | hnew
    · exact .inl (hcontinues hfenced.toContinues hold)
    · right
      rw [(Prod.mk.inj hnew).2]
      refine ⟨agent, revokedRow stored, ?_, hagent, rfl⟩
      rw [hagents]
      exact mem_update.mpr ⟨stored, hstored, by simp⟩

theorem Effect.revokedRows (h : Effect s t c) (hinv : Inv s) (hpre : Pre c s) (hs : RevokedRows s) :
    RevokedRows t := by
  intro id row hrow htype
  rcases h.revocation_before hrow htype with ⟨old, hold, holdType, hagent⟩ | hnew
  · exact hagent ▸ (hs id old hold holdType).evolves (h.keeps hinv hpre).2
  · exact hnew

/-! ### What a call does to the outbox -/

section

variable {log : List String}

/-- Writes whose statements on the outbox have what they need. -/
theorem Store.Writes.trackedRun {A : Allowed} (h : Writes A s t)
    (hA : ∀ st u, A.statement st → Outbox.Follows s.outbox u → st.Tracks u log) : Outbox.TrackedRun log s.outbox t.outbox := by
  induction h with
  | refl => exact .refl
  | tail _ hlast ih =>
    cases hlast with
    | outbox now hst => exact ih.step _ now (hA _ _ hst ih.follows)
    | _ => exact ih

/-- What a call needs: the row it acknowledges is there and its event has a leaf. -/
def Call.Acknowledges (leaf : String → Prop) (s : Store) : Call → Prop
  | .delivery (.markSent id _ _) => ∃ row, (id, row) ∈ s.outbox.rows ∧ leaf row.event
  | _ => True

/-- A revocation cancels whatever of the agent is open before it is announced. -/
theorem commitRevocation_trackedRun {reg r : AgentRegistration} {certs : List StoredCertificate}
    {reason : RevocationReason} {lane : Lane} {now : Time} (hinv : Inv s) (hrevoked : RevokedRows s)
    (h : Transactions.commitRevocation ambient reg certs reason lane now s = .ok (r, t)) :
    Outbox.TrackedRun log s.outbox t.outbox := by
  rcases commitRevocation_stored h with
    ⟨_, rfl⟩ | ⟨id, row, payload, hrow, hagent, hlegal, _, _, houtbox⟩
  · exact .refl
  have hfenced : Outbox.TrackedRun log s.outbox (Outbox.cancelPending s.outbox ambient.now reg.agentID) :=
    .step (.cancelPending reg.agentID) ambient.now .refl trivial
  rw [houtbox]
  refine .step (.enqueue .agentRevoked reg.agentID lane payload now) ambient.now hfenced ?_
  intro _ j ev hev hevAgent
  apply Outbox.closed_of_cancelPending hev hevAgent
  -- an earlier announcement would mean that the registration is revoked already
  intro htype
  obtain ⟨old, hold, rfl⟩ := mem_update.mp hev
  have holdAgent : old.agentID = reg.agentID := by
    split at hevAgent
    · exact hevAgent
    · exact hevAgent
  have holdType : old.eventType = .agentRevoked := by
    split at htype
    · exact htype
    · exact htype
  obtain ⟨k, stored, hstored, hstoredAgent, hstatus⟩ := hrevoked j old hold holdType
  obtain ⟨_, rfl⟩ := hinv.unique hrow hstored (hagent.trans (hstoredAgent.trans holdAgent).symm)
  rw [hstatus] at hlegal
  cases hlegal

/-- Every call is a run of statements that have what they need. -/
theorem Call.trackedRun {r : c.Reply} (hinv : Inv s) (hrevoked : RevokedRows s)
    (hacks : c.Acknowledges (· ∈ log) s) (h : c.exec ambient s = .ok (r, t)) :
    Outbox.TrackedRun log s.outbox t.outbox := by
  have hwrites := c.writes ambient s r t h
  cases c with
  | commitRevocation => exact commitRevocation_trackedRun hinv hrevoked h
  | delivery d =>
    apply hwrites.trackedRun
    rintro st u ⟨⟩ hfollows
    cases d with
    | markSent id token logID =>
      intro row' hrow'
      obtain ⟨row, hrow, hleaf⟩ := hacks
      obtain ⟨later, hlater, hsame, _⟩ := hfollows.kept id row hrow
      rw [mem_unique hrow' hlater, hsame.event]
      exact hleaf
    | acquire | markFailed | markDead => trivial
  | commitActivation =>
    apply hwrites.trackedRun
    rintro st u ⟨⟩ _
    rfl
  | commitIdentityCSR | commitRenewal =>
    apply hwrites.trackedRun
    rintro st u ⟨⟩ _ htype
    cases htype
  | read | saveAgent | saveCSR | saveRenewal | prepareActivationSeal | expireLapsedPendingValidation | register
  | commitACME | commitCancellation | sweepCertificates | commitServerCSR | submitRenewal | cancelRenewal =>
    apply hwrites.trackedRun
    rintro st u ⟨⟩

end

/-! ### Events name what they are about -/

section

variable {w : Wiring} {subject : String → String × EventType}

/-- A canonical event tells its agent and its type, and the rows of an agent that are left to the workers carry
distinct events. -/
structure Telling (subject : String → String × EventType) (s : Scene (service w)) : Prop where
  queued : ∀ id row, (id, row) ∈ s.state.outbox.rows → row.isQueued = true →
    subject row.event = (row.agentID, row.eventType)
  submitted : ∀ agentID, ∀ x ∈ submissions agentID s.history,
    subject x.2.innerEventCanonical = (agentID, .agentRegistered)
  distinct : ∀ i j row row', (i, row) ∈ s.state.outbox.rows → (j, row') ∈ s.state.outbox.rows →
    row.isQueued = true → row'.isQueued = true → row.agentID = row'.agentID → row.event = row'.event → i = j

/-- Where a posted event comes from: a row before which nothing of its agent is open, or an activation. -/
def FromOutbox (s : Scene (service w)) : Prop :=
  ∀ event, Posted s.history event →
    (∃ id row, (id, row) ∈ s.state.outbox.rows ∧ row.isQueued = true ∧ row.event = event ∧
      Outbox.Cleared s.state.outbox id row.agentID) ∨
    ∃ agentID, ∃ x ∈ submissions agentID s.history, x.2.innerEventCanonical = event

variable {scene : Scene (service w)}

/-- A row that is left to the workers never carries the event of an activation. -/
theorem Telling.not_submitted (h : Telling subject scene)
    (hrow : (id, row) ∈ scene.state.outbox.rows) (hqueued : row.isQueued = true)
    {x : Lane × OutboxPayload} (hx : x ∈ submissions agentID scene.history) : x.2.innerEventCanonical ≠ row.event := by
  intro hsame
  have hsubject := h.submitted agentID x hx
  rw [hsame, h.queued id row hrow hqueued] at hsubject
  simp [OutboxRow.isQueued, (Prod.mk.inj hsubject).2] at hqueued

/-- Rows with one event are one row. -/
theorem Telling.same_row (h : Telling subject scene) {i j : Nat} {row' : OutboxRow}
    (hrow : (i, row) ∈ scene.state.outbox.rows) (hrow' : (j, row') ∈ scene.state.outbox.rows)
    (hqueued : row.isQueued = true) (hqueued' : row'.isQueued = true) (hevent : row.event = row'.event) : i = j := by
  apply h.distinct i j row row' hrow hrow' hqueued hqueued' _ hevent
  have hsubject := h.queued i row hrow hqueued
  rw [hevent, h.queued j row' hrow' hqueued'] at hsubject
  exact (Prod.mk.inj hsubject).1.symm

/-- Nothing is open before any row whose event has been posted. -/
theorem Telling.cleared (h : Telling subject scene) (hfrom : FromOutbox scene)
    (hposted : Posted scene.history event)
    (hrow : (id, row) ∈ scene.state.outbox.rows) (hqueued : row.isQueued = true) (hevent : row.event = event) :
    Outbox.Cleared scene.state.outbox id row.agentID := by
  rcases hfrom event hposted with ⟨j, other, hother, hotherQueued, hotherEvent, hcleared⟩ | ⟨agentID, x, hx, hxEvent⟩
  · obtain rfl := h.same_row hrow hother hqueued hotherQueued (hevent.trans hotherEvent.symm)
    obtain rfl := mem_unique hrow hother
    exact hcleared
  · exact absurd (hxEvent.trans hevent.symm) (h.not_submitted hrow hqueued hx)

/-! ### The watch -/

/-- An outbox and the logs a history may have left. -/
def LogsInOrder (subject : String → String × EventType) (s : Scene (service w)) : Prop :=
  ∀ log, Logs s.history log → Outbox.Tracked s.state.outbox log ∧
    (Telling subject s → Outbox.InOrder s.state.outbox log)

structure OrderInv (subject : String → String × EventType) (s : Scene (service w)) : Prop where
  revoked : RevokedRows s.state
  registered : RegisteredDelivered s.state
  posts : FromOutbox s
  logs : LogsInOrder subject s

/-- What a question needs: only rows before which nothing is open are posted, and only activations are sealed. -/
def PostsCleared (op : Op) (q : Query) (s : Store) : Prop :=
  match q with
  | .append _ payload => ∃ id row, (id, row) ∈ s.outbox.rows ∧ row.isQueued = true ∧ row.payload = payload ∧
      Outbox.Cleared s.outbox id row.agentID
  | .sealAgentEvent .. => ∃ agentID lane, op = .verifyDNS agentID lane
  | _ => True

theorem submissions_append (agentID : String) (h : History w) (entry : Entry (service w)) :
    submissions agentID (h ++ [entry]) = submissions agentID h ++ (submission agentID entry).toList := by
  unfold submissions
  cases hentry : submission agentID entry <;> simp [filterMap_append, hentry]

/-- The assumption on the events of a scene held before its last entry. -/
theorem Telling.before {entry : Entry (service w)} (h : Telling subject (scene.after t entry))
    (hfollows : Outbox.Follows scene.state.outbox t.outbox) : Telling subject scene where
  queued := by
    intro id row hrow hqueued
    obtain ⟨row', hrow', hsame, _⟩ := hfollows.kept id row hrow
    rw [← hsame.event, ← hsame.agentID, ← hsame.eventType]
    exact h.queued id row' hrow' (hsame.isQueued.trans hqueued)
  submitted := by
    intro agentID x hx
    apply h.submitted agentID x
    simp only [Scene.after, submissions_append]
    exact mem_append_left _ hx
  distinct := by
    intro i j row₁ row₂ hrow₁ hrow₂ hqueued₁ hqueued₂ hagent hevent
    obtain ⟨row₁', hrow₁', hsame₁, _⟩ := hfollows.kept i row₁ hrow₁
    obtain ⟨row₂', hrow₂', hsame₂, _⟩ := hfollows.kept j row₂ hrow₂
    apply h.distinct i j row₁' row₂' hrow₁' hrow₂' (hsame₁.isQueued.trans hqueued₁) (hsame₂.isQueued.trans hqueued₂)
    · rw [hsame₁.agentID, hsame₂.agentID, hagent]
    · rw [hsame₁.event, hsame₂.event, hevent]

theorem FromOutbox.after {entry : Entry (service w)} (h : FromOutbox scene)
    (hfollows : Outbox.Follows scene.state.outbox t.outbox) (hentry : ∀ event, postedEvent entry = some event →
      (∃ id row, (id, row) ∈ scene.state.outbox.rows ∧ row.isQueued = true ∧ row.event = event ∧
        Outbox.Cleared scene.state.outbox id row.agentID) ∨
      ∃ agentID, ∃ x ∈ (submission agentID entry).toList, x.2.innerEventCanonical = event) :
    FromOutbox (scene.after t entry) := by
  intro event hposted
  have hrows (hbefore : ∃ id row, (id, row) ∈ scene.state.outbox.rows ∧ row.isQueued = true ∧ row.event = event ∧
      Outbox.Cleared scene.state.outbox id row.agentID) :
      ∃ id row, (id, row) ∈ t.outbox.rows ∧ row.isQueued = true ∧ row.event = event ∧
        Outbox.Cleared t.outbox id row.agentID := by
    obtain ⟨id, row, hrow, hqueued, hevent, hcleared⟩ := hbefore
    obtain ⟨row', hrow', hsame, _⟩ := hfollows.kept id row hrow
    refine ⟨id, row', hrow', hsame.isQueued.trans hqueued, hsame.event.trans hevent, ?_⟩
    rw [hsame.agentID]
    exact hcleared.follows hfollows (Nat.le_of_lt (scene.state.outbox.bounded _ hrow).2)
  simp only [Scene.after, submissions_append, mem_append]
  rcases hposted.cases with hold | hnew
  · rcases h event hold with hrow | ⟨agentID, x, hx, hevent⟩
    · exact .inl (hrows hrow)
    · exact .inr ⟨agentID, x, .inl hx, hevent⟩
  · rcases hentry event hnew with hrow | ⟨agentID, x, hx, hevent⟩
    · exact .inl (hrows hrow)
    · exact .inr ⟨agentID, x, .inr hx, hevent⟩

/-- A leaf that arrives, with its answer or late, keeps the order. -/
theorem LogsInOrder.landed (hfrom : FromOutbox scene) {log : List String}
    (h : Outbox.Tracked scene.state.outbox log ∧ (Telling subject scene → Outbox.InOrder scene.state.outbox log))
    (hposted : Posted scene.history event) : Outbox.Tracked scene.state.outbox (addLeaf log event) ∧
      (Telling subject scene → Outbox.InOrder scene.state.outbox (addLeaf log event)) := by
  refine ⟨h.1.post, ?_⟩
  intro htelling
  apply (h.2 htelling).post h.1
  intro id row hrow hqueued hevent
  exact htelling.cleared hfrom hposted hrow hqueued hevent

theorem OrderInv.called {i : Nat} {op : Op} {r : c.Reply}
    (h : OrderInv subject scene) (hinv : Inv scene.state) (hpre : Pre c scene.state)
    (hacks : c.Acknowledges (Acknowledged scene.history) scene.state)
    (hexec : c.exec ambient scene.state = .ok (r, t)) :
    OrderInv subject (scene.after t (.called i op c r)) ∧ Outbox.Follows scene.state.outbox t.outbox := by
  have heffect := effect_of_exec hinv hpre hexec
  have hrun (log : List String) (hlogs : Logs scene.history log) :
      Outbox.TrackedRun log scene.state.outbox t.outbox := by
    refine Call.trackedRun hinv h.revoked ?_ hexec
    unfold Call.Acknowledges at hacks ⊢
    split at hacks
    · obtain ⟨row, hrow, hack⟩ := hacks
      exact ⟨row, hrow, hlogs.acknowledged hack⟩
    · trivial
  have hfollows : Outbox.Follows scene.state.outbox t.outbox := by
    obtain ⟨log, hlogs⟩ := Logs.logged scene.history
    exact (hrun log hlogs).follows
  have hfrom : FromOutbox (scene.after t (.called i op c r)) := h.posts.after hfollows nofun
  refine ⟨⟨heffect.revokedRows hinv hpre h.revoked, heffect.registeredDelivered h.registered, hfrom, ?_⟩, hfollows⟩
  intro log hlogs
  refine hlogs.after_entry (P := fun log => Outbox.Tracked t.outbox log ∧
    (Telling subject (scene.after t (.called i op c r)) → Outbox.InOrder t.outbox log)) ?_ ?_
  · intro log hbefore
    obtain ⟨htracked, hordered⟩ := h.logs log hbefore
    refine ⟨(hrun log hbefore).tracked htracked, ?_⟩
    intro htelling
    apply (hrun log hbefore).inOrder (hordered (htelling.before hfollows))
    -- a new row does not carry an event of the log: that one has a row or an activation of its own
    intro id row hrow hnew hqueued hlogged
    rcases h.posts row.event (hbefore.posted hlogged) with ⟨j, old, hold, holdQueued, hevent, _⟩ | ⟨agentID, x, hx, hevent⟩
    · obtain ⟨later, hlater, hsame, _⟩ := hfollows.kept j old hold
      have heq : id = j := htelling.same_row hrow hlater hqueued (hsame.isQueued.trans holdQueued)
        (hsame.event.trans hevent).symm
      have hlt := (scene.state.outbox.bounded _ hold).2
      exact absurd (heq ▸ hlt) (Nat.not_lt.mpr hnew)
    · have hx' : x ∈ submissions agentID (scene.after t (.called i op c r)).history := by
        simp only [Scene.after, submissions_append]
        exact mem_append_left _ hx
      exact absurd hevent (htelling.not_submitted hrow hqueued hx')
  · intro log event hbefore hposted
    exact LogsInOrder.landed hfrom hbefore hposted

theorem OrderInv.asked {i : Nat} {op : Op} {q : Query} {a : q.Answer} (h : OrderInv subject scene)
    (hposts : PostsCleared op q scene.state) : OrderInv subject (scene.after scene.state (.asked i op q a)) := by
  have hfollows := Outbox.Follows.refl scene.state.outbox
  have hfrom : FromOutbox (scene.after scene.state (.asked i op q a)) := by
    apply h.posts.after hfollows
    intro event hevent
    unfold postedEvent at hevent
    split at hevent
    · rename_i lane payload _ hasked
      cases hasked
      obtain ⟨agentID, opLane, rfl⟩ := hposts
      exact .inr ⟨agentID, (lane, payload), by simp [submission], Option.some.inj hevent⟩
    · rename_i hasked
      cases hasked
      obtain ⟨id, row, hrow, hqueued, rfl, hcleared⟩ := hposts
      exact .inl ⟨id, row, hrow, hqueued, Option.some.inj hevent, hcleared⟩
    · cases hevent
  refine ⟨h.revoked, h.registered, hfrom, ?_⟩
  intro log hlogs
  refine hlogs.after_entry (P := fun log => Outbox.Tracked scene.state.outbox log ∧
    (Telling subject (scene.after scene.state (.asked i op q a)) → Outbox.InOrder scene.state.outbox log)) ?_ ?_
  · intro log hbefore
    obtain ⟨htracked, hordered⟩ := h.logs log hbefore
    have hold : Outbox.Tracked scene.state.outbox log ∧
        (Telling subject (scene.after scene.state (.asked i op q a)) → Outbox.InOrder scene.state.outbox log) :=
      ⟨htracked, fun htelling => hordered (htelling.before hfollows)⟩
    unfold logAfter
    split
    · rename_i event hack
      have hposted : Posted (scene.after scene.state (.asked i op q a)).history event :=
        ⟨_, mem_append_right _ (mem_singleton_self _), posted_of_acknowledged hack⟩
      exact LogsInOrder.landed hfrom hold hposted
    · exact hold
  · intro log event hbefore hposted
    exact LogsInOrder.landed hfrom hbefore hposted

/-- Only rows before which nothing is open are posted, and only rows with a leaf are acknowledged. -/
def orderWatch (w : Wiring) (subject : String → String × EventType) : Watch discipline (service w) where
  Inv := OrderInv subject
  Rely := fun s t => Outbox.Follows s.state.outbox t.state.outbox ∧
    ∀ event, Acknowledged s.history event → Acknowledged t.history event
  Calls := fun _ _ c s => c.Acknowledges (Acknowledged s.history) s.state
  Asks := fun _ op q s => PostsCleared op q s.state
  refl := fun s => ⟨.refl s.state.outbox, fun _ hack => hack⟩
  trans := fun _ _ _ h h' => ⟨h.1.trans h'.1, fun event hack => h'.2 event (h.2 event hack)⟩
  called := by
    intro i op c ambient s r t hinv hpre h hacks hexec
    obtain ⟨hinv', hfollows⟩ := h.called hinv hpre hacks hexec
    exact ⟨hinv', hfollows, fun _ hack => hack.append⟩
  asked := by
    intro i op q a s _ h hposts
    exact ⟨h.asked hposts, .refl s.state.outbox, fun _ hack => hack.append⟩

end

/-! ### Every operation heeds it -/

section

variable {w : Wiring} {subject : String → String × EventType} {scene : Scene (service w)} {i : Nat} {op : Op}
variable {ev : Nat × OutboxRow}

/-- Calls other than an acknowledgement need nothing. -/
theorem acknowledges_of_ne {leaf : String → Prop}
    (h : ∀ id token logID, c ≠ .delivery (.markSent id token logID)) : c.Acknowledges leaf s := by
  unfold Call.Acknowledges
  split
  · exact absurd rfl (h _ _ _)
  · trivial

/-- Questions to other ports than the sealer and the log need nothing. -/
theorem postsCleared_of_port {q : Query} (hsealer : q.port = .sealer → ∃ agentID lane, op = .verifyDNS agentID lane)
    (hlog : q.port ≠ .log) : PostsCleared op q s := by
  unfold PostsCleared
  split
  · exact absurd rfl hlog
  · exact hsealer rfl
  · trivial

/-- The row of an event that a worker has read is still there. -/
def StillStored (ev : Nat × OutboxRow) (s : Store) : Prop :=
  ∃ row, (ev.1, row) ∈ s.outbox.rows ∧ Outbox.SameEvent ev.2 row

theorem StillStored.follows (h : StillStored ev s) (hfollows : Outbox.Follows s.outbox t.outbox) :
    StillStored ev t := by
  obtain ⟨row, hrow, hsame⟩ := h
  obtain ⟨row', hrow', hsame', _⟩ := hfollows.kept ev.1 row hrow
  exact ⟨row', hrow', hsame.trans hsame'⟩

def AllStored (events : List (Nat × OutboxRow)) (s : Store) : Prop := ∀ ev ∈ events, StillStored ev s

/-- A row that a worker may post. -/
def Postable (ev : Nat × OutboxRow) (s : Store) : Prop :=
  StillStored ev s ∧ ev.2.isQueued = true ∧ Outbox.Cleared s.outbox ev.1 ev.2.agentID

theorem Postable.follows (h : Postable ev s) (hfollows : Outbox.Follows s.outbox t.outbox) : Postable ev t := by
  obtain ⟨hstored, hqueued, hcleared⟩ := h
  have hbound : ev.1 < s.outbox.next := by
    obtain ⟨row, hrow, _⟩ := hstored
    exact (s.outbox.bounded _ hrow).2
  exact ⟨hstored.follows hfollows, hqueued, hcleared.follows hfollows (Nat.le_of_lt hbound)⟩

/-- What a worker has reserved it may post. -/
theorem postable_of_acquire {now : Time} {attempts : Nat} {token : String} {lease : Time}
    (hinv : OrderInv subject scene) (hstored : StillStored ev scene.state)
    (h : Store.acquire now ev.1 attempts token lease scene.state = .ok (true, t)) : Postable ev scene.state := by
  obtain ⟨_, hreserved, _⟩ := acquire_stored h
  refine ⟨hstored, ?_⟩
  obtain ⟨row, hrow, hsame⟩ := hstored
  have hopen : row.isOpen = true := Outbox.open_of_acquire hreserved hrow
  constructor
  · rw [← hsame.isQueued]
    refine bne_iff_ne.mpr ?_
    intro htype
    -- activations are delivered when they are recorded, and nothing delivered is open
    have hsent := hinv.registered ev.1 row hrow htype
    rw [Outbox.sentAt_of_isOpen hopen] at hsent
    cases hsent
  · rw [← hsame.agentID]
    by_cases htype : row.eventType = .agentRevoked
    · obtain ⟨log, hlogs⟩ := Logs.logged scene.history
      exact (hinv.logs log hlogs).1.revocation ev.1 row hrow htype
    · exact Outbox.cleared_of_acquire hreserved hrow htype

/-- The outcome of an attempt that is not a delivery. -/
theorem attempt_heeds {d : Delivery} (hd : ∀ id token logID, d ≠ .markSent id token logID) :
    (Prog.attempt (M := RA) (.delivery d) >>= fun _ => pure ()).Heeds (orderWatch w subject) i op
      (fun _ _ => True) scene := by
  apply Heeds.attempt
  intro t _ _ _ _
  refine ⟨acknowledges_of_ne ?_, fun _ _ _ _ _ => trivial, fun _ => trivial⟩
  rintro id token logID ⟨⟩
  exact hd id token logID rfl

theorem reject_heeds (id : Nat) (row : OutboxRow) (token reason : String) (park : Bool) :
    (reject id row token reason park).Heeds (orderWatch w subject) i op (fun _ _ => True) scene := by
  apply heeds_ite
  · intro _
    exact attempt_heeds nofun
  · intro _
    exact attempt_heeds nofun

/-- A worker posts what it may post, and acknowledges what the log has acknowledged. -/
theorem process_heeds (token : String) (hpostable : Postable ev scene.state) :
    (process ev.1 ev.2 token).Heeds (orderWatch w subject) i op (fun _ _ => True) scene := by
  apply heeds_ite
  · intro _
    exact reject_heeds _ _ _ _ _
  intro _
  apply heeds_ask
  · intro t hst _ _
    obtain ⟨⟨row, hrow, hsame⟩, hqueued, hcleared⟩ := hpostable.follows hst.1
    exact ⟨ev.1, row, hrow, hsame.isQueued.trans hqueued, hsame.payload, hsame.agentID ▸ hcleared⟩
  intro t answer hst _ _
  cases answer with
  | permanent text => exact reject_heeds _ _ _ _ _
  | transient text => exact attempt_heeds nofun
  | accepted logID =>
    apply heeds_ite
    · intro _
      exact attempt_heeds nofun
    intro _
    apply Heeds.attempt
    intro u htu _ _ _
    refine ⟨?_, fun _ _ _ _ _ => trivial, fun _ => trivial⟩
    obtain ⟨row, hrow, hsame⟩ := (hpostable.follows (hst.1.trans htu.1)).1
    refine ⟨row, hrow, ?_⟩
    rw [hsame.event]
    apply htu.2
    exact ⟨_, mem_append_right _ (mem_singleton_self _), rfl⟩

theorem deliver_heeds (batchSize : Nat) :
    (deliver batchSize).Heeds (orderWatch w subject) i op (fun _ _ => True) scene := by
  apply heeds_tryFind (fun _ => trivial)
  intro t outcome _ _ hread
  cases outcome with
  | error e => trivial
  | ok events =>
    obtain ⟨now, hready⟩ := hread events rfl
    have hevents : (events : List (Nat × OutboxRow)) = Outbox.ready t.state.outbox now batchSize :=
      (Prod.mk.inj (Except.ok.inj hready)).1.symm
    apply Heeds.forEach
      (G := fun s => AllStored events s.state)
    · intro u v huv hstored ev hev
      exact (hstored ev hev).follows huv.1
    · intro ev hev
      rw [hevents] at hev
      exact ⟨ev.2, Outbox.mem_of_ready hev, .refl ev.2⟩
    · intro ev hev u _ hstored
      apply heeds_ask (fun _ _ _ _ => trivial)
      intro v token huv _ _
      apply Heeds.attempt
      intro x hvx _ hinv _
      refine ⟨trivial, ?_, fun _ => trivial⟩
      intro ambient reserved y hxy hexec
      cases reserved with
      | false => trivial
      | true =>
        have hstill := (hstored ev hev).follows (huv.1.trans hvx.1)
        have hpostable := postable_of_acquire hinv hstill hexec
        exact process_heeds token (hpostable.follows hxy.1)

theorem program_heeds_order (op : Op) : (op.program w).Heeds (orderWatch w subject) i op (fun _ _ => True) scene := by
  have hother (hports : op.ports.contains .log = false)
      (hsealer : op.ports.contains .sealer = true → ∃ agentID lane, op = .verifyDNS agentID lane)
      (hwrites : ∀ id token logID, op.writes (.delivery (.markSent id token logID)) = false) :
      (op.program w).Heeds (orderWatch w subject) i op (fun _ _ => True) scene := by
    apply heeds_yields (program_reaches w op)
    · intro c hc t _ _
      apply acknowledges_of_ne
      rintro id token logID rfl
      have hwrite : op.writes (.delivery (.markSent id token logID)) = true := hc
      rw [hwrites] at hwrite
      cases hwrite
    · intro q hq t _
      refine postsCleared_of_port (fun hport => hsealer (hport ▸ hq)) ?_
      intro hport
      rw [Within, hport, hports] at hq
      cases hq
  cases op with
  | deliver batchSize =>
    apply Heeds.bind (deliver_heeds batchSize)
    intro _ _ _ _
    trivial
  | verifyDNS agentID lane => exact hother rfl (fun _ => ⟨agentID, lane, rfl⟩) fun _ _ _ => rfl
  | _ => exact hother rfl (fun h => by cases h) fun _ _ _ => rfl

end

/-! ### The order of the log -/

/-- In every run of any number of workers and requests, with any interleaving, any answers of the log, posts that
arrive late and acknowledgements that are lost: of two rows of one agent that were enqueued and are delivered, the
earlier one has the earlier leaf. -/
theorem log_order_follows_outbox_order (w : Wiring) {p : Recorded (service w)} (h : Recording (service w) p)
    {subject : String → String × EventType} (htelling : Telling subject p.scene) {log : List String}
    (hlogs : Logs p.history log) {i j : Nat} {row row' : OutboxRow} (hrow : (i, row) ∈ p.pool.state.outbox.rows)
    (hrow' : (j, row') ∈ p.pool.state.outbox.rows) (hlt : i < j) (hagent : row.agentID = row'.agentID)
    (hqueued : row.isQueued = true) (hqueued' : row'.isQueued = true) (hsent : row.sentAt.isSome = true)
    (hsent' : row'.sentAt.isSome = true) :
    log.idxOf row.event < log.idxOf row'.event ∧ log.idxOf row'.event < log.length := by
  have hinit : OrderInv subject (⟨Store.empty, []⟩ : Scene (service w)) := by
    refine ⟨by simp [RevokedRows, Store.empty], by simp [RegisteredDelivered, Store.empty], ?_, ?_⟩
    · rintro event ⟨entry, hentry, _⟩
      cases hentry
    · intro log _
      exact ⟨⟨by simp [Store.empty], by simp [Store.empty]⟩, fun _ => ⟨by simp [Store.empty], by simp [Store.empty]⟩⟩
  have hinv := (orderWatch w subject).inv (governs w) hinit (fun _ op _ _ _ => program_heeds_order op) h
  obtain ⟨htracked, hordered⟩ := hinv.logs log hlogs
  have hleaf' := htracked.delivered j row' hrow' hqueued' hsent'
  exact ⟨(hordered htelling).ordered i j row row' hrow hrow' hlt hagent hqueued hqueued' hsent hleaf',
    idxOf_lt_length_of_mem hleaf'⟩

/-! ### A rotation and a revocation -/

/-- What the signer of the example writes for an event. -/
def eventText : EventType → String
  | .agentRegistered => "registered"
  | .agentRenewed => "renewed"
  | .agentRevoked => "revoked"

/-- What the texts of the example are about. -/
def eventSubject : String → String × EventType
  | "registered" => ("agent-1", .agentRegistered)
  | "renewed" => ("agent-1", .agentRenewed)
  | _ => ("agent-1", .agentRevoked)

def namingAmbient : Ambient :=
  { grantingAmbient with sign := fun draft => .ok ⟨eventText draft.eventType, "signature"⟩ }

def namingWorld : (q : Query) → q.Answer
  | .sign draft => .ok ⟨eventText draft.eventType, "signature"⟩
  | q => grantingWorld "agent-1" "log-1" q

/-- An agent is activated, gets a new certificate and is revoked; a worker delivers both events. -/
def rotatedAndRevoked : Recorded (service {}) :=
  let ops : List Op := [.registerAgent sampleRequest, .verifyACME "agent-1", .verifyDNS "agent-1" .v2,
    .submitIdentityCSR "agent-1" "csr-2" .v2, .deliver 10, .revoke "agent-1" .keyCompromise .v2, .deliver 10]
  ops.zipIdx.foldl (fun p x => (p.spawn x.1).drive x.2 namingAmbient namingWorld 30) (Recorded.start _)

theorem rotatedAndRevoked_recording : Recording (service {}) rotatedAndRevoked := by
  have hrun (ops : List (Op × Nat)) {p : Recorded (service {})} (hp : Recording (service {}) p) :
      Recording (service {}) (ops.foldl (fun p x => (p.spawn x.1).drive x.2 namingAmbient namingWorld 30) p) := by
    induction ops generalizing p with
    | nil => exact hp
    | cons x rest ih => exact ih ((hp.spawn x.1).drive x.2 namingAmbient namingWorld 30)
  exact hrun _ .start

/-- The rows of an outbox, as far as the order is about them. -/
def outboxSummary (s : Store) : List (Nat × String × EventType × String × Bool) :=
  s.outbox.rows.map fun ev => (ev.1, ev.2.agentID, ev.2.eventType, ev.2.event, ev.2.sentAt.isSome)

/-- All activations submitted, with their agents. -/
def submitted {w : Wiring} : Entry (service w) → Option (String × String)
  | .asked _ (.verifyDNS agentID _) (.sealAgentEvent _ payload) _ => some (agentID, payload.innerEventCanonical)
  | _ => none

theorem mem_submitted {w : Wiring} {h : History w} {x : Lane × OutboxPayload}
    (hx : x ∈ submissions agentID h) : (agentID, x.2.innerEventCanonical) ∈ h.filterMap submitted := by
  obtain ⟨entry, hentry, hsubmission⟩ := mem_filterMap.mp hx
  refine mem_filterMap.mpr ⟨entry, hentry, ?_⟩
  unfold submission at hsubmission
  split at hsubmission
  · split at hsubmission
    · rename_i hagent
      cases hsubmission
      rw [← hagent]
      rfl
    · cases hsubmission
  · cases hsubmission

set_option maxRecDepth 20000 in
theorem rotatedAndRevoked_summary : outboxSummary rotatedAndRevoked.pool.state =
      [(1, "agent-1", .agentRegistered, "registered", true), (2, "agent-1", .agentRenewed, "renewed", true),
        (3, "agent-1", .agentRevoked, "revoked", true)] ∧
    rotatedAndRevoked.history.filterMap submitted = [("agent-1", "registered")] := by decide +kernel

/-- What the summary says of the rows that are left to the workers. -/
theorem row_of_summary {s : Store} (hsummary : outboxSummary s =
      [(1, "agent-1", .agentRegistered, "registered", true), (2, "agent-1", .agentRenewed, "renewed", true),
        (3, "agent-1", .agentRevoked, "revoked", true)])
    (hrow : (id, row) ∈ s.outbox.rows) (hqueued : row.isQueued = true) : row.agentID = "agent-1" ∧
      (id = 2 ∧ row.eventType = .agentRenewed ∧ row.event = "renewed" ∨
        id = 3 ∧ row.eventType = .agentRevoked ∧ row.event = "revoked") := by
  have hmem : (id, row.agentID, row.eventType, row.event, row.sentAt.isSome) ∈ outboxSummary s :=
    mem_map_of_mem hrow
  rw [hsummary] at hmem
  simp only [mem_cons, Prod.mk.injEq, not_mem_nil, or_false] at hmem
  rcases hmem with ⟨_, _, htype, _⟩ | ⟨hid, hagent, htype, hevent, _⟩ | ⟨hid, hagent, htype, hevent, _⟩
  · simp [OutboxRow.isQueued, htype] at hqueued
  · exact ⟨hagent, .inl ⟨hid, htype, hevent⟩⟩
  · exact ⟨hagent, .inr ⟨hid, htype, hevent⟩⟩

theorem telling_of_summary {w : Wiring} {s : Scene (service w)} (hsummary : outboxSummary s.state =
      [(1, "agent-1", .agentRegistered, "registered", true), (2, "agent-1", .agentRenewed, "renewed", true),
        (3, "agent-1", .agentRevoked, "revoked", true)])
    (hsubmitted : s.history.filterMap submitted = [("agent-1", "registered")]) : Telling eventSubject s where
  queued := by
    intro id row hrow hqueued
    obtain ⟨hagent, ⟨_, htype, hevent⟩ | ⟨_, htype, hevent⟩⟩ := row_of_summary hsummary hrow hqueued
    · rw [hagent, htype, hevent]
      rfl
    · rw [hagent, htype, hevent]
      rfl
  submitted := by
    intro agentID x hx
    have hmem := mem_submitted hx
    rw [hsubmitted, mem_singleton] at hmem
    obtain ⟨rfl, hevent⟩ := Prod.mk.inj hmem
    rw [hevent]
    rfl
  distinct := by
    intro i j row row' hrow hrow' hqueued hqueued' _ hevent
    obtain ⟨_, ⟨hi, _, hrowEvent⟩ | ⟨hi, _, hrowEvent⟩⟩ := row_of_summary hsummary hrow hqueued <;>
      obtain ⟨_, ⟨hj, _, hrowEvent'⟩ | ⟨hj, _, hrowEvent'⟩⟩ := row_of_summary hsummary hrow' hqueued'
    · exact hi.trans hj.symm
    · simp [hrowEvent, hrowEvent'] at hevent
    · simp [hrowEvent, hrowEvent'] at hevent
    · exact hi.trans hj.symm

/-- The stored row behind a line of the summary. -/
theorem mem_of_outboxSummary {s : Store} {eventType : EventType} {sent : Bool}
    (h : (id, agentID, eventType, event, sent) ∈ outboxSummary s) : ∃ row, (id, row) ∈ s.outbox.rows ∧
      row.agentID = agentID ∧ row.eventType = eventType ∧ row.event = event ∧ row.sentAt.isSome = sent := by
  obtain ⟨⟨key, row⟩, hrow, heq⟩ := mem_map.mp h
  simp only [Prod.mk.injEq] at heq
  obtain ⟨rfl, hagent, htype, hevent, hsent⟩ := heq
  exact ⟨row, hrow, hagent, htype, hevent, hsent⟩

/-- Both events are delivered, and in every log the run may have left the rotation comes before the revocation. -/
theorem log_order_follows_outbox_order_rotated :
    (∃ log, Logs rotatedAndRevoked.history log) ∧ ∀ log, Logs rotatedAndRevoked.history log →
      log.idxOf "renewed" < log.idxOf "revoked" ∧ log.idxOf "revoked" < log.length := by
  refine ⟨Logs.logged _, ?_⟩
  intro log hlogs
  obtain ⟨hsummary, hsubmitted⟩ := rotatedAndRevoked_summary
  have hrecording := rotatedAndRevoked_recording
  generalize rotatedAndRevoked = p at hlogs hsummary hsubmitted hrecording
  obtain ⟨row, hrow, hagent, htype, hevent, hsent⟩ :=
    mem_of_outboxSummary (hsummary ▸ mem_cons_of_mem _ mem_cons_self)
  obtain ⟨row', hrow', hagent', htype', hevent', hsent'⟩ := mem_of_outboxSummary
    (hsummary ▸ mem_cons_of_mem _ (mem_cons_of_mem _ mem_cons_self))
  rw [← hevent, ← hevent']
  apply log_order_follows_outbox_order {} hrecording (telling_of_summary hsummary hsubmitted) hlogs hrow hrow'
    (by decide) (hagent.trans hagent'.symm) _ _ hsent hsent'
  · simp [OutboxRow.isQueued, htype]
  · simp [OutboxRow.isQueued, htype']

end AgentNameService.Registration
