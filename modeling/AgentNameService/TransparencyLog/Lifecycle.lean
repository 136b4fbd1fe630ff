/-
Purpose: The lifecycle of the agents in the log.  An append is judged by one row; that row is the last one of the agent,
  so what it is checked for holds against the whole history.
Source: internal/tl/service/{ingest,agent_policy}.go, internal/adapter/store/sqlitetl/events.go
Trusted boundary: none
-/
import AgentNameService.TransparencyLog.Ingest

namespace AgentNameService.TransparencyLog

open Interleaving List Except OrderDual Json Registration

variable {P : Primitives}

/-! ### Transitions -/

/-- Registered or renewed, then renewed, deprecated or revoked; deprecated, then revoked. -/
theorem agentEventTransitionAllowed_iff {previous incoming : EventType} :
    agentEventTransitionAllowed previous incoming = true ↔ ((previous = .agentRegistered ∨ previous = .agentRenewed) ∧
        (incoming = .agentRenewed ∨ incoming = .agentDeprecated ∨ incoming = .agentRevoked)) ∨
      (previous = .agentDeprecated ∧ incoming = .agentRevoked) := by
  cases previous <;> cases incoming <;>
    simp [agentEventTransitionAllowed, RegistrationStatus.canTransitionTo,
      RegistrationStatus.validTransitions]

theorem agentEventTransitionAllowed_trans {a b c : EventType} (hab : agentEventTransitionAllowed a b = true)
    (hbc : agentEventTransitionAllowed b c = true) : agentEventTransitionAllowed a c = true := by
  rw [agentEventTransitionAllowed_iff] at hab hbc ⊢
  rcases hab with ⟨ha, rfl | rfl | rfl⟩ | ⟨_, rfl⟩ <;> simp_all

/-- The rank of a type never rises, so the last event of an agent dominates. -/
theorem eventRank_le_of_allowed {a b : EventType} (h : agentEventTransitionAllowed a b = true) :
    EventStore.eventRank b ≤ EventStore.eventRank a := by
  rw [agentEventTransitionAllowed_iff] at h
  rcases h with ⟨rfl | rfl, rfl | rfl | rfl⟩ | ⟨rfl, rfl⟩ <;> decide

/-! ### Leaves of agents -/

namespace Leaf

variable (l : Leaf P)

def ansName : String := l.schema.ansName l.event

def agentID : String := l.schema.agentID l.event

def raID : String := l.schema.raID l.event

def timestamp : String := l.schema.timestamp l.event

/-- The two lanes of agent events. -/
def IsAgent : Prop := l.schema ≠ .identity

/-- Rows of the agent lanes are those without an identity. -/
theorem identityID_row_eq_none {index : Nat} : (l.row index).identityID = none ↔ l.IsAgent := by
  obtain ⟨s, e, _, _, _, _, hvalid, _⟩ := l
  unfold IsAgent
  cases s with
  | v1 | v2 => exact ⟨fun _ => Schema.noConfusion, fun _ => rfl⟩
  | identity =>
    have hid : e.identityID ≠ "" := by
      simp only [Schema.validate, Identity.Event.validate, bind_eq_ok_iff, require_eq_ok_iff] at hvalid
      obtain ⟨_, _, _, hid, _⟩ := hvalid
      exact hid
    have hsome : ((some (e.identityID, e.ansIDs)).map Prod.fst).filter (· ≠ "") = some e.identityID := by
      simp [hid]
    constructor
    · intro hnone
      exact absurd (hsome.symm.trans hnone) (Option.some_ne_none _)
    · intro h
      exact absurd rfl h

/-- Two events of the agent lanes that share the name or the agent. -/
structure Competes (l m : Leaf P) : Prop where
  left : l.IsAgent
  right : m.IsAgent
  shares : l.ansName = m.ansName ∨ l.agentID = m.agentID

/-- The second event goes on with the lifecycle of the first. -/
structure Precedes (l m : Leaf P) : Prop where
  ansName : l.ansName = m.ansName
  agentID : l.agentID = m.agentID
  raID : l.raID = m.raID
  transition : agentEventTransitionAllowed l.eventType m.eventType = true
  time : m.eventType = .agentRevoked ∨
    ∃ s t, P.parseTime l.timestamp = .ok s ∧ P.parseTime m.timestamp = .ok t ∧ s ≤ t

theorem Precedes.trans {l m n : Leaf P} (h : l.Precedes m) (h' : m.Precedes n) : l.Precedes n where
  ansName := h.ansName.trans h'.ansName
  agentID := h.agentID.trans h'.agentID
  raID := h.raID.trans h'.raID
  transition := agentEventTransitionAllowed_trans h.transition h'.transition
  time := by
    rcases h'.time with hrevoked | ⟨s, t, hs, ht, hle⟩
    · exact .inl hrevoked
    · rcases h.time with hrevoked | ⟨r, s', hr, hs', hle'⟩
      · -- nothing follows a revocation
        have htransition := agentEventTransitionAllowed_iff.mp h'.transition
        rw [hrevoked] at htransition
        simp at htransition
      · obtain rfl := ok.inj (hs.symm.trans hs')
        exact .inr ⟨r, t, hr, ht, hle'.trans hle⟩

end Leaf

/-! ### The checks of an append -/

/-- An event that is judged by the row of a leaf goes on with the lifecycle of that leaf. -/
theorem checkIncoming_raID {l : Leaf P} (hagent : l.IsAgent) {raID : String}
    (h : checkIncoming P l.signable l.inner = .ok raID) : raID = l.raID := by
  simp only [checkIncoming, bind_eq_ok_iff, pure_eq_ok_iff, mapError_eq_ok_iff,
    unmarshal_eq_ok_iff] at h
  obtain ⟨_, _, _, _, incoming, ⟨_, hdecode⟩, _, _, rfl⟩ := h
  obtain ⟨s, e, _⟩ := l
  cases s with
  | identity => exact absurd rfl hagent
  | v1 | v2 =>
    rw [ok.inj (hdecode.symm.trans (decode_incomingFields e))]
    rfl

theorem decode_priorFields_inner {l : Leaf P} (hagent : l.IsAgent) {prior : String × String × Unit}
    (h : (priorFields P).decode l.inner (priorFields P).zero = .ok prior) : prior = (l.raID, l.timestamp, ()) := by
  obtain ⟨s, e, _⟩ := l
  cases s with
  | identity => exact absurd rfl hagent
  | v1 | v2 => exact ok.inj (h.symm.trans (decode_priorFields e))

theorem precedes_of_checkPrior {l m : Leaf P} (hm : m.IsAgent) {index : Nat}
    (h : checkPrior P l.signable l.raID (m.row index) = .ok ()) : m.Precedes l := by
  simp only [checkPrior, bind_eq_ok_iff, mapError_eq_ok_iff, require_eq_ok_iff,
    unmarshal_eq_ok_iff] at h
  obtain ⟨_, ⟨hname, hid, _⟩, previous, hprevious, prior, ⟨_, hdecode⟩, _, hraID, _, htransition, old, hold, new, hnew,
    hstale⟩ := h
  obtain ⟨_, rfl⟩ := m.innerEventBytes_raw.mp hprevious
  obtain rfl := decode_priorFields_inner hm hdecode
  refine ⟨hname, hid, hraID.symm, htransition, ?_⟩
  rcases hstale with hrevoked | hle
  · exact .inl hrevoked
  · exact .inr ⟨old, new, hold, hnew, hle⟩

/-! ### The row that an append is judged by -/

theorem getElem?_of_pairwise {α : Type} {R : α → α → Prop} {xs : List α} (h : xs.Pairwise R) {i j : Nat} (hij : i < j)
    {a b : α} (ha : xs[i]? = some a) (hb : xs[j]? = some b) : R a b := by
  obtain ⟨hi, rfl⟩ := List.getElem?_eq_some_iff.mp ha
  obtain ⟨hj, rfl⟩ := List.getElem?_eq_some_iff.mp hb
  exact pairwise_iff_getElem.mp h i j hi hj hij

section Judge

variable {store : EventStore P} {log : List (Leaf P)}

/-- In a log of accepted leaves no row repeats the content of an earlier one. -/
theorem Mirrors.isLaterDuplicate_eq_false (h : Mirrors store log) (hadmitted : Admitted log) {r : EventRecord P}
    (hr : r ∈ store.events) : store.isLaterDuplicate r = false := by
  rw [Bool.eq_false_iff]
  intro hlater
  obtain ⟨first, hfirst, hsame⟩ := any_eq_true.mp hlater
  obtain ⟨i, l, hl, rfl⟩ := h.mem_events.mp hr
  obtain ⟨j, m, hm, rfl⟩ := h.mem_events.mp hfirst
  obtain ⟨hhash, _, hlt⟩ := of_decide_eq_true hsame
  have hij : j = i := hadmitted.sha256_injective hm hl hhash
  exact absurd hij (Nat.ne_of_lt hlt)

/-- An event that is accepted goes on with the lifecycle of every earlier event it shares the name or the agent with. -/
theorem Accepts.precedes (hadmitted : Admitted log) (hpairwise : log.Pairwise fun l m => l.Competes m → l.Precedes m)
    {l e : Leaf P} (hl : Accepts log l) (he : e ∈ log) (hcompetes : e.Competes l) : e.Precedes l := by
  obtain ⟨raID, hincoming, store, hmirrors, hprior⟩ := hl.checked hcompetes.right
  obtain rfl := checkIncoming_raID hcompetes.right hincoming
  obtain ⟨i, hi⟩ := mem_iff_getElem?.mp he
  have hrow : e.row i ∈ store.events := hmirrors.mem_events.mpr ⟨i, e, hi, rfl⟩
  unfold EventStore.latestAgentState at hprior
  generalize hcandidates : store.events.filter _ = candidates at hprior
  have hcandidate : e.row i ∈ candidates := by
    rw [← hcandidates, mem_filter]
    refine ⟨hrow, decide_eq_true ⟨e.identityID_row_eq_none.mpr hcompetes.left, hcompetes.shares, ?_⟩⟩
    exact hmirrors.isLaterDuplicate_eq_false hadmitted hrow
  generalize hkey : (fun r : EventRecord P => toLex (if r.ansName ≠ l.signable.ansName ∨ r.agentID ≠ l.signable.agentID
    then 0 else 1, toLex (EventStore.eventRank r.eventType, toDual r.leafIndex))) = key at hprior
  obtain ⟨rec, hrec⟩ : ∃ rec, candidates.argmin key = some rec := by
    rw [← Option.ne_none_iff_exists', Ne, argmin_eq_none]
    exact ne_nil_of_mem hcandidate
  have hmem := argmin_mem hrec
  have hmin : key rec ≤ key (e.row i) := le_of_mem_argmin hcandidate hrec
  rw [← hcandidates, mem_filter] at hmem
  obtain ⟨j, m, hm, rfl⟩ := hmirrors.mem_events.mp hmem.1
  have hagent : m.IsAgent := m.identityID_row_eq_none.mp (of_decide_eq_true hmem.2).1
  have hprecedes := precedes_of_checkPrior hagent (hprior _ hrec)
  -- the judge shares both the name and the agent, so every other candidate does
  have hjudge : key (m.row j) = toLex (1, toLex (EventStore.eventRank m.eventType, toDual j)) := by
    rw [← hkey]
    refine congrArg (fun n => toLex (n, _)) (if_neg ?_)
    exact not_or.mpr ⟨not_not.mpr hprecedes.ansName, not_not.mpr hprecedes.agentID⟩
  by_cases hboth : e.ansName = l.ansName ∧ e.agentID = l.agentID
  · have hkeyE : key (e.row i) = toLex (1, toLex (EventStore.eventRank e.eventType, toDual i)) := by
      rw [← hkey]
      refine congrArg (fun n => toLex (n, _)) (if_neg ?_)
      exact not_or.mpr ⟨not_not.mpr hboth.1, not_not.mpr hboth.2⟩
    rw [hjudge, hkeyE, Prod.Lex.toLex_le_toLex, Prod.Lex.toLex_le_toLex] at hmin
    have hsame : e.ansName = m.ansName := hboth.1.trans hprecedes.ansName.symm
    rcases Nat.lt_trichotomy i j with hij | rfl | hji
    · have hem := getElem?_of_pairwise hpairwise hij hi hm
      exact (hem ⟨hcompetes.left, hagent, .inl hsame⟩).trans hprecedes
    · obtain rfl := Option.some.inj (hi.symm.trans hm)
      exact hprecedes
    · -- a later event would have ranked before the judge
      have hme := getElem?_of_pairwise hpairwise hji hm hi ⟨hagent, hcompetes.left, .inl hsame.symm⟩
      have hrank := eventRank_le_of_allowed hme.transition
      have hdual : ¬toDual j ≤ toDual i := by
        rw [toDual_le_toDual]
        omega
      rcases hmin with hlt | ⟨_, hlt | ⟨_, hle⟩⟩
      · exact absurd hlt (Nat.lt_irrefl 1)
      · exact absurd hrank (Nat.not_le.mpr hlt)
      · exact absurd hle hdual
  · have hkeyE : key (e.row i) = toLex (0, toLex (EventStore.eventRank e.eventType, toDual i)) := by
      rw [← hkey]
      refine congrArg (fun n => toLex (n, _)) (if_pos ?_)
      exact Decidable.not_and_iff_or_not.mp hboth
    rw [hjudge, hkeyE, Prod.Lex.toLex_le_toLex] at hmin
    rcases hmin with hlt | ⟨heq, _⟩
    · exact absurd hlt (Nat.not_lt_zero 1)
    · exact absurd heq Nat.one_ne_zero

/-- In a log of accepted leaves every event goes on with the lifecycle of all events before it that share its name or
its agent. -/
theorem Admitted.pairwise_precedes (h : Admitted log) : log.Pairwise fun l m => l.Competes m → l.Precedes m := by
  induction h with
  | nil => exact List.Pairwise.nil
  | snoc hlog hl ih =>
    rw [pairwise_append]
    refine ⟨ih, pairwise_singleton _ _, ?_⟩
    intro e he m hm hcompetes
    obtain rfl := mem_singleton.mp hm
    exact hl.precedes hlog ih he hcompetes

/-- `GetLatestByAgentID` gives the last event of the agent below the bound. -/
theorem Mirrors.getLatestByAgentID_eq (hmirrors : Mirrors store log) (hadmitted : Admitted log) {i : Nat} {l : Leaf P}
    (hl : log[i]? = some l) (hagent : l.IsAgent) {bound : Nat} (hbound : 0 < bound → i < bound)
    (hlast : ∀ (j : Nat) m, log[j]? = some m → m.IsAgent → m.agentID = l.agentID → (0 < bound → j < bound) → j ≤ i) :
    store.getLatestByAgentID l.agentID bound = some (l.row i) := by
  have hrow : l.row i ∈ store.events := hmirrors.mem_events.mpr ⟨i, l, hl, rfl⟩
  unfold EventStore.getLatestByAgentID
  generalize hcandidates : store.events.filter _ = candidates
  have hcandidate : l.row i ∈ candidates := by
    rw [← hcandidates, mem_filter]
    refine ⟨hrow, decide_eq_true ⟨l.identityID_row_eq_none.mpr hagent, rfl, hbound, ?_⟩⟩
    exact hmirrors.isLaterDuplicate_eq_false hadmitted hrow
  cases hrec : candidates.argmin fun r => toLex (EventStore.eventRank r.eventType, toDual r.leafIndex) with
  | none =>
    rw [argmin_eq_none] at hrec
    exact absurd hrec (ne_nil_of_mem hcandidate)
  | some rec =>
    have hmem := argmin_mem hrec
    have hmin := le_of_mem_argmin hcandidate hrec
    rw [← hcandidates, mem_filter] at hmem
    obtain ⟨j, m, hm, rfl⟩ := hmirrors.mem_events.mp hmem.1
    obtain ⟨hidentity, hid, hbelow, _⟩ := of_decide_eq_true hmem.2
    have hmagent : m.IsAgent := m.identityID_row_eq_none.mp hidentity
    rcases Nat.lt_or_eq_of_le (hlast j m hm hmagent hid hbelow) with hji | rfl
    · -- the later of the two events ranks before the earlier one
      have hprecedes := getElem?_of_pairwise hadmitted.pairwise_precedes hji hm hl ⟨hmagent, hagent, .inr hid⟩
      have hrank := eventRank_le_of_allowed hprecedes.transition
      rw [Prod.Lex.toLex_le_toLex] at hmin
      rcases hmin with hlt | ⟨_, hle⟩
      · exact absurd hrank (Nat.not_le.mpr hlt)
      · exact absurd hji (Nat.not_lt.mpr (toDual_le_toDual.mp hle))
    · obtain rfl := Option.some.inj (hm.symm.trans hl)
      rfl

end Judge

/-! ### The lifecycle of every agent -/

/-- What holds of the events of the agents, whatever the producers sent. -/
structure AgentLifecycle (log : List (Leaf P)) : Prop where
  /-- One agent for a name, one name for an agent. -/
  named : ∀ l ∈ log, ∀ m ∈ log, l.IsAgent → m.IsAgent → (l.ansName = m.ansName ↔ l.agentID = m.agentID)
  /-- One producer for an agent. -/
  produced : ∀ l ∈ log, ∀ m ∈ log, l.IsAgent → m.IsAgent → l.agentID = m.agentID → l.raID = m.raID
  /-- A registration is the first event of its agent. -/
  registered : ∀ (i j : Nat) l m, log[i]? = some l → log[j]? = some m → l.IsAgent → m.IsAgent →
    l.agentID = m.agentID → m.eventType = .agentRegistered → j ≤ i
  /-- A revocation is the last event of its agent. -/
  revoked : ∀ (i j : Nat) l m, log[i]? = some l → log[j]? = some m → l.IsAgent → m.IsAgent →
    l.agentID = m.agentID → l.eventType = .agentRevoked → j ≤ i
  /-- Time does not run backwards, except to a revocation. -/
  timed : ∀ (i j : Nat) l m, i < j → log[i]? = some l → log[j]? = some m → l.IsAgent → m.IsAgent →
    l.agentID = m.agentID → m.eventType ≠ .agentRevoked →
      ∃ s t, P.parseTime l.timestamp = .ok s ∧ P.parseTime m.timestamp = .ok t ∧ s ≤ t

theorem Admitted.agentLifecycle {log : List (Leaf P)} (h : Admitted log) : AgentLifecycle log := by
  have hprecedes {i j : Nat} {l m : Leaf P} (hij : i < j) (hl : log[i]? = some l) (hm : log[j]? = some m)
      (hcompetes : l.Competes m) : l.Precedes m := getElem?_of_pairwise h.pairwise_precedes hij hl hm hcompetes
  -- of two events that share the name or the agent, one precedes the other
  have hsame {l m : Leaf P} (hl : l ∈ log) (hm : m ∈ log) (hcompetes : l.Competes m) :
      l.ansName = m.ansName ∧ l.agentID = m.agentID ∧ l.raID = m.raID := by
    obtain ⟨i, hi⟩ := mem_iff_getElem?.mp hl
    obtain ⟨j, hj⟩ := mem_iff_getElem?.mp hm
    rcases Nat.lt_trichotomy i j with hij | rfl | hji
    · have := hprecedes hij hi hj hcompetes
      exact ⟨this.ansName, this.agentID, this.raID⟩
    · obtain rfl := Option.some.inj (hi.symm.trans hj)
      exact ⟨rfl, rfl, rfl⟩
    · have := hprecedes hji hj hi ⟨hcompetes.right, hcompetes.left, hcompetes.shares.imp Eq.symm Eq.symm⟩
      exact ⟨this.ansName.symm, this.agentID.symm, this.raID.symm⟩
  constructor
  · intro l hl m hm hlagent hmagent
    constructor
    · intro hname
      exact (hsame hl hm ⟨hlagent, hmagent, .inl hname⟩).2.1
    · intro hid
      exact (hsame hl hm ⟨hlagent, hmagent, .inr hid⟩).1
  · intro l hl m hm hlagent hmagent hid
    exact (hsame hl hm ⟨hlagent, hmagent, .inr hid⟩).2.2
  · intro i j l m hl hm hlagent hmagent hid hregistered
    by_contra hij
    have htransition := (hprecedes (Nat.not_le.mp hij) hl hm ⟨hlagent, hmagent, .inr hid⟩).transition
    rw [agentEventTransitionAllowed_iff, hregistered] at htransition
    simp at htransition
  · intro i j l m hl hm hlagent hmagent hid hrevoked
    by_contra hij
    have htransition := (hprecedes (Nat.not_le.mp hij) hl hm ⟨hlagent, hmagent, .inr hid⟩).transition
    rw [agentEventTransitionAllowed_iff, hrevoked] at htransition
    simp at htransition
  · intro i j l m hij hl hm hlagent hmagent hid hrevoked
    exact (hprecedes hij hl hm ⟨hlagent, hmagent, .inr hid⟩).time.resolve_left hrevoked

/-- In every run the log is that of agents that live as they should, and where the index is ready the current event of an
agent is its last one below the bound (or its last one, without a bound). -/
theorem agent_lifecycle {g : Gate (service P)} (hrun : Run P g) :
    ∃ log : List (Leaf P), g.state.entries = log.map Leaf.raw ∧ AgentLifecycle log ∧
      (g.state.indexReady = true → ∀ (bound i : Nat) l, log[i]? = some l → l.IsAgent → (0 < bound → i < bound) →
        (∀ (j : Nat) m, log[j]? = some m → m.IsAgent → m.agentID = l.agentID → (0 < bound → j < bound) → j ≤ i) →
        ∃ row, g.state.store.getLatestByAgentID l.agentID bound = some row ∧ row.leafIndex = i ∧ row.rawEvent = l.raw) := by
  have hsound := (guards P).sound hrun
  obtain ⟨log, pending, hrep⟩ := hsound.inv.represents
  have hadmitted := hrep.admitted.of_append
  refine ⟨log, hrep.entries, hadmitted.agentLifecycle, ?_⟩
  intro hready bound i l hl hagent hbound hlast
  have hmirrors := (hrep.of_complete (hsound.inv.ready hready)).2
  exact ⟨l.row i, hmirrors.getLatestByAgentID_eq hadmitted hl hagent hbound hlast, rfl, rfl⟩

set_option maxRecDepth 20000 in
/-- Registered, renewed and revoked: three leaves of one agent. -/
theorem agent_lifecycle_lived : Sample.lived.state.indexReady = true ∧ ∃ log : List (Leaf Sample.primitives),
    Sample.lived.state.entries = log.map Leaf.raw ∧ log.length = 3 ∧ AgentLifecycle log := by
  have hready : Sample.lived.state.indexReady = true ∧ Sample.lived.state.entries.length = 3 := by decide +kernel
  obtain ⟨log, hentries, hlifecycle, _⟩ := agent_lifecycle Sample.run_lived
  refine ⟨hready.1, log, hentries, ?_, hlifecycle⟩
  rw [hentries, length_map] at hready
  exact hready.2

end AgentNameService.TransparencyLog
