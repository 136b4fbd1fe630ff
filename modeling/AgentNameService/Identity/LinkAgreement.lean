/-
Purpose: The links of the authority and the link events of the log.  They can disagree: an event that repeats an earlier one
  of the same second is absorbed by the log, so that a pair that is linked again is still unlinked there.  They agree
  wherever no link event repeats another and the calls on one pair seal and commit one after the other.
Source: internal/ra/service/identity.go, internal/adapter/store/sqlite/identity.go
Trusted boundary: none
-/
import AgentNameService.Identity.StateMachine

namespace AgentNameService.Identity

open Interleaving List MonitoredPool
open Registration (Time Error)
open TransparencyLog (EventType)

variable {D : Deployment} {s t : State D} {φ : Phase} {identityID : String} {i : Nat} {agentID : String} {f : Facts}
variable {links : Links} {g : Facts} {c : Call}

/-! ### Links here and in the log -/

def Live (links : Links) (identityID agentID : String) : Prop := ∃ l ∈ links.rows, l.IsLive identityID agentID

def Joined (links : Links) (identityID agentID : String) : Prop := ∃ l ∈ links.rows, l.Joins identityID agentID

/-- The facts are of a link event that names the pair. -/
def Facts.names (identityID agentID : String) (f : Facts) : Bool :=
  f.eventType.isLink && f.identityID = identityID && agentID ∈ f.ansIDs

/-- The type of the newest `IDENTITY_LINKED` or `IDENTITY_UNLINKED` leaf that names a pair. -/
def newestLink (log : List (Leaf D)) (identityID agentID : String) : Option EventType :=
  (newest (Facts.names identityID agentID) log).map (·.event.eventType)

/-- The log says of a pair what its rows say. -/
def PairAgrees (s : State D) (identityID agentID : String) : Prop :=
  (Live s.links identityID agentID → newestLink s.log identityID agentID = some .identityLinked) ∧
    (Joined s.links identityID agentID → ¬ Live s.links identityID agentID →
      newestLink s.log identityID agentID = some .identityUnlinked)

def LinksAgree (s : State D) : Prop := ∀ identityID agentID, PairAgrees s identityID agentID

theorem linkEach_live {now : Time} {agentIDs : List String} {links' : Links}
    (h : s.linkEach identityID now agentIDs links = .ok links') {other : String}
    (hpair : ¬ (other = identityID ∧ agentID ∈ agentIDs)) :
    (Live links' other agentID ↔ Live links other agentID) ∧ (Joined links' other agentID ↔ Joined links other agentID) := by
  obtain ⟨hsubset, hnew, _⟩ := State.linkEach_ok h
  have hold {l : IdentityLink} (hl : l ∈ links'.rows) (hjoins : l.Joins other agentID) : l ∈ links.rows := by
    rcases hnew l hl with hold | ⟨hid, hmem⟩
    · exact hold
    · exact absurd ⟨hjoins.1.symm.trans hid, hjoins.2 ▸ hmem⟩ hpair
  constructor
  · exact ⟨fun ⟨l, hl, hlive⟩ => ⟨l, hold hl hlive.1, hlive⟩, fun ⟨l, hl, hlive⟩ => ⟨l, hsubset hl, hlive⟩⟩
  · exact ⟨fun ⟨l, hl, hjoins⟩ => ⟨l, hold hl hjoins, hjoins⟩, fun ⟨l, hl, hjoins⟩ => ⟨l, hsubset hl, hjoins⟩⟩

theorem endRow_joins {other agent : String} {l : IdentityLink} :
    (Links.endRow identityID agentID l).Joins other agent ↔ l.Joins other agent := by
  unfold Links.endRow
  split <;> exact Iff.rfl

/-- Ending the live row of a pair ends it for no other pair. -/
theorem endRow_isLive {other agent : String} {l : IdentityLink} :
    (Links.endRow identityID agentID l).IsLive other agent ↔
      l.IsLive other agent ∧ ¬ (other = identityID ∧ agent = agentID) := by
  unfold Links.endRow
  split
  · rename_i hlive
    constructor
    · intro hnot
      cases hnot.2
    · rintro ⟨hother, hne⟩
      exact absurd ⟨hother.1.1.symm.trans hlive.1.1, hother.1.2.symm.trans hlive.1.2⟩ hne
  · rename_i hnot
    constructor
    · intro hother
      refine ⟨hother, ?_⟩
      rintro ⟨rfl, rfl⟩
      exact hnot hother
    · exact And.left

theorem unlink_live {links' : Links}
    (hrows : links'.rows = links.rows.map (Links.endRow identityID agentID)) (other agent : String) :
    (Live links' other agent ↔ Live links other agent ∧ ¬ (other = identityID ∧ agent = agentID)) ∧
      (Joined links' other agent ↔ Joined links other agent) := by
  unfold Live Joined
  rw [hrows]
  constructor
  · constructor
    · rintro ⟨_, hl', hlive⟩
      obtain ⟨l, hl, rfl⟩ := mem_map.mp hl'
      exact ⟨⟨l, hl, (endRow_isLive.mp hlive).1⟩, (endRow_isLive.mp hlive).2⟩
    · rintro ⟨⟨l, hl, hlive⟩, hne⟩
      exact ⟨_, mem_map_of_mem hl, endRow_isLive.mpr ⟨hlive, hne⟩⟩
  · constructor
    · rintro ⟨_, hl', hjoins⟩
      obtain ⟨l, hl, rfl⟩ := mem_map.mp hl'
      exact ⟨l, hl, endRow_joins.mp hjoins⟩
    · rintro ⟨l, hl, hjoins⟩
      exact ⟨_, mem_map_of_mem hl, endRow_joins.mpr hjoins⟩

/-- A pair that neither the links nor the log treat otherwise. -/
theorem PairAgrees.congr (h : PairAgrees s identityID agentID)
    (hlive : Live t.links identityID agentID ↔ Live s.links identityID agentID)
    (hjoined : Joined t.links identityID agentID ↔ Joined s.links identityID agentID)
    (hnewest : newestLink t.log identityID agentID = newestLink s.log identityID agentID) :
    PairAgrees t identityID agentID := by
  unfold PairAgrees
  rw [hlive, hjoined, hnewest]
  exact h

/-! ### Link events that are sealed and not committed -/

/-- The call has sealed a link event that states the facts. -/
def LinkSealed (D : Deployment) (f : Facts) (φ : Phase) : Prop := φ.Sealed D f ∧ f.eventType.isLink = true

def InFlight (w : MonitoredPool (service D) (protocol D)) (i : Nat) (f : Facts) : Prop := w.At i (LinkSealed D f)

/-- A step that seals a link event or commits one. -/
def LinkStep (D : Deployment) : Call → Prop
  | .sealEvent body => ∃ f, States D body f ∧ f.eventType.isLink = true
  | .commitLinks .. | .commitUnlink .. => True
  | _ => False

theorem not_linkSealed_of_none {claim : Option Claim} : ¬ LinkSealed D f ⟨claim, none⟩ := by
  rintro ⟨⟨body, hbody, _⟩, _⟩
  cases hbody

/-- What a call has sealed is no link event if it is something else. -/
theorem not_linkSealed (h : φ.Sealed D g) (hlink : g.eventType.isLink = false) : ¬ LinkSealed D f φ := by
  rintro ⟨hsealed, hf⟩
  rw [hsealed.unique h, hlink] at hf
  cases hf

theorem isLink_of_isProof {e : EventType} (h : e.isProof = true) : e.isLink = false := by
  cases e <;> first | rfl | cases h

/-- Only a link step that succeeds changes which link events a call has sealed. -/
theorem linkSealed_after {result : Except Error c.Reply} (hadmits : φ.Admits D c)
    (h : (∃ e, result = .error e) ∨ ¬ LinkStep D c) : LinkSealed D f (φ.after c result) ↔ LinkSealed D f φ := by
  cases c with
  | claimChallenge claim =>
    obtain rfl : φ = .idle := hadmits
    cases result <;> exact iff_of_false not_linkSealed_of_none not_linkSealed_of_none
  | releaseChallenge claim =>
    obtain rfl : φ = ⟨some claim, none⟩ := hadmits
    cases result <;> exact iff_of_false not_linkSealed_of_none not_linkSealed_of_none
  | commitVerification a =>
    obtain ⟨_, _, g, hsealed, hproof, _⟩ := hadmits
    have hnot := not_linkSealed (f := f) hsealed (isLink_of_isProof hproof)
    cases result <;> exact iff_of_false not_linkSealed_of_none hnot
  | markRevoked identityID =>
    obtain ⟨_, g, hsealed, htype, _⟩ := hadmits
    have hnot := not_linkSealed (f := f) hsealed (by rw [htype]; rfl)
    cases result with
    | ok _ => exact iff_of_false not_linkSealed_of_none hnot
    | error e => exact Iff.rfl
  | sealEvent body =>
    cases result with
    | error e => exact Iff.rfl
    | ok acknowledged =>
      cases acknowledged with
      | false => exact Iff.rfl
      | true =>
        obtain ⟨hnone, g, hstates, _⟩ := hadmits
        obtain ⟨claim, _⟩ := φ
        obtain rfl : _ = none := hnone
        have hother : ¬ LinkStep D (.sealEvent body) := h.resolve_left nofun
        refine iff_of_false ?_ not_linkSealed_of_none
        refine not_linkSealed (φ := ⟨claim, some body⟩) ⟨body, rfl, hstates⟩ ?_
        exact Bool.eq_false_iff.mpr fun hlink => hother ⟨g, hstates, hlink⟩
  | commitLinks | commitUnlink =>
    cases result with
    | ok _ => exact absurd trivial (h.resolve_left nofun)
    | error e => exact Iff.rfl
  | _ => cases result <;> exact Iff.rfl

/-! ### Runs -/

/-- The log never loses an acknowledgement. -/
def Acknowledged (_ : MonitoredPool (service D) (protocol D)) : Move (service D) → Prop
  | .perform _ input => input.acknowledged = true
  | _ => True

/-- A link event is sealed only if it is not in the log yet and no call has sealed and not committed an event that names
one of its pairs. -/
def LinkSealsApart (w : MonitoredPool (service D) (protocol D)) (m : Move (service D)) : Prop :=
  ∀ body f, w.pool.callOf m = some (.sealEvent body) → States D body f → f.eventType.isLink = true →
    (∀ leaf ∈ w.pool.state.log, leaf.canonical ≠ body) ∧
    ∀ j g, InFlight w j g → g.identityID = f.identityID → ∀ agentID ∈ f.ansIDs, agentID ∉ g.ansIDs

/-- What is known along such a run: the newest event of a pair is the one in flight, there is only one, and a pair without
one agrees with the log. -/
structure LinksSound (w : MonitoredPool (service D) (protocol D)) : Prop where
  newest : ∀ i f, InFlight w i f → ∀ agentID ∈ f.ansIDs, newestLink w.pool.state.log f.identityID agentID = some f.eventType
  apart : ∀ i j f g, InFlight w i f → InFlight w j g → f.identityID = g.identityID → ∀ agentID ∈ f.ansIDs,
    agentID ∈ g.ansIDs → i = j
  agree : ∀ identityID agentID, (∀ i f, InFlight w i f → f.identityID = identityID → agentID ∉ f.ansIDs) →
    PairAgrees w.pool.state identityID agentID

theorem InFlight.unique {w : MonitoredPool (service D) (protocol D)} (hf : InFlight w i f)
    (hg : InFlight w i g) : f = g := by
  obtain ⟨φ, hφ, hsealed, _⟩ := hf
  obtain ⟨ψ, hψ, hsealed', _⟩ := hg
  rw [hφ] at hψ
  cases hψ
  exact hsealed.unique hsealed'

namespace LinksSound

variable {w v : MonitoredPool (service D) (protocol D)}

/-- A move that leaves the links, the newest link events and what is in flight as they are. -/
theorem of_same (h : LinksSound w) (hlinks : v.pool.state.links = w.pool.state.links) (hnewest : ∀ identityID agentID,
      newestLink v.pool.state.log identityID agentID = newestLink w.pool.state.log identityID agentID)
    (hflight : ∀ i f, InFlight v i f ↔ InFlight w i f) : LinksSound v where
  newest := by
    intro i f hf agentID hmem
    rw [hnewest]
    exact h.newest i f ((hflight i f).mp hf) agentID hmem
  apart := fun i j f g hf hg => h.apart i j f g ((hflight i f).mp hf) ((hflight j g).mp hg)
  agree := by
    intro identityID agentID hnone
    have hold := h.agree identityID agentID fun i f hf => hnone i f ((hflight i f).mpr hf)
    exact hold.congr (by rw [hlinks]) (by rw [hlinks]) (hnewest identityID agentID)

/-- A link event is sealed. -/
theorem of_sealed (h : LinksSound w) {leaf : Leaf D} (hlink : f.eventType.isLink = true)
    (hfacts : factsOf leaf.event = f) (hlinks : v.pool.state.links = w.pool.state.links)
    (hlog : v.pool.state.log = w.pool.state.log ++ [leaf])
    (hflight : ∀ j g, InFlight v j g ↔ (j = i ∧ g = f) ∨ InFlight w j g)
    (hapart : ∀ j g, InFlight w j g → g.identityID = f.identityID → ∀ agentID ∈ f.ansIDs, agentID ∉ g.ansIDs) :
    LinksSound v := by
  have hnewest (identityID agentID : String) (hnames : f.names identityID agentID = true) :
      newestLink v.pool.state.log identityID agentID = some f.eventType := by
    unfold newestLink
    rw [hlog, newest_append_of_true (hfacts ▸ hnames), ← hfacts]
    rfl
  have hother (identityID agentID : String) (hnames : f.names identityID agentID = false) :
      newestLink v.pool.state.log identityID agentID = newestLink w.pool.state.log identityID agentID := by
    unfold newestLink
    rw [hlog, newest_append_of_false (hfacts ▸ hnames)]
  have hnamed {identityID agentID : String} (hnames : f.names identityID agentID = true) :
      f.identityID = identityID ∧ agentID ∈ f.ansIDs := by
    simpa [Facts.names, hlink] using hnames
  have hnames {agentID : String} (hmem : agentID ∈ f.ansIDs) : f.names f.identityID agentID = true := by
    simp [Facts.names, hlink, hmem]
  refine ⟨?_, ?_, ?_⟩
  · intro j g hg agentID hmem
    rcases (hflight j g).mp hg with ⟨_, rfl⟩ | hold
    · exact hnewest _ _ (hnames hmem)
    · rw [hother]
      · exact h.newest j g hold agentID hmem
      · refine Bool.eq_false_iff.mpr fun hboth => ?_
        exact hapart j g hold (hnamed hboth).1.symm agentID (hnamed hboth).2 hmem
  · intro j k g g' hg hg' hid agentID hmem hmem'
    rcases (hflight j g).mp hg with ⟨rfl, rfl⟩ | hold
    · rcases (hflight k g').mp hg' with ⟨rfl, _⟩ | hold'
      · rfl
      · exact absurd hmem' (hapart k g' hold' hid.symm agentID hmem)
    · rcases (hflight k g').mp hg' with ⟨rfl, rfl⟩ | hold'
      · exact absurd hmem (hapart j g hold hid agentID hmem')
      · exact h.apart j k g g' hold hold' hid agentID hmem hmem'
  · intro identityID agentID hnone
    have hold := h.agree identityID agentID fun j g hg => hnone j g ((hflight j g).mpr (.inr hg))
    refine hold.congr (by rw [hlinks]) (by rw [hlinks]) (hother identityID agentID ?_)
    refine Bool.eq_false_iff.mpr fun hboth => ?_
    exact hnone i f ((hflight i f).mpr (.inl ⟨rfl, rfl⟩)) (hnamed hboth).1 (hnamed hboth).2

/-- A link event is committed: its pairs agree with the log now. -/
theorem of_committed (h : LinksSound w) (hf : InFlight w i f)
    (hlog : v.pool.state.log = w.pool.state.log) (hflight : ∀ j g, InFlight v j g ↔ j ≠ i ∧ InFlight w j g)
    (hcommitted : ∀ agentID ∈ f.ansIDs, PairAgrees v.pool.state f.identityID agentID)
    (hother : ∀ identityID agentID, ¬ (identityID = f.identityID ∧ agentID ∈ f.ansIDs) →
      (Live v.pool.state.links identityID agentID ↔ Live w.pool.state.links identityID agentID) ∧
        (Joined v.pool.state.links identityID agentID ↔ Joined w.pool.state.links identityID agentID)) : LinksSound v where
  newest := by
    intro j g hg agentID hmem
    rw [hlog]
    exact h.newest j g ((hflight j g).mp hg).2 agentID hmem
  apart := fun j k g g' hg hg' => h.apart j k g g' ((hflight j g).mp hg).2 ((hflight k g').mp hg').2
  agree := by
    intro identityID agentID hnone
    by_cases hpair : identityID = f.identityID ∧ agentID ∈ f.ansIDs
    · rw [hpair.1]
      exact hcommitted agentID hpair.2
    · refine (h.agree identityID agentID ?_).congr (hother _ _ hpair).1 (hother _ _ hpair).2 (by rw [hlog])
      intro j g hg hid hmem
      by_cases hj : j = i
      · subst hj
        rw [hg.unique hf] at hid hmem
        exact hpair ⟨hid.symm, hmem⟩
      · exact hnone j g ((hflight j g).mpr ⟨hj, hg⟩) hid hmem

end LinksSound

/-! ### One move -/

section Step

variable {w v : MonitoredPool (service D) (protocol D)} {m : Move (service D)} {rest : Program D Outcome} {op : Op}

/-- A call that failed. -/
theorem links_failed (h : LinksSound w) {e : Error}
    (hphase : w.phases[i]? = some φ) (hadmits : φ.Admits D c) :
    LinksSound (w.resume i op rest (φ.after c (.error e)) w.pool.state) :=
  h.of_same rfl (fun _ _ => rfl) fun _ _ =>
    at_resume_same hphase (linkSealed_after hadmits (.inl ⟨e, rfl⟩))

/-- A call that has replied, to a step that neither seals nor commits a link event. -/
theorem links_elsewhere (h : LinksSound w)
    {reply : c.Reply} (hphase : w.phases[i]? = some φ) (hadmits : φ.Admits D c) (hstep : ¬ LinkStep D c)
    (hwritten : Published w.pool.state c t) : LinksSound (w.resume i op rest (φ.after c (.ok reply)) t) := by
  have hflight (j : Nat) (f : Facts) :
      InFlight (w.resume i op rest (φ.after c (.ok reply)) t) j f ↔ InFlight w j f :=
    at_resume_same hphase (linkSealed_after hadmits (.inr hstep))
  cases hwritten with
  | elsewhere _ hlog hlinks =>
    refine h.of_same hlinks (fun _ _ => ?_) hflight
    change newestLink t.log _ _ = _
    rw [hlog]
  | @sealed body log happend =>
    refine h.of_same rfl (fun identityID agentID => ?_) hflight
    obtain ⟨_, g, hstates, _⟩ := hadmits
    change newestLink log identityID agentID = _
    rcases hstates.appendEvent_ok happend with ⟨rfl, _⟩ | ⟨leaf, rfl, hfacts⟩
    · rfl
    · unfold newestLink
      rw [newest_append_of_false]
      have hlink : g.eventType.isLink = false := Bool.eq_false_iff.mpr fun hlink => hstep ⟨g, hstates, hlink⟩
      simp [hfacts, Facts.names, hlink]
  | linked | unlinked => exact absurd trivial hstep

/-- A link event is sealed, and acknowledged. -/
theorem links_seal (h : LinksSound w) {body : Json}
    {log : List (Leaf D)} (hphase : w.phases[i]? = some φ) (hadmits : φ.Admits D (.sealEvent body)) (hstates : States D body f)
    (hlink : f.eventType.isLink = true) (hnew : ∀ leaf ∈ w.pool.state.log, leaf.canonical ≠ body)
    (hapart : ∀ j g, InFlight w j g → g.identityID = f.identityID → ∀ agentID ∈ f.ansIDs, agentID ∉ g.ansIDs)
    (happend : appendEvent D w.pool.state.log body = .ok log) :
    LinksSound (w.resume i op rest (φ.after (.sealEvent body) (.ok true)) { w.pool.state with log }) := by
  obtain ⟨claim, sealed⟩ := φ
  obtain rfl : sealed = none := hadmits.1
  rcases hstates.appendEvent_ok happend with ⟨_, leaf, hleaf, hsame⟩ | ⟨leaf, hlog, hfacts⟩
  · exact absurd hsame (hnew leaf hleaf)
  · refine h.of_sealed (i := i) hlink hfacts rfl hlog ?_ hapart
    intro j g
    have hown : LinkSealed D g ⟨claim, some body⟩ ↔ g = f := by
      constructor
      · rintro ⟨⟨body', hbody', hstates'⟩, _⟩
        cases hbody'
        exact hstates'.unique hstates
      · rintro rfl
        exact ⟨⟨body, rfl, hstates⟩, hlink⟩
    -- The call itself has nothing in flight before it seals.
    refine (at_resume_gained hphase not_linkSealed_of_none).trans (or_congr_left ?_)
    exact and_congr_right fun _ => hown

/-- A call that has committed has nothing in flight. -/
theorem inFlight_idle {j : Nat}
    (hphase : w.phases[i]? = some φ) : InFlight (w.resume i op rest Phase.idle t) j g ↔ j ≠ i ∧ InFlight w j g :=
  at_resume_lost hphase not_linkSealed_of_none

theorem links_linked (h : LinksSound w)
    {agentIDs : List String} {now : Time} (hphase : w.phases[i]? = some φ)
    (hadmits : φ.Admits D (.commitLinks identityID agentIDs now))
    (hlinks : w.pool.state.linkEach identityID now agentIDs w.pool.state.links = .ok links) :
    LinksSound (w.resume i op rest Phase.idle { w.pool.state with links }) := by
  obtain ⟨_, f, hsealed, htype, rfl, rfl⟩ := hadmits
  have hflight : InFlight w i f := ⟨φ, hphase, hsealed, by rw [htype]; rfl⟩
  refine h.of_committed hflight rfl (fun j g => inFlight_idle hphase) ?_ fun _ _ => linkEach_live hlinks
  intro agentID hmem
  have hlive : Live links f.identityID agentID := (State.linkEach_ok hlinks).2.2 agentID hmem
  refine ⟨fun _ => ?_, fun _ hnot => absurd hlive hnot⟩
  rw [← htype]
  exact h.newest i f hflight agentID hmem

theorem links_unlinked (h : LinksSound w)
    (hphase : w.phases[i]? = some φ) (hadmits : φ.Admits D (.commitUnlink identityID agentID))
    (hrows : links.rows = w.pool.state.links.rows.map (Links.endRow identityID agentID)) :
    LinksSound (w.resume i op rest Phase.idle { w.pool.state with links }) := by
  obtain ⟨_, f, hsealed, htype, rfl, hids⟩ := hadmits
  have hflight : InFlight w i f := ⟨φ, hphase, hsealed, by rw [htype]; rfl⟩
  have heffect := unlink_live hrows
  refine h.of_committed hflight rfl (fun j g => inFlight_idle hphase) ?_ ?_
  · intro agent hmem
    have hpair : agent = agentID := by rw [hids] at hmem; exact mem_singleton.mp hmem
    have hnot : ¬ Live links f.identityID agent := fun hlive => ((heffect _ _).1.mp hlive).2 ⟨rfl, hpair⟩
    refine ⟨fun hlive => absurd hlive hnot, fun _ _ => ?_⟩
    rw [← htype]
    exact h.newest i f hflight agent hmem
  · intro other agent hne
    rw [hids, mem_singleton] at hne
    refine ⟨(heffect other agent).1.trans ?_, (heffect other agent).2⟩
    exact and_iff_left hne

theorem links_step (h : Monitored (service D) (protocol D) (fun w m => Acknowledged w m ∧ LinkSealsApart w m) w)
    (hsound : LinksSound w) (hallows : Acknowledged w m ∧ LinkSealsApart w m) (hstep : w.step m = some v) :
    LinksSound v := by
  cases step_eq_some_iff.mp hstep with
  | spawned op =>
    refine hsound.of_same rfl (fun _ _ => rfl) fun j f => ?_
    exact at_spawn not_linkSealed_of_none
  | @replied i input op c next φ reply t hthread hphase hexec =>
    have hadmits : φ.Admits D c := h.admits operation_follows hthread hphase
    have hwritten := exec_published hexec
    by_cases hlink : LinkStep D c
    · have hcall : w.pool.callOf (.perform i input) = some c := by simp [Pool.callOf, hthread]
      cases hwritten with
      | elsewhere hother =>
        cases c <;> first | exact absurd trivial hother | cases hlink
      | @sealed body log happend =>
        obtain ⟨f, hstates, hisLink⟩ := hlink
        obtain ⟨hnew, hapart⟩ := hallows.2 body f hcall hstates hisLink
        obtain rfl : reply = true := by
          obtain ⟨_, _, heq⟩ := Except.map_eq_ok_iff.mp hexec
          cases heq
          exact hallows.1
        exact links_seal hsound hphase hadmits hstates hisLink hnew hapart happend
      | linked hlinks => exact links_linked hsound hphase hadmits hlinks
      | unlinked hrows => exact links_unlinked hsound hphase hadmits hrows
    · exact links_elsewhere hsound hphase hadmits hlink hwritten
  | refused hthread hphase _ | faulted e hthread hphase =>
    exact links_failed hsound hphase (h.admits operation_follows hthread hphase)
  | answered world hthread hphase =>
    exact hsound.of_same rfl (fun _ _ => rfl) fun _ _ => at_resume_same hphase Iff.rfl

theorem links_sound (h : Monitored (service D) (protocol D) (fun w m => Acknowledged w m ∧ LinkSealsApart w m) w) :
    LinksSound w := by
  induction h with
  | start =>
    have hnone (i : Nat) (f : Facts) : ¬ InFlight (start (service D) (protocol D)) i f := by
      rintro ⟨φ, hφ, _⟩
      cases hφ
    refine ⟨fun i f hf => absurd hf (hnone i f), fun i _ f _ hf => absurd hf (hnone i f), ?_⟩
    intro identityID agentID _
    constructor
    · rintro ⟨l, hl, _⟩
      cases hl
    · rintro ⟨l, hl, _⟩
      cases hl
  | step hrun hallows hstep ih => exact links_step hrun ih hallows hstep

end Step

/-! ### States without a call in flight -/

/-- No call is in flight, and every call of Link, Unlink and Revoke has succeeded. -/
def Succeeded (p : Pool (service D)) : Prop :=
  ∀ thread ∈ p.threads, ∃ result, thread.2 = .ret result ∧ (thread.1.IsLinkOrRevoke → ∃ out, result = .ok out)

/-- Where no link event repeats one of the log and the calls on one pair seal and commit one after the other: with no call
in flight, the log says of every pair what its rows say. -/
theorem links_agree_with_log {w : MonitoredPool (service D) (protocol D)}
    (h : Monitored (service D) (protocol D) (fun w m => Acknowledged w m ∧ LinkSealsApart w m) w)
    (hsucceeded : Succeeded w.pool) : LinksAgree w.pool.state := by
  intro identityID agentID
  apply (links_sound h).agree
  rintro i f ⟨φ, hphase, hsealed⟩
  have hended : ∀ thread ∈ w.pool.threads, ∃ result, thread.2 = .ret result := fun thread hmem =>
    (hsucceeded thread hmem).imp fun _ hresult => hresult.1
  obtain ⟨op, result, hmem, hends⟩ := h.ended operation_follows hended hphase
  rcases hends.2 with rfl | ⟨hop, e, rfl⟩
  · exact absurd hsealed not_linkSealed_of_none
  · obtain ⟨_, heq, hok⟩ := hsucceeded _ hmem
    cases heq
    obtain ⟨out, hout⟩ := hok hop
    cases hout

namespace Sample

instance {D : Deployment} (w : MonitoredPool (service D) (protocol D)) (m : Move (service D)) :
    Decidable (Acknowledged w m) := by
  cases m <;> unfold Acknowledged <;> infer_instance

instance (op : Op) : Decidable op.IsLinkOrRevoke := by
  cases op <;> unfold Op.IsLinkOrRevoke <;> infer_instance

/-- A seal of an event that is not in the log, while no call has anything in flight. -/
def alone : Admission := fun w m =>
  decide (Acknowledged w m) && match w.pool.callOf m with
    | some (.sealEvent body) => w.pool.state.log.all (·.canonical ≠ body) && (w.phases : List Phase).all (·.sealed = none)
    | _ => true

theorem apart_of_alone (w : MonitoredPool (service deployment) (protocol deployment)) (m : Move (service deployment))
    (h : alone w m = true) : Acknowledged w m ∧ LinkSealsApart w m := by
  unfold alone at h
  rw [Bool.and_eq_true, decide_eq_true_eq] at h
  refine ⟨h.1, ?_⟩
  intro body f hcall _ _
  rw [hcall, Bool.and_eq_true, all_eq_true, all_eq_true] at h
  refine ⟨fun leaf hleaf => of_decide_eq_true (h.2.1 leaf hleaf), ?_⟩
  rintro j g ⟨φ, hφ, ⟨body', hbody', _⟩, _⟩
  have hnone := of_decide_eq_true (h.2.2 φ (mem_of_getElem? hφ))
  rw [hbody'] at hnone
  cases hnone

/-- An identity is proven, and linked, unlinked and linked again at the given seconds. -/
def relinking (first second third : Nat) : List Request := [
  ⟨.register "owner" "did:key:z1" ⟨""⟩, 1, "id1", "n1", 40⟩,
  ⟨.verifyControl "owner" "id1" (proof "z1" "n1"), 2, "", "", 40⟩,
  ⟨.setAgent ⟨"agent", "owner", .active⟩, 3, "", "", 40⟩,
  ⟨.link "owner" "id1" ["agent"], first, "", "", 40⟩,
  ⟨.unlink "owner" "id1" "agent", second, "", "", 40⟩,
  ⟨.link "owner" "id1" ["agent"], third, "", "", 40⟩]

/-- A pool whose calls have all succeeded. -/
def allOk (p : Pool (service deployment)) : Bool :=
  p.threads.all fun thread => match thread.2 with
    | .ret (.ok _) => true
    | _ => false

theorem succeeded_of_allOk {p : Pool (service deployment)} (h : allOk p = true) : Succeeded p := by
  intro thread hmem
  have hok := all_eq_true.mp h thread hmem
  split at hok
  · rename_i out hout
    exact ⟨.ok out, hout, fun _ => ⟨out, rfl⟩⟩
  · cases hok

end Sample

open Sample

set_option maxRecDepth 20000 in
theorem sample_links_agree_with_log : (script alone (relinking 4 5 6)).pool.state.log.length = 4 ∧
    LinksAgree (script alone (relinking 4 5 6)).pool.state := by
  have hrun : (script alone (relinking 4 5 6)).pool.state.log.length = 4 ∧
      allOk (script alone (relinking 4 5 6)).pool = true := by
    decide +kernel
  refine ⟨hrun.1, ?_⟩
  apply links_agree_with_log (monitored_script apart_of_alone _)
  exact succeeded_of_allOk hrun.2

set_option maxRecDepth 20000 in
/-- Linked, unlinked and linked again within a second: the log absorbs the third event as a repetition of the first. -/
theorem relinked_within_a_second : ∃ w : MonitoredPool (service deployment) (protocol deployment),
    Monitored (service deployment) (protocol deployment) Acknowledged w ∧ Succeeded w.pool ∧
    Live w.pool.state.links "id1" "agent" ∧ newestLink w.pool.state.log "id1" "agent" = some .identityUnlinked := by
  let w := script (fun w m => decide (Acknowledged w m)) (relinking 4 4 4)
  have hrun : allOk w.pool = true ∧ (∃ l ∈ w.pool.state.links.rows, l.IsLive "id1" "agent") ∧
      newestLink w.pool.state.log "id1" "agent" = some .identityUnlinked := by
    decide +kernel
  exact ⟨w, monitored_script (fun _ _ => of_decide_eq_true) _, succeeded_of_allOk hrun.1, hrun.2.1, hrun.2.2⟩

end AgentNameService.Identity
