/-
Purpose: What one atomic step makes of each stored registration, row by row, and that every such change
  keeps the invariant of the tables and what the other operations know about their copies.
Source: internal/ra/service/{registration,lifecycle,revocation}.go, internal/adapter/store/sqlite/agent.go
Trusted boundary: none
-/
import AgentNameService.Registration.Effects

namespace AgentNameService.Registration

open Store Transactions Table List

variable {s t : Store} {reg r : AgentRegistration} {c : Call} {id : Nat} {row row' : AgentRow}

/-! ### Changes of one row -/

/-- What a call can make of one stored registration, in tables in which it commits. -/
inductive Change (s : Store) (id : Nat) (row : AgentRow) : Call → AgentRow → Prop
  | same {c : _} : Change s id row c row
  | saved {reg : _} (key : id = reg.id) (live : row.status = .revoked → reg.status = .revoked)
      (deprecated : row.status = .deprecated → reg.status = .deprecated ∨ reg.status = .revoked) :
      Change s id row (.saveAgent reg) (row.overwrite reg)
  | advanced {reg identity server : _} (key : id = reg.id) (live : row.status = .revoked → reg.status = .revoked)
      (deprecated : row.status = .deprecated → reg.status = .deprecated ∨ reg.status = .revoked) :
      Change s id row (.commitACME reg identity server) (row.overwrite reg)
  | activated {reg sealed : _} (key : id = reg.id) (waiting : row.status = .pendingDNS)
      (exclusive : ∀ r ∈ s.agentsByHost reg.fqdn, r.agentID ≠ reg.agentID → r.ownerID ≠ reg.ownerID →
        holdsHostExclusivity r.status = false) :
      Change s id row (.commitActivation reg sealed) (row.overwrite reg)
  | outrun {reg sealed : _} (host : row.ansName.fqdn = reg.fqdn) (agent : row.agentID ≠ reg.agentID)
      (owner : row.ownerID ≠ reg.ownerID) (pending : row.status.isPending = true) :
      Change s id row (.commitActivation reg sealed) (revokedRow row)
  | revoked {reg certs reason lane now : _} (agent : row.agentID = reg.agentID)
      (legal : .revoked ∈ row.status.validTransitions) :
      Change s id row (.commitRevocation reg certs reason lane now) (revokedRow row)
  | cancelled {reg certs : _} (key : id = reg.id) : Change s id row (.commitCancellation reg certs) (row.overwrite reg)
  | lapsed {now} (waiting : row.status = .pendingValidation) (order : row.certOrder.state = .pending) :
      Change s id row (.expireLapsedPendingValidation now) { row with status := .expired }

/-- The registrations of the new tables are those of the old, each rewritten in place. -/
def Rewrites (s t : Store) (g : Nat → AgentRow → AgentRow) : Prop :=
  ∀ id row', (id, row') ∈ t.agents.rows ↔ ∃ row, (id, row) ∈ s.agents.rows ∧ row' = g id row

theorem rewrites_of_agents_eq (h : t.agents = s.agents) : Rewrites s t fun _ row => row := by
  intro id row'
  simp [h]

theorem rewrites_update {selects : Nat → AgentRow → Bool} {f : AgentRow → AgentRow}
    (h : t.agents = s.agents.update selects f) :
    Rewrites s t fun id row => if selects id row = true then f row else row := by
  intro id row'
  rw [h, mem_update]

theorem rewrites_putAgent (h : t.agents = (putAgent reg s).agents) :
    Rewrites s t fun id row => if id = reg.id then row.overwrite reg else row := by
  intro id row'
  rw [h, mem_putAgent]

theorem mem_losers : r ∈ losers reg s ↔ ∃ row, (r.id, row) ∈ s.agents.rows ∧ row.toDomain r.id = r ∧
    row.ansName.fqdn = reg.fqdn ∧ row.agentID ≠ reg.agentID ∧ row.ownerID ≠ reg.ownerID ∧
      row.status.isPending = true := by
  unfold losers
  rw [mem_filter, mem_agentsByHost]
  constructor
  · rintro ⟨⟨row, hrow, hdomain, hhost⟩, hrival⟩
    rw [← hdomain] at hrival
    simp only [isRival, Bool.and_eq_true, bne_iff_ne] at hrival
    exact ⟨row, hrow, hdomain, hhost, hrival.1.1, hrival.1.2, hrival.2⟩
  · rintro ⟨row, hrow, hdomain, hhost, hagent, howner, hpending⟩
    refine ⟨⟨row, hrow, hdomain, hhost⟩, ?_⟩
    rw [← hdomain]
    simp only [isRival, Bool.and_eq_true, bne_iff_ne]
    exact ⟨⟨hagent, howner⟩, hpending⟩

/-- The row of a loser is a pending one of another owner on the host. -/
theorem loser_row (hrow : (id, row) ∈ s.agents.rows) (hloses : ((losers reg s).any fun r => id == r.id) = true) :
    row.ansName.fqdn = reg.fqdn ∧ row.agentID ≠ reg.agentID ∧ row.ownerID ≠ reg.ownerID ∧
      row.status.isPending = true := by
  obtain ⟨r, hr, hid⟩ := any_eq_true.mp hloses
  obtain rfl := beq_iff_eq.mp hid
  obtain ⟨row', hrow', _, hfacts⟩ := mem_losers.mp hr
  obtain rfl := mem_unique hrow hrow'
  exact hfacts

/-- A row after an activation: the winner's own row, the row of a loser, or any other. -/
def afterActivation (reg : AgentRegistration) (s : Store) (id : Nat) (row : AgentRow) : AgentRow :=
  if id = reg.id then row.overwrite reg
  else if ((losers reg s).any fun r => id == r.id) = true then revokedRow row
  else row

theorem rewrites_activation (h : t.agents = (putAgent reg (cancelAll (losers reg s) s)).agents) :
    Rewrites s t (afterActivation reg s) := by
  intro id row'
  rw [h, mem_putAgent]
  simp only [cancelAll, mem_update]
  -- the winner's copy overwrites whatever the loop left, so the two updates do not interfere
  have hcompose (row : AgentRow) : afterActivation reg s id row = if id = reg.id then
      (if ((losers reg s).any fun r => id == r.id) = true then revokedRow row else row).overwrite reg
      else if ((losers reg s).any fun r => id == r.id) = true then revokedRow row else row := by
    unfold afterActivation
    split
    · split <;> rfl
    · rfl
  constructor
  · rintro ⟨_, ⟨row, hrow, rfl⟩, rfl⟩
    exact ⟨row, hrow, (hcompose row).symm⟩
  · rintro ⟨row, hrow, rfl⟩
    exact ⟨_, ⟨row, hrow, rfl⟩, hcompose row⟩

/-- Every effect but a registration rewrites each row in one of the ways a change names. -/
theorem Effect.changes (h : Effect s t c) : (∃ reg, c = .register reg ∧ s.hasAgent reg.agentID = false ∧
      t.agents = s.agents.insert (.ofDomain reg)) ∨
    ∃ g, Rewrites s t g ∧ ∀ id row, (id, row) ∈ s.agents.rows → Change s id row c (g id row) := by
  cases h with
  | quiet hagents | sent hagents | rotated _ _ _ hagents =>
    exact .inr ⟨_, rewrites_of_agents_eq hagents, fun _ _ _ => .same⟩
  | registered hfresh hagents => exact .inl ⟨_, rfl, hfresh, hagents⟩
  | saved hadmitted hresult =>
    refine .inr ⟨_, rewrites_putAgent (congrArg Store.agents hresult), ?_⟩
    intro id row hrow
    obtain ⟨own, hown, hlive, hdeprecated⟩ := hadmitted
    split
    · rename_i hid
      subst hid
      obtain rfl := mem_unique hown hrow
      exact .saved rfl hlive hdeprecated
    · exact .same
  | advanced hadmitted hagents =>
    refine .inr ⟨_, rewrites_putAgent hagents, ?_⟩
    intro id row hrow
    obtain ⟨own, hown, hlive, hdeprecated⟩ := hadmitted
    split
    · rename_i hid
      subst hid
      obtain rfl := mem_unique hown hrow
      exact .advanced rfl hlive hdeprecated
    · exact .same
  | activated hown hwaiting hexclusive _ hagents =>
    refine .inr ⟨_, rewrites_activation hagents, ?_⟩
    intro id row hrow
    unfold afterActivation
    split
    · rename_i hid
      subst hid
      obtain rfl := mem_unique hown hrow
      exact .activated rfl hwaiting hexclusive
    · split
      · rename_i hloses
        obtain ⟨hhost, hagent, howner, hpending⟩ := loser_row hrow hloses
        exact .outrun hhost hagent howner hpending
      · exact .same
  | revoked hown hagent hlegal hagents =>
    refine .inr ⟨_, rewrites_update hagents, ?_⟩
    intro id row hrow
    split
    · rename_i hid
      obtain rfl := beq_iff_eq.mp hid
      obtain rfl := mem_unique hown hrow
      exact .revoked hagent hlegal
    · exact .same
  | cancelled _ hresult =>
    subst hresult
    refine .inr ⟨_, rewrites_putAgent rfl, ?_⟩
    intro id row _
    split
    · exact .cancelled ‹_›
    · exact .same
  | swept hresult =>
    subst hresult
    exact .inr ⟨_, rewrites_of_agents_eq rfl, fun _ _ _ => .same⟩
  | lapsed hagents =>
    refine .inr ⟨_, rewrites_update hagents, ?_⟩
    intro id row _
    split
    · rename_i hlapsed
      obtain ⟨hwaiting, horder⟩ := isLapsed_pending hlapsed
      exact .lapsed hwaiting horder
    · exact .same

/-! ### Steps that revoke -/

/-- The calls that revoke a registration, and the registration of which agent. -/
inductive Revokes (s : Store) (agentID : String) : Call → Prop
  | loser {reg r sealed : _} (loses : r ∈ losers reg s) (agent : r.agentID = agentID) :
      Revokes s agentID (.commitActivation reg sealed)
  | live {reg certs reason lane now : _} (agent : reg.agentID = agentID) :
      Revokes s agentID (.commitRevocation reg certs reason lane now)
  | pending {reg certs row : _} (stored : (reg.id, row) ∈ s.agents.rows) (agent : row.agentID = agentID)
      (was : row.status ≠ .revoked) : Revokes s agentID (.commitCancellation reg certs)

/-- A registration that is revoked after a step was so before it, or the step has revoked it. -/
theorem Effect.revoked_by (h : Effect s t c) (hpre : Pre c s) (hrow' : (id, row') ∈ t.agents.rows)
    (hrevoked : row'.status = .revoked) :
    (∃ row, (id, row) ∈ s.agents.rows ∧ row.agentID = row'.agentID ∧ row.status = .revoked) ∨
      t.agents ≠ s.agents ∧ Revokes s row'.agentID c := by
  by_cases hsame : t.agents = s.agents
  · exact .inl ⟨row', hsame ▸ hrow', rfl, hrevoked⟩
  rcases h.changes with ⟨reg, rfl, _, hagents⟩ | ⟨g, hg, hchange⟩
  · rw [hagents, mem_insert] at hrow'
    rcases hrow' with hold | hnew
    · exact .inl ⟨row', hold, rfl, hrevoked⟩
    · rw [(Prod.mk.inj hnew).2] at hrevoked
      cases hpre.2.symm.trans hrevoked
  obtain ⟨row, hrow, heq⟩ := (hg id row').mp hrow'
  have hc := hchange id row hrow
  rw [← heq] at hc
  cases hc with
  | same => exact .inl ⟨row', hrow, rfl, hrevoked⟩
  | saved | advanced | activated => cases hpre.2.1.symm.trans hrevoked
  | outrun hhost hagent howner hpending =>
    have hloses : row.toDomain id ∈ losers _ s :=
      mem_losers.mpr ⟨row, hrow, rfl, hhost, hagent, howner, hpending⟩
    exact .inr ⟨hsame, .loser hloses rfl⟩
  | revoked hagent => exact .inr ⟨hsame, .live hagent.symm⟩
  | cancelled hkey =>
    subst hkey
    by_cases hwas : row.status = .revoked
    · exact .inl ⟨row, hrow, rfl, hwas⟩
    · exact .inr ⟨hsame, .pending hrow rfl hwas⟩
  | lapsed => cases hrevoked

/-! ### Every change keeps the contract -/

/-- No call takes back what the copies of the other operations rely on. -/
theorem Change.becomes (h : Change s id row c row') (hpre : Pre c s) : row.Becomes row' := by
  cases h with
  | same => exact .refl row
  | saved _ hlive | advanced _ hlive => exact ⟨rfl, rfl, rfl, hlive, fun _ => hpre.2.2⟩
  | activated _ hwaiting =>
    refine ⟨rfl, rfl, rfl, ?_, fun _ => hpre.2.2⟩
    intro hrevoked
    rw [hwaiting] at hrevoked
    cases hrevoked
  | outrun | revoked => exact ⟨rfl, rfl, rfl, fun _ => rfl, fun hsettled => hsettled⟩
  | cancelled => exact ⟨rfl, rfl, rfl, fun _ => hpre.2.1, fun _ => hpre.2.2.1⟩
  | lapsed hwaiting horder =>
    refine ⟨rfl, rfl, rfl, ?_, fun hsettled => absurd horder hsettled⟩
    intro hrevoked
    rw [hwaiting] at hrevoked
    cases hrevoked

/-- A copy whose order is settled and whose status is none of the two is sound once it is saved. -/
theorem AgentRow.sound_overwrite (horder : reg.certOrder.state ≠ .pending) (hexpired : reg.status ≠ .expired)
    (hfailed : reg.status ≠ .failed) : (row.overwrite reg).Sound where
  pendingDNS := fun _ => horder
  expired := fun h => absurd h hexpired
  notFailed := hfailed

theorem AgentRow.sound_revokedRow (row : AgentRow) : (revokedRow row).Sound where
  pendingDNS := nofun
  expired := nofun
  notFailed := nofun

theorem Change.sound (h : Change s id row c row') (hpre : Pre c s) (hsound : row.Sound) : row'.Sound := by
  cases h with
  | same => exact hsound
  | saved | advanced | activated =>
    exact AgentRow.sound_overwrite hpre.2.2 (by simp [hpre.2.1]) (by simp [hpre.2.1])
  | cancelled => exact AgentRow.sound_overwrite hpre.2.2.1 (by simp [hpre.2.1]) (by simp [hpre.2.1])
  | outrun | revoked => exact AgentRow.sound_revokedRow row
  | lapsed _ horder => exact ⟨nofun, fun _ => horder, nofun⟩

/-- Rewriting rows in place keeps the invariant. -/
theorem Inv.rewrites {g : Nat → AgentRow → AgentRow} (hinv : Inv s) (hg : Rewrites s t g)
    (hchange : ∀ id row, (id, row) ∈ s.agents.rows → row.Becomes (g id row) ∧ (g id row).Sound) : Inv t where
  distinct := by
    intro i j row row' hrow hrow' hagent
    obtain ⟨old, hold, rfl⟩ := (hg i row).mp hrow
    obtain ⟨old', hold', rfl⟩ := (hg j row').mp hrow'
    rw [(hchange i old hold).1.agentID, (hchange j old' hold').1.agentID] at hagent
    exact hinv.distinct i j old old' hold hold' hagent
  sound := by
    intro i row hrow
    obtain ⟨old, hold, rfl⟩ := (hg i row).mp hrow
    exact (hchange i old hold).2

/-- A new registration has an agent id of its own. -/
theorem Inv.insert (hinv : Inv s) (hfresh : s.hasAgent reg.agentID = false)
    (hstatus : reg.status = .pendingValidation) (hagents : t.agents = s.agents.insert (.ofDomain reg)) : Inv t := by
  have hnew {i : Nat} {row : AgentRow} (hrow : (i, row) ∈ t.agents.rows) :
      (i, row) ∈ s.agents.rows ∨ i = s.agents.next ∧ row = .ofDomain reg := by
    rw [hagents, mem_insert, Prod.mk.injEq] at hrow
    exact hrow
  have habsent {i : Nat} {row : AgentRow} (hrow : (i, row) ∈ s.agents.rows) : row.agentID ≠ reg.agentID := by
    intro heq
    have := hasAgent_of_mem hrow
    rw [heq, hfresh] at this
    cases this
  constructor
  · intro i j row row' hrow hrow' hagent
    rcases hnew hrow with hold | ⟨rfl, rfl⟩ <;> rcases hnew hrow' with hold' | ⟨rfl, rfl⟩
    · exact hinv.distinct i j row row' hold hold' hagent
    · exact absurd hagent (habsent hold)
    · exact absurd hagent.symm (habsent hold')
    · rfl
  · intro i row hrow
    rcases hnew hrow with hold | ⟨_, rfl⟩
    · exact hinv.sound i row hold
    · constructor <;> simp [AgentRow.ofDomain, hstatus]

/-- A call that is made under its precondition keeps the contract. -/
theorem Effect.keeps (h : Effect s t c) (hinv : Inv s) (hpre : Pre c s) : Inv t ∧ Evolves s t := by
  rcases h.changes with ⟨reg, rfl, hfresh, hagents⟩ | ⟨g, hg, hchange⟩
  · refine ⟨hinv.insert hfresh hpre.2 hagents, ?_⟩
    intro id row hrow
    refine ⟨row, ?_, .refl row⟩
    rw [hagents, mem_insert]
    exact .inl hrow
  · have hboth : ∀ id row, (id, row) ∈ s.agents.rows → row.Becomes (g id row) ∧ (g id row).Sound := by
      intro id row hrow
      have hc := hchange id row hrow
      exact ⟨hc.becomes hpre, hc.sound hpre (hinv.sound id row hrow)⟩
    refine ⟨hinv.rewrites hg hboth, ?_⟩
    intro id row hrow
    exact ⟨g id row, (hg id _).mpr ⟨row, hrow, rfl⟩, (hboth id row hrow).1⟩

/-- The contract of the registration authority. -/
def discipline : Interleaving.Discipline RA where
  Inv := Inv
  Rely := Evolves
  Grows := Evolves
  Pre := Pre
  refl := Evolves.refl
  trans := Evolves.trans
  grows := fun _ _ h => h
  grows_trans := Evolves.trans
  keeps := fun _ _ _ _ _ hinv hpre hexec => (effect_of_exec hinv hpre hexec).keeps hinv hpre

end AgentNameService.Registration
