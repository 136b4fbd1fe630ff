/-
Purpose: No two owners hold one host.  A registration only becomes live in the transaction that reads the
  rows on its host again, and no stale copy ever makes a row live.
Source: internal/ra/service/registration.go (commitActivation), internal/adapter/store/sqlite/agent.go (Save)
Trusted boundary: none
-/
import AgentNameService.Registration.Lifecycle

namespace AgentNameService.Registration

open Interleaving Transactions Table

variable {s t : Store} {c : Call} {id : Nat} {row row' : AgentRow}

/-- Two live registrations on one host have one owner. -/
def Exclusive (s : Store) : Prop :=
  ∀ i j row row', (i, row) ∈ s.agents.rows → (j, row') ∈ s.agents.rows → row.ansName.fqdn = row'.ansName.fqdn →
    holdsHostExclusivity row.status = true → holdsHostExclusivity row'.status = true → row.ownerID = row'.ownerID

/-- A row that is live after a step was live before it, or has just been activated: then no other owner's
row on the host is live. -/
theorem Change.live (h : Change s id row c row') (hrow : (id, row) ∈ s.agents.rows) (hpre : Pre c s)
    (hlive : holdsHostExclusivity row'.status = true) : holdsHostExclusivity row.status = true ∨
      (∃ reg sealed, c = .commitActivation reg sealed ∧ id = reg.id) ∧
      ∀ j other, (j, other) ∈ s.agents.rows → other.ansName.fqdn = row.ansName.fqdn →
        other.agentID ≠ row.agentID → other.ownerID ≠ row.ownerID → holdsHostExclusivity other.status = false := by
  cases h with
  | same => exact .inl hlive
  | saved | advanced | cancelled =>
    change holdsHostExclusivity (AgentRegistration.status _) = true at hlive
    rw [hpre.2.1] at hlive
    cases hlive
  | @activated reg _ hkey _ hexclusive =>
    subst hkey
    refine .inr ⟨⟨reg, _, rfl, rfl⟩, ?_⟩
    intro j other hother hhost hagent howner
    obtain ⟨⟨own, hown, hownAgent, hownOwner, hownName⟩, _⟩ := hpre
    obtain rfl := mem_unique hrow hown
    rw [hownAgent] at hagent
    rw [hownOwner] at howner
    have hlisted : other.toDomain j ∈ s.agentsByHost reg.fqdn := by
      refine Store.mem_agentsByHost.mpr ⟨other, hother, rfl, ?_⟩
      rw [hhost, hownName]
      rfl
    exact hexclusive _ hlisted hagent howner
  | outrun | revoked | lapsed => cases hlive

theorem Effect.exclusive (h : Effect s t c) (hinv : Inv s) (hpre : Pre c s) (hs : Exclusive s) : Exclusive t := by
  rcases h.changes with ⟨reg, rfl, _, hagents⟩ | ⟨g, hg, hchange⟩
  · -- a new registration is not live
    have hold {i : Nat} {row : AgentRow} (hrow : (i, row) ∈ t.agents.rows)
        (hlive : holdsHostExclusivity row.status = true) : (i, row) ∈ s.agents.rows := by
      rw [hagents, mem_insert, Prod.mk.injEq] at hrow
      refine hrow.resolve_right fun hnew => ?_
      rw [hnew.2] at hlive
      change holdsHostExclusivity reg.status = true at hlive
      rw [hpre.2] at hlive
      cases hlive
    intro i j row row' hrow hrow' hhost hlive hlive'
    exact hs i j row row' (hold hrow hlive) (hold hrow' hlive') hhost hlive hlive'
  · intro i j row row' hrow hrow' hhost hlive hlive'
    obtain ⟨a, ha, rfl⟩ := (hg i row).mp hrow
    obtain ⟨b, hb, rfl⟩ := (hg j row').mp hrow'
    have hca := hchange i a ha
    have hcb := hchange j b hb
    have hba := hca.becomes hpre
    have hbb := hcb.becomes hpre
    rw [hba.ansName, hbb.ansName] at hhost
    rw [hba.ownerID, hbb.ownerID]
    by_contra howner
    have hagent : a.agentID ≠ b.agentID := by
      intro heq
      obtain ⟨_, rfl⟩ := hinv.unique ha hb heq
      exact howner rfl
    rcases hca.live ha hpre hlive with hla | ⟨⟨reg, sealed, rfl, hia⟩, hexclusive⟩ <;>
      rcases hcb.live hb hpre hlive' with hlb | ⟨⟨reg', sealed', hcall, hib⟩, hexclusive'⟩
    · exact howner (hs i j a b ha hb hhost hla hlb)
    · rw [hexclusive' i a ha hhost hagent howner] at hla
      cases hla
    · rw [hexclusive j b hb hhost.symm hagent.symm (Ne.symm howner)] at hlb
      cases hlb
    · -- one transaction activates one registration
      cases hcall
      subst hia
      rw [hib] at hb
      exact hagent (congrArg AgentRow.agentID (mem_unique ha hb))

/-- In every pool that any schedule reaches from the empty database, no two owners hold one host. -/
theorem reached_exclusive (w : Wiring) {p : Pool (service w)} (hreached : Reached (service w) p) : Exclusive p.state :=
  (governs w).invariant (by simp [Exclusive, Store.empty])
    (fun _ _ _ _ _ hinv hpre _ hs hexec => (effect_of_exec hinv hpre hexec).exclusive hinv hpre hs) hreached

/-- The invariant where a `VerifyACME` and a `VerifyDNS` of one registration have raced. -/
theorem reached_exclusive_overtaken : Reached (service {}) overtakenPool ∧ Exclusive overtakenPool.state :=
  ⟨overtakenPool_reached, reached_exclusive {} overtakenPool_reached⟩

end AgentNameService.Registration
