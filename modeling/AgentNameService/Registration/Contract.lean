/-
Purpose: What the operations of the service rely on and guarantee.  An operation works on a copy of a
  registration that it read some steps ago; the contract says which parts of that copy are still true when
  it is saved, and what a save must respect so that the other operations' copies stay true as well.
Source: internal/ra/service/{registration,lifecycle,revocation}.go
Trusted boundary: none
-/
import AgentNameService.Registration.Interface
import AgentNameService.Registration.StoreLaws

namespace AgentNameService.Registration

variable {s t : Store} {reg : AgentRegistration}

/-! ### The invariant of the tables -/

/-- What the status of a row says about its order: domain validation closes the order or hands it to the
provider, the sweep only takes rows whose order is untouched, and no operation fails a registration. -/
structure AgentRow.Sound (row : AgentRow) : Prop where
  pendingDNS : row.status = .pendingDNS → row.certOrder.state ≠ .pending
  expired : row.status = .expired → row.certOrder.state = .pending
  notFailed : row.status ≠ .failed

/-- Agent ids are unique, and every row is sound. -/
structure Inv (s : Store) : Prop where
  distinct : ∀ i j row row', (i, row) ∈ s.agents.rows → (j, row') ∈ s.agents.rows →
    row.agentID = row'.agentID → i = j
  sound : ∀ i row, (i, row) ∈ s.agents.rows → row.Sound

theorem Inv.empty : Inv Store.empty := ⟨by simp [Store.empty], by simp [Store.empty]⟩

/-- Two rows of one agent are one row. -/
theorem Inv.unique (hinv : Inv s) {i j : Nat} {row row' : AgentRow} (hrow : (i, row) ∈ s.agents.rows)
    (hrow' : (j, row') ∈ s.agents.rows) (hagent : row.agentID = row'.agentID) : i = j ∧ row = row' := by
  obtain rfl := hinv.distinct i j row row' hrow hrow' hagent
  exact ⟨rfl, Table.mem_unique hrow hrow'⟩

/-! ### What no step takes back -/

/-- What stays true of a stored row: whose it is and under which name, that it is revoked, and that its
order has left the pending state. -/
structure AgentRow.Becomes (old new : AgentRow) : Prop where
  agentID : new.agentID = old.agentID
  ownerID : new.ownerID = old.ownerID
  ansName : new.ansName = old.ansName
  revoked : old.status = .revoked → new.status = .revoked
  settled : old.certOrder.state ≠ .pending → new.certOrder.state ≠ .pending

theorem AgentRow.Becomes.refl (row : AgentRow) : row.Becomes row := ⟨rfl, rfl, rfl, id, id⟩

theorem AgentRow.Becomes.trans {a b c : AgentRow} (h : a.Becomes b) (h' : b.Becomes c) : a.Becomes c where
  agentID := h'.agentID.trans h.agentID
  ownerID := h'.ownerID.trans h.ownerID
  ansName := h'.ansName.trans h.ansName
  revoked := h'.revoked ∘ h.revoked
  settled := h'.settled ∘ h.settled

/-- Every registration lives on under its key. -/
def Evolves (s t : Store) : Prop :=
  ∀ id row, (id, row) ∈ s.agents.rows → ∃ row', (id, row') ∈ t.agents.rows ∧ row.Becomes row'

theorem Evolves.refl (s : Store) : Evolves s s := fun _ row hrow => ⟨row, hrow, .refl row⟩

theorem Evolves.trans (s t u : Store) (h : Evolves s t) (h' : Evolves t u) : Evolves s u := by
  intro id row hrow
  obtain ⟨row', hrow', hto⟩ := h id row hrow
  obtain ⟨row'', hrow'', hto'⟩ := h' id row' hrow'
  exact ⟨row'', hrow'', hto.trans hto'⟩

/-! ### What a copy of a registration says about the tables -/

/-- The registration is stored under its key, with its agent id, owner and name. -/
def Known (reg : AgentRegistration) (s : Store) : Prop :=
  ∃ row, (reg.id, row) ∈ s.agents.rows ∧ row.agentID = reg.agentID ∧ row.ownerID = reg.ownerID ∧
    row.ansName = reg.ansName

/-- The stored order has left the pending state. -/
def Settled (reg : AgentRegistration) (s : Store) : Prop :=
  ∃ row, (reg.id, row) ∈ s.agents.rows ∧ row.certOrder.state ≠ .pending

/-- The registration of an agent is revoked. -/
def Revoked (agentID : String) (s : Store) : Prop :=
  ∃ id row, (id, row) ∈ s.agents.rows ∧ row.agentID = agentID ∧ row.status = .revoked

theorem Known.evolves (h : Evolves s t) (hknown : Known reg s) : Known reg t := by
  obtain ⟨row, hrow, hagent, howner, hname⟩ := hknown
  obtain ⟨row', hrow', hto⟩ := h reg.id row hrow
  exact ⟨row', hrow', hto.agentID.trans hagent, hto.ownerID.trans howner, hto.ansName.trans hname⟩

theorem Settled.evolves (h : Evolves s t) (hsettled : Settled reg s) : Settled reg t := by
  obtain ⟨row, hrow, horder⟩ := hsettled
  obtain ⟨row', hrow', hto⟩ := h reg.id row hrow
  exact ⟨row', hrow', hto.settled horder⟩

theorem Revoked.evolves {agentID : String} (h : Evolves s t) (hrevoked : Revoked agentID s) : Revoked agentID t := by
  obtain ⟨id, row, hrow, hagent, hstatus⟩ := hrevoked
  obtain ⟨row', hrow', hto⟩ := h id row hrow
  exact ⟨id, row', hrow', hto.agentID.trans hagent, hto.revoked hstatus⟩

/-- A stored key is never zero, which marks a registration that is not stored yet. -/
theorem Known.id_ne_zero (h : Known reg s) : reg.id ≠ 0 := by
  obtain ⟨row, hrow, _⟩ := h
  exact Nat.pos_iff_ne_zero.mp (s.agents.bounded _ hrow).1

/-- A copy that was just read is known. -/
theorem Known.of_stored {row : AgentRow} (hrow : (reg.id, row) ∈ s.agents.rows)
    (hdomain : row.toDomain reg.id = reg) : Known reg s := by
  refine ⟨row, hrow, ?_⟩
  rw [← hdomain]
  exact ⟨rfl, rfl, rfl⟩

/-! ### What a call requires -/

/-- What the program that makes a call has made sure of.  `VerifyACME` saves a copy that waits for domain
validation or for its records, `VerifyDNS` an activated one, `cancelPending` a cancelled one; none of them
knows the status the stored row has by then.  A worker does not record an empty log id. -/
def Pre : Call → Store → Prop
  | .register reg, _ => reg.id = 0 ∧ reg.status = .pendingValidation
  | .saveAgent reg, s => Known reg s ∧ reg.status = .pendingValidation ∧ reg.certOrder.state ≠ .pending
  | .commitACME reg _ _, s => Known reg s ∧ reg.status = .pendingDNS ∧ reg.certOrder.state ≠ .pending
  | .commitActivation reg _, s => Known reg s ∧ reg.status = .active ∧ reg.certOrder.state ≠ .pending
  | .commitCancellation reg _, s =>
    Known reg s ∧ reg.status = .revoked ∧ reg.certOrder.state ≠ .pending ∧ Settled reg s
  | .delivery (.markSent _ _ logID), _ => logID ≠ ""
  | _, _ => True

end AgentNameService.Registration
