/-
Purpose: Transactions: computations on a state that either commit a new state or fail and leave the state
  as it was.  A preorder on states that every write respects is respected by the whole transaction.
Trusted boundary: none
-/
import AgentNameService.Foundation.Outcome

/-- A transaction on `σ`; a failure discards every write made before it. -/
abbrev Tx (σ ε : Type) := StateT σ (Except ε)

namespace Tx

open Tx List

variable {σ ε α β : Type}

/-- Evaluate a query on the current state. -/
def reads (f : σ → α) : Tx σ ε α := fun s => .ok (f s, s)

/-- Apply a write to the current state. -/
def writes (f : σ → σ) : Tx σ ε Unit := fun s => .ok ((), f s)

/-- Fail with an error. -/
def abort (e : ε) : Tx σ ε α := fun _ => .error e

/-- Go on with a value that was computed outside the state, or fail with its error. -/
def ofExcept (x : Except ε α) : Tx σ ε α := fun s => x.map fun a => (a, s)

/-- Fail unless a condition holds. -/
def require (condition : Prop) [Decidable condition] (failure : ε) : Tx σ ε Unit :=
  if condition then pure () else abort failure

/-- Run a step for every element of a list, in order. -/
def forEach (items : List α) (step : α → Tx σ ε Unit) : Tx σ ε Unit :=
  match items with
  | [] => pure ()
  | a :: rest => do
      step a
      forEach rest step

variable {s t : σ} {a : α} {b : β} {x : Tx σ ε α} {condition : Prop} {u : Unit}

@[simp] theorem run_bind_eq_ok_iff {f : α → Tx σ ε β} :
    (x >>= f) s = .ok (b, t) ↔ ∃ a u, x s = .ok (a, u) ∧ f a u = .ok (b, t) := by
  change (x s >>= fun p => f p.1 p.2) = .ok (b, t) ↔ _
  rw [Except.bind_eq_ok_iff]
  constructor
  · rintro ⟨⟨a, u⟩, hx, hf⟩
    exact ⟨a, u, hx, hf⟩
  · rintro ⟨a, u, hx, hf⟩
    exact ⟨(a, u), hx, hf⟩

@[simp] theorem run_pure_eq_ok_iff {a' : α} : (pure a : Tx σ ε α) s = .ok (a', t) ↔ a = a' ∧ s = t := by
  change (Except.ok (a, s) : Except ε (α × σ)) = .ok (a', t) ↔ _
  simp

@[simp] theorem run_get_eq_ok_iff {u : σ} : (get : Tx σ ε σ) s = .ok (u, t) ↔ s = u ∧ s = t := by
  change (Except.ok (s, s) : Except ε (σ × σ)) = .ok (u, t) ↔ _
  simp

@[simp] theorem run_set_eq_ok_iff {u : σ} {v : PUnit} : (set u : Tx σ ε PUnit) s = .ok (v, t) ↔ u = t := by
  change (Except.ok (PUnit.unit, u) : Except ε (PUnit × σ)) = .ok (v, t) ↔ _
  simp

@[simp] theorem run_map_eq_ok_iff {f : α → β} : (f <$> x) s = .ok (b, t) ↔ ∃ a, x s = .ok (a, t) ∧ f a = b := by
  change (x >>= fun a => pure (f a)) s = .ok (b, t) ↔ _
  simp only [run_bind_eq_ok_iff, run_pure_eq_ok_iff]
  constructor
  · rintro ⟨a, u, hx, hb, rfl⟩
    exact ⟨a, hx, hb⟩
  · rintro ⟨a, hx, hb⟩
    exact ⟨a, t, hx, hb, rfl⟩

@[simp] theorem run_discard_eq_ok_iff {u : PUnit} :
    (discard x : Tx σ ε PUnit) s = .ok (u, t) ↔ ∃ a, x s = .ok (a, t) := by
  change ((fun _ => PUnit.unit) <$> x) s = .ok (u, t) ↔ _
  simp

@[simp] theorem run_reads_eq_ok_iff {f : σ → α} : (reads f : Tx σ ε α) s = .ok (a, t) ↔ f s = a ∧ s = t := by
  simp [reads]

@[simp] theorem run_writes_eq_ok_iff {f : σ → σ} : (writes f : Tx σ ε Unit) s = .ok (u, t) ↔ f s = t := by
  simp [writes]

@[simp] theorem run_abort_ne_ok {e : ε} : (abort e : Tx σ ε α) s = .ok (a, t) ↔ False := by
  simp [abort]

@[simp] theorem run_ofExcept_eq_ok_iff {x : Except ε α} :
    (ofExcept x : Tx σ ε α) s = .ok (a, t) ↔ x = .ok a ∧ s = t := by
  cases x <;> simp [ofExcept, Except.map]

@[simp] theorem run_require_eq_ok_iff [Decidable condition] {failure : ε} :
    (require condition failure : Tx σ ε Unit) s = .ok (u, t) ↔ condition ∧ s = t := by
  unfold require
  split <;> simp_all

@[simp] theorem run_ite_eq_ok_iff [Decidable condition] {y : Tx σ ε α} :
    (if condition then x else y) s = .ok (a, t) ↔
      (condition ∧ x s = .ok (a, t)) ∨ (¬ condition ∧ y s = .ok (a, t)) := by
  split <;> simp_all

/-! ### Steps of a sequence -/

section Sequence

variable {f : α → Tx σ ε β} {g : Unit → Tx σ ε β}

theorem run_require_bind [Decidable condition] {failure : ε} :
    (require condition failure >>= g) s = .ok (b, t) ↔ condition ∧ g () s = .ok (b, t) := by
  unfold require
  split <;> simp_all

theorem run_reads_bind {query : σ → α} : (reads query >>= f) s = .ok (b, t) ↔ f (query s) s = .ok (b, t) := Iff.rfl

theorem run_writes_bind {write : σ → σ} : (writes write >>= g) s = .ok (b, t) ↔ g () (write s) = .ok (b, t) := Iff.rfl

theorem run_ofExcept_bind {x : Except ε α} :
    (ofExcept x >>= f) s = .ok (b, t) ↔ ∃ a, x = .ok a ∧ f a s = .ok (b, t) := by
  simp

theorem run_discard_bind {g : PUnit → Tx σ ε β} :
    (discard x >>= g) s = .ok (b, t) ↔ ∃ a u, x s = .ok (a, u) ∧ g () u = .ok (b, t) := by
  simp only [run_bind_eq_ok_iff, run_discard_eq_ok_iff]
  constructor
  · rintro ⟨_, u, ⟨a, hx⟩, hg⟩
    exact ⟨a, u, hx, hg⟩
  · rintro ⟨a, u, hx, hg⟩
    exact ⟨(), u, ⟨a, hx⟩, hg⟩

/-- A step for a value that may be there. -/
theorem run_optional {value : Option α} {step : α → Tx σ ε Unit}
    (h : forEach value.toList step s = .ok (u, t)) : (value = none ∧ s = t) ∨ ∃ a, value = some a ∧ step a s = .ok (u, t) := by
  cases value with
  | none => exact .inl ⟨rfl, (run_pure_eq_ok_iff.mp h).2⟩
  | some a =>
    obtain ⟨_, v, hstep, hnil⟩ := run_bind_eq_ok_iff.mp h
    obtain rfl := (run_pure_eq_ok_iff.mp hnil).2
    exact .inr ⟨a, rfl, hstep⟩

end Sequence

/-! ### Relations a transaction respects -/

/-- Whenever the transaction commits, the old and the new state are related. -/
def Keeps (R : σ → σ → Prop) (x : Tx σ ε α) : Prop := ∀ s a t, x s = .ok (a, t) → R s t

namespace Keeps

variable {R : σ → σ → Prop}

theorem of_unchanged (refl : ∀ s, R s s) (h : ∀ s a t, x s = .ok (a, t) → s = t) : Keeps R x := by
  intro s a t hx
  rw [h s a t hx]
  exact refl t

theorem pure (refl : ∀ s, R s s) (a : α) : Keeps R (pure a : Tx σ ε α) :=
  of_unchanged refl fun _ _ _ h => (run_pure_eq_ok_iff.mp h).2

theorem reads (refl : ∀ s, R s s) (f : σ → α) : Keeps R (reads f : Tx σ ε α) :=
  of_unchanged refl fun _ _ _ h => (run_reads_eq_ok_iff.mp h).2

theorem ofExcept (refl : ∀ s, R s s) (x : Except ε α) : Keeps R (ofExcept x : Tx σ ε α) :=
  of_unchanged refl fun _ _ _ h => (run_ofExcept_eq_ok_iff.mp h).2

theorem require (refl : ∀ s, R s s) (condition : Prop) [Decidable condition] (failure : ε) :
    Keeps R (require condition failure : Tx σ ε Unit) :=
  of_unchanged refl fun _ _ _ h => (run_require_eq_ok_iff.mp h).2

theorem ite [Decidable condition] {y : Tx σ ε α} (hx : Keeps R x) (hy : Keeps R y) :
    Keeps R (if condition then x else y) := by
  split
  · exact hx
  · exact hy

theorem bind (trans : ∀ s t u, R s t → R t u → R s u) {f : α → Tx σ ε β}
    (hx : Keeps R x) (hf : ∀ a, Keeps R (f a)) : Keeps R (x >>= f) := by
  intro s b t h
  obtain ⟨a, u, hxu, hft⟩ := run_bind_eq_ok_iff.mp h
  exact trans s u t (hx s a u hxu) (hf a u b t hft)

theorem forEach (refl : ∀ s, R s s) (trans : ∀ s t u, R s t → R t u → R s u) {items : List α}
    {step : α → Tx σ ε Unit} (hstep : ∀ a ∈ items, Keeps R (step a)) : Keeps R (forEach items step) := by
  induction items with
  | nil => exact pure refl ()
  | cons a rest ih =>
    apply bind trans (hstep a mem_cons_self)
    intro _
    exact ih fun b hb => hstep b (mem_cons_of_mem a hb)

end Keeps

end Tx
