/-
Purpose: Inversion of computations that may fail: what a successful sequence of steps says about each
  of its steps, and context added to an error on the way out.
Trusted boundary: none
-/
import Mathlib.Data.List.Basic

namespace Except

variable {ε α β : Type} {x : Except ε α} {a : α}

@[simp] theorem bind_eq_ok_iff {f : α → Except ε β} {b : β} :
    (x >>= f) = .ok b ↔ ∃ a, x = .ok a ∧ f a = .ok b := by
  cases x with
  | error e =>
    constructor
    · intro h
      cases h
    · rintro ⟨a, h, _⟩
      cases h
  | ok a =>
    constructor
    · intro h
      exact ⟨a, rfl, h⟩
    · rintro ⟨a', h, h'⟩
      cases h
      exact h'

@[simp] theorem pure_eq_ok_iff {b : α} : (pure a : Except ε α) = .ok b ↔ a = b := by
  constructor
  · intro h
    exact Except.ok.inj h
  · rintro rfl
    rfl

@[simp] theorem map_eq_ok_iff {f : α → β} {b : β} : f <$> x = .ok b ↔ ∃ a, x = .ok a ∧ f a = b := by
  cases x <;> simp [Functor.map, Except.map]

@[simp] theorem mapError_eq_ok_iff {δ : Type*} {f : ε → δ} : x.mapError f = .ok a ↔ x = .ok a := by
  cases x <;> simp [Except.mapError]

/-- Put the caller's context in front of an error text. -/
def withContext (context : String) (x : Except String α) : Except String α :=
  x.mapError fun text => context ++ ": " ++ text

@[simp] theorem withContext_eq_ok_iff {context : String} {x : Except String α} :
    x.withContext context = .ok a ↔ x = .ok a := by
  cases x <;> simp [withContext, Except.mapError]

/-- Fail unless a condition holds. -/
def require (condition : Prop) [Decidable condition] (failure : ε) : Except ε Unit :=
  if condition then .ok () else .error failure

@[simp] theorem require_eq_ok_iff {condition : Prop} [Decidable condition] {failure : ε} {u : Unit} :
    Except.require condition failure = .ok u ↔ condition := by
  unfold require
  split <;> simp_all

/-- A loop ends well when every round does. -/
theorem forM_eq_ok_iff {items : List α} {step : α → Except ε Unit} {u : Unit} :
    items.forM step = .ok u ↔ ∀ a ∈ items, step a = .ok () := by
  induction items with
  | nil => simp [List.forM, pure, Except.pure]
  | cons a rest ih =>
    have hbind : (a :: rest).forM step = step a >>= fun _ => rest.forM step := rfl
    rw [hbind, bind_eq_ok_iff, List.forall_mem_cons, ← ih]
    constructor
    · rintro ⟨_, hstep, hrest⟩
      exact ⟨hstep, hrest⟩
    · rintro ⟨hstep, hrest⟩
      exact ⟨(), hstep, hrest⟩

/-- A loop that collects has the result of each round. -/
theorem of_mapM_eq_ok {items : List α} {step : α → Except ε β} {results : List β} (h : items.mapM step = .ok results)
    {b : β} (hround : (a, b) ∈ items.zip results) : step a = .ok b := by
  induction items generalizing results with
  | nil => cases hround
  | cons first rest ih =>
    simp only [List.mapM_cons, bind_eq_ok_iff, pure_eq_ok_iff] at h
    obtain ⟨result, hfirst, more, hmore, rfl⟩ := h
    rcases List.mem_cons.mp hround with heq | hrest
    · cases heq
      exact hfirst
    · exact ih hmore hrest

end Except
