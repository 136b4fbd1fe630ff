/-
Purpose: Concurrent programs over a shared state.  A program is a tree of atomic calls on the state and of
  questions to the world outside; a pool runs any number of programs, one call at a time, in any order,
  with any answers and with calls that fail.  The proof rule is rely and guarantee: every call keeps an
  invariant and moves the state along a preorder, so what a program learnt and the interference respects is
  still true when the program goes on.
Trusted boundary: none
-/
import Mathlib.Data.List.Basic

namespace Interleaving

open List

/-- Atomic calls on a shared state, and the questions programs put to the outside world.  A call also
reads an input from outside the state, such as the clock; a failed call leaves the state as it was. -/
structure Interface where
  State : Type
  Err : Type
  Input : Type
  Call : Type
  Reply : Call → Type
  exec : (c : Call) → Input → State → Except Err (Reply c × State)
  Query : Type
  Answer : Query → Type

/-- A program: a result, or an atomic call or a question and how to go on. -/
inductive Prog (M : Interface) (α : Type) : Type
  | ret (result : Except M.Err α)
  | call (c : M.Call) (next : Except M.Err (M.Reply c) → Prog M α)
  | ask (q : M.Query) (next : M.Answer q → Prog M α)

namespace Prog

variable {M : Interface} {α β : Type}

/-- Run a program and go on with its result; an error ends the whole. -/
def bind : Prog M α → (α → Prog M β) → Prog M β
  | .ret (.ok a), f => f a
  | .ret (.error e), _ => .ret (.error e)
  | .call c next, f => .call c fun r => (next r).bind f
  | .ask q next, f => .ask q fun a => (next a).bind f

instance : Monad (Prog M) where
  pure a := .ret (.ok a)
  bind := Prog.bind

/-- End with an error. -/
def fail (e : M.Err) : Prog M α := .ret (.error e)

/-- End with an error, or go on with a value. -/
def lift (result : Except M.Err α) : Prog M α := .ret result

/-- Make a call; its error ends the program. -/
def perform (c : M.Call) : Prog M (M.Reply c) := .call c .ret

/-- Make a call and go on with its outcome, whatever it is. -/
def attempt (c : M.Call) : Prog M (Except M.Err (M.Reply c)) := .call c fun r => .ret (.ok r)

/-- Put a question to the outside world. -/
def query (q : M.Query) : Prog M (M.Answer q) := .ask q fun a => .ret (.ok a)

/-- Run a program for every element of a list, in order. -/
def forEach (items : List β) (step : β → Prog M Unit) : Prog M Unit :=
  match items with
  | [] => pure ()
  | b :: rest => do
      step b
      forEach rest step

end Prog

/-! ### Which calls a program can make -/

/-- Whatever the replies and answers, the program only makes calls of a kind and ends with an error or a
result of a kind. -/
def Prog.Calls {M : Interface} {α : Type} (A : M.Call → Prop) (R : α → Prop) : Prog M α → Prop
  | .ret (.ok a) => R a
  | .ret (.error _) => True
  | .call c next => A c ∧ ∀ r, (next r).Calls A R
  | .ask _ next => ∀ a, (next a).Calls A R

namespace Prog.Calls

variable {M : Interface} {α β : Type} {A : M.Call → Prop} {G : α → Prop} {R : β → Prop}

theorem of_ret (result : Except M.Err α) : (Prog.ret result : Prog M α).Calls A fun _ => True := by
  cases result <;> trivial

theorem of_forall (hA : ∀ c, A c) (p : Prog M α) : p.Calls A fun _ => True := by
  induction p with
  | ret result => exact of_ret result
  | call c next ih => exact ⟨hA c, ih⟩
  | ask q next ih => exact ih

theorem mono {B : M.Call → Prop} {p : Prog M α} (h : p.Calls A G) (hAB : ∀ c, A c → B c) : p.Calls B G := by
  induction p with
  | ret result =>
    cases result with
    | error e => trivial
    | ok a => exact h
  | call c next ih => exact ⟨hAB c h.1, fun r => ih r (h.2 r)⟩
  | ask q next ih => exact fun a => ih a (h a)

theorem bind {p : Prog M α} {f : α → Prog M β} (hp : p.Calls A G) (hf : ∀ a, G a → (f a).Calls A R) :
    (p >>= f).Calls A R := by
  change (p.bind f).Calls A R
  induction p with
  | ret result =>
    cases result with
    | error e => trivial
    | ok a => exact hf a hp
  | call c next ih => exact ⟨hp.1, fun r => ih r (hp.2 r)⟩
  | ask q next ih => exact fun a => ih a (hp a)

theorem perform {c : M.Call} {f : M.Reply c → Prog M β} (hc : A c) (hf : ∀ r, (f r).Calls A R) :
    (Prog.perform c >>= f).Calls A R := by
  refine ⟨hc, ?_⟩
  intro r
  cases r with
  | error e => trivial
  | ok r => exact hf r

theorem attempt {c : M.Call} {f : Except M.Err (M.Reply c) → Prog M β} (hc : A c)
    (hf : ∀ r, (f r).Calls A R) : (Prog.attempt c >>= f).Calls A R :=
  ⟨hc, hf⟩

theorem query {q : M.Query} {f : M.Answer q → Prog M β} (hf : ∀ a, (f a).Calls A R) : (Prog.query q >>= f).Calls A R :=
  hf

theorem lift {result : Except M.Err α} {f : α → Prog M β} (hf : ∀ a, result = .ok a → (f a).Calls A R) :
    (Prog.lift result >>= f).Calls A R := by
  cases result with
  | error e => trivial
  | ok a => exact hf a rfl

theorem forEach {items : List β} {step : β → Prog M Unit}
    (hstep : ∀ b ∈ items, (step b).Calls A fun _ => True) : (Prog.forEach items step).Calls A fun _ => True := by
  induction items with
  | nil => trivial
  | cons b rest ih =>
    apply bind (hstep b mem_cons_self)
    intro _ _
    exact ih fun b' hb' => hstep b' (mem_cons_of_mem b hb')

end Prog.Calls

/-! ### Pools of programs -/

/-- The operations a service offers: each request runs its own program. -/
structure Service (M : Interface) where
  Op : Type
  Out : Type
  body : Op → Prog M Out
  init : M.State

variable {M : Interface}

/-- A shared state and the requests made so far, each with what is left of its program. -/
structure Pool (S : Service M) where
  state : M.State
  threads : List (S.Op × Prog M S.Out)

/-- One step of a schedule.  A call may also fail for a reason outside the model. -/
inductive Move (S : Service M)
  | spawn (op : S.Op)
  | perform (i : Nat) (input : M.Input)
  | fault (i : Nat) (e : M.Err)
  | answer (i : Nat) (world : (q : M.Query) → M.Answer q)

namespace Pool

variable {S : Service M}

/-- Before the first request. -/
def start (S : Service M) : Pool S where
  state := S.init
  threads := []

/-- A new request starts with its whole program. -/
def spawn (p : Pool S) (op : S.Op) : Pool S := { p with threads := p.threads ++ [(op, S.body op)] }

/-- Replace the program of one thread. -/
def resume (p : Pool S) (i : Nat) (op : S.Op) (rest : Prog M S.Out) : Pool S :=
  { p with threads := p.threads.set i (op, rest) }

/-- Make one move, if the schedule names a thread that can make it. -/
def step (p : Pool S) : Move S → Option (Pool S)
  | .spawn op => some (p.spawn op)
  | .perform i input =>
    match p.threads[i]? with
    | some (op, .call c next) =>
      match M.exec c input p.state with
      | .ok (r, s) => some { p.resume i op (next (.ok r)) with state := s }
      | .error e => some (p.resume i op (next (.error e)))
    | _ => none
  | .fault i e =>
    match p.threads[i]? with
    | some (op, .call _ next) => some (p.resume i op (next (.error e)))
    | _ => none
  | .answer i world =>
    match p.threads[i]? with
    | some (op, .ask q next) => some (p.resume i op (next (world q)))
    | _ => none

/-- The call a move makes. -/
def callOf (p : Pool S) : Move S → Option M.Call
  | .perform i _ =>
    match p.threads[i]? with
    | some (_, .call c _) => some c
    | _ => none
  | _ => none

/-- Let one thread make up to a number of moves, with one input and one world, as long as its calls are
admitted. -/
def driveWhile (admits : M.Call → M.State → Bool) (p : Pool S) (i : Nat) (input : M.Input)
    (world : (q : M.Query) → M.Answer q) : Nat → Pool S
  | 0 => p
  | moves + 1 =>
    match p.step (.perform i input) with
    | some q =>
      if (p.callOf (.perform i input)).all (admits · p.state) then
        q.driveWhile admits i input world moves
      else p
    | none =>
      match p.step (.answer i world) with
      | some q => q.driveWhile admits i input world moves
      | none => p

/-- What holds of a pool and is kept by every admitted step holds after the run of one thread. -/
theorem driveWhile_induction {admits : M.Call → M.State → Bool} {C : Pool S → Prop}
    (hstep : ∀ {p q : Pool S} {m : Move S}, C p → (∀ c, p.callOf m = some c → admits c p.state = true) →
      p.step m = some q → C q)
    {p : Pool S} (h : C p) (i : Nat) (input : M.Input) (world : (q : M.Query) → M.Answer q) (moves : Nat) :
    C (p.driveWhile admits i input world moves) := by
  induction moves generalizing p with
  | zero => exact h
  | succ moves ih =>
    unfold driveWhile
    split
    · rename_i q hperform
      split
      · rename_i hadmitted
        refine ih (hstep h ?_ hperform)
        intro c hcall
        rw [hcall] at hadmitted
        exact hadmitted
      · exact h
    · split
      · rename_i q hanswer
        exact ih (hstep h (fun _ hcall => by cases hcall) hanswer)
      · exact h

/-- Let one thread make up to a number of moves, with one input and one world. -/
def drive : Pool S → Nat → M.Input → ((q : M.Query) → M.Answer q) → Nat → Pool S := driveWhile fun _ _ => true

end Pool

/-- The pools that some schedule reaches in which every call is made in a state that allows it. -/
inductive Reachable (S : Service M) (allows : M.Call → M.State → Prop) : Pool S → Prop
  | start : Reachable S allows (Pool.start S)
  | step {p q m} :
      Reachable S allows p → (∀ c, p.callOf m = some c → allows c p.state) → p.step m = some q → Reachable S allows q

/-- The pools that any schedule reaches. -/
abbrev Reached (S : Service M) : Pool S → Prop := Reachable S fun _ _ => True

namespace Reachable

variable {S : Service M} {allows : M.Call → M.State → Prop}

theorem spawn {p : Pool S} (h : Reachable S allows p) (op : S.Op) : Reachable S allows (p.spawn op) :=
  .step (m := .spawn op) h (fun _ hcall => by cases hcall) rfl

theorem driveWhile {admits : M.Call → M.State → Bool} (hadmits : ∀ c s, admits c s = true → allows c s)
    {p : Pool S} (h : Reachable S allows p) (i : Nat) (input : M.Input) (world : (q : M.Query) → M.Answer q)
    (moves : Nat) : Reachable S allows (p.driveWhile admits i input world moves) :=
  Pool.driveWhile_induction (fun hp hadmitted hstep =>
    .step hp (fun c hcall => hadmits c _ (hadmitted c hcall)) hstep) h i input world moves

theorem drive {p : Pool S} (h : Reached S p) (i : Nat) (input : M.Input) (world : (q : M.Query) → M.Answer q)
    (moves : Nat) : Reached S (p.drive i input world moves) :=
  h.driveWhile (fun _ _ _ => trivial) i input world moves

end Reachable

/-! ### Inversion of one move -/

/-- What a move does to a thread: `Resumes M s rest rest' t` says that `rest` went on as `rest'` and took
the shared state from `s` to `t`. -/
inductive Resumes (M : Interface) {Out : Type} (s : M.State) : Prog M Out → Prog M Out → M.State → Prop
  | replied {c next input r t} (hexec : M.exec c input s = .ok (r, t)) : Resumes M s (.call c next) (next (.ok r)) t
  | failed {c next} (e : M.Err) : Resumes M s (.call c next) (next (.error e)) s
  | answered {q next} (a : M.Answer q) : Resumes M s (.ask q next) (next a) s

namespace Pool

variable {S : Service M} {p q : Pool S} {m : Move S}

/-- A move adds a thread with its whole program, or resumes one thread. -/
theorem step_cases (h : p.step m = some q) : (∃ op, q = p.spawn op) ∨
      ∃ i op rest rest', p.threads[i]? = some (op, rest) ∧ Resumes M p.state rest rest' q.state ∧
        q.threads = p.threads.set i (op, rest') := by
  cases m with
  | spawn op =>
    cases h
    exact .inl ⟨op, rfl⟩
  | perform i input =>
    right
    simp only [step] at h
    split at h
    · rename_i op c next hthread
      split at h
      · rename_i r t hexec
        cases h
        exact ⟨i, op, _, _, hthread, .replied hexec, rfl⟩
      · rename_i e _
        cases h
        exact ⟨i, op, _, _, hthread, .failed e, rfl⟩
    · cases h
  | fault i e =>
    right
    simp only [step] at h
    split at h
    · rename_i op c next hthread
      cases h
      exact ⟨i, op, _, _, hthread, .failed e, rfl⟩
    · cases h
  | answer i world =>
    right
    simp only [step] at h
    split at h
    · rename_i op query next hthread
      cases h
      exact ⟨i, op, _, _, hthread, .answered (world query), rfl⟩
    · cases h

/-- A move that makes a call leaves the state that the call commits. -/
theorem step_commits (h : p.step m = some q) {c : M.Call} (hcall : p.callOf m = some c) :
    ∃ input, ∀ r t, M.exec c input p.state = .ok (r, t) → q.state = t := by
  cases m with
  | perform i input =>
    simp only [callOf] at hcall
    simp only [step] at h
    split at hcall
    · rename_i hthread
      cases hcall
      refine ⟨input, ?_⟩
      intro r t hexec
      simp only [hthread, hexec] at h
      cases h
      rfl
    · cases hcall
  | spawn | fault | answer => cases hcall

/-- A move that changes the state makes a call whose execution is that change. -/
theorem step_state (h : p.step m = some q) :
    q.state = p.state ∨ ∃ op c next input r, (op, .call c next) ∈ p.threads ∧ p.callOf m = some c ∧
      M.exec c input p.state = .ok (r, q.state) := by
  cases m with
  | spawn op =>
    cases h
    exact .inl rfl
  | perform i input =>
    simp only [step] at h
    split at h
    · rename_i op c next hthread
      split at h
      · rename_i r t hexec
        cases h
        refine .inr ⟨op, c, next, input, r, mem_of_getElem? hthread, ?_, hexec⟩
        simp [callOf, hthread]
      · cases h
        exact .inl rfl
    · cases h
  | fault | answer =>
    simp only [step] at h
    split at h <;> cases h
    exact .inl rfl

end Pool

/-! ### Rely and guarantee -/

/-- What every program promises and relies on.  Each call is made in a state that meets its precondition, and
such a call keeps the invariant and moves the state along the preorder `Grows`.  Between two of its calls a
program sees interference along `Rely`, which is part of `Grows`. -/
structure Discipline (M : Interface) where
  Inv : M.State → Prop
  Rely : M.State → M.State → Prop
  Grows : M.State → M.State → Prop
  Pre : M.Call → M.State → Prop
  refl : ∀ s, Rely s s
  trans : ∀ s t u, Rely s t → Rely t u → Rely s u
  grows : ∀ s t, Rely s t → Grows s t
  grows_trans : ∀ s t u, Grows s t → Grows t u → Grows s u
  keeps : ∀ c input s r t, Inv s → Pre c s → M.exec c input s = .ok (r, t) → Inv t ∧ Grows s t

/-- A property of a result and the state that interference cannot take back. -/
def Discipline.Stable (D : Discipline M) {α : Type} (Q : α → M.State → Prop) : Prop :=
  ∀ a s t, D.Rely s t → Q a s → Q a t

/-- From a state, and whatever interferes in between, the program meets the precondition of
each of its calls and ends with an error or with the postcondition. -/
def Prog.Safe (D : Discipline M) {α : Type} : Prog M α → (α → M.State → Prop) → M.State → Prop
  | .ret (.ok a), Q, s => Q a s
  | .ret (.error _), _, _ => True
  | .call c next, Q, s => ∀ t, D.Rely s t → D.Inv t →
      D.Pre c t ∧ (∀ input r u, M.exec c input t = .ok (r, u) → (next (.ok r)).Safe D Q u) ∧
        ∀ e, (next (.error e)).Safe D Q t
  | .ask _ next, Q, s => ∀ a, (next a).Safe D Q s

namespace Prog.Safe

variable {D : Discipline M} {α β : Type} {s : M.State}

/-- Interference does not make a program unsafe. -/
theorem stable {p : Prog M α} {Q : α → M.State → Prop} (hQ : D.Stable Q) {t : M.State}
    (hrely : D.Rely s t) (h : p.Safe D Q s) : p.Safe D Q t := by
  induction p with
  | ret result =>
    cases result with
    | error e => trivial
    | ok a => exact hQ a s t hrely h
  | call c next _ =>
    intro u hu hinv
    exact h u (D.trans s t u hrely hu) hinv
  | ask q next ih =>
    intro a
    exact ih a (h a)

/-- The postcondition may use that the state has moved along the preorder. -/
theorem mono {p : Prog M α} {Q Q' : α → M.State → Prop} (h : p.Safe D Q s)
    (himp : ∀ a t, D.Grows s t → Q a t → Q' a t) : p.Safe D Q' s := by
  induction p generalizing s with
  | ret result =>
    cases result with
    | error e => trivial
    | ok a => exact himp a s (D.grows s s (D.refl s)) h
  | call c next ih =>
    intro t hst hinv
    obtain ⟨hpre, hok, herr⟩ := h t hst hinv
    have hgrows := D.grows s t hst
    refine ⟨hpre, ?_, ?_⟩
    · intro input r u hexec
      have htu := (D.keeps c input t r u hinv hpre hexec).2
      apply ih (.ok r) (hok input r u hexec)
      intro a v huv
      exact himp a v (D.grows_trans s u v (D.grows_trans s t u hgrows htu) huv)
    · intro e
      apply ih (.error e) (herr e)
      intro a v htv
      exact himp a v (D.grows_trans s t v hgrows htv)
  | ask q next ih =>
    intro a
    exact ih a (h a) himp

/-- A program that goes on with the result of another. -/
theorem bind {p : Prog M α} {f : α → Prog M β} {G : α → M.State → Prop} {Q : β → M.State → Prop}
    (hp : p.Safe D G s) (hf : ∀ a t, D.Grows s t → G a t → (f a).Safe D Q t) : (p >>= f).Safe D Q s := by
  change (p.bind f).Safe D Q s
  replace hp := hp.mono hf
  clear hf
  induction p generalizing s with
  | ret result =>
    cases result with
    | error e => trivial
    | ok a => exact hp
  | call c next ih =>
    intro t hst hinv
    obtain ⟨hpre, hok, herr⟩ := hp t hst hinv
    exact ⟨hpre, fun input r u hexec => ih (.ok r) (hok input r u hexec), fun e => ih (.error e) (herr e)⟩
  | ask q next ih =>
    intro a
    exact ih a (hp a)

/-- A call whose error ends the program. -/
theorem perform {c : M.Call} {f : M.Reply c → Prog M β} {Q : β → M.State → Prop}
    (h : ∀ t, D.Rely s t → D.Inv t → D.Pre c t ∧ ∀ input r u, D.Grows s u → D.Inv u →
      M.exec c input t = .ok (r, u) → (f r).Safe D Q u) : (Prog.perform c >>= f).Safe D Q s := by
  intro t hst hinv
  obtain ⟨hpre, hnext⟩ := h t hst hinv
  refine ⟨hpre, ?_, fun _ => trivial⟩
  intro input r u hexec
  obtain ⟨hinv', htu⟩ := D.keeps c input t r u hinv hpre hexec
  exact hnext input r u (D.grows_trans s t u (D.grows s t hst) htu) hinv' hexec

/-- A call after which the program goes on whatever the outcome. -/
theorem attempt {c : M.Call} {f : Except M.Err (M.Reply c) → Prog M β} {Q : β → M.State → Prop}
    (hpre : ∀ t, D.Rely s t → D.Inv t → D.Pre c t)
    (h : ∀ t r, D.Grows s t → D.Inv t → (f r).Safe D Q t) : (Prog.attempt c >>= f).Safe D Q s := by
  intro t hst hinv
  have hgrows := D.grows s t hst
  refine ⟨hpre t hst hinv, ?_, ?_⟩
  · intro input r u hexec
    obtain ⟨hinv', htu⟩ := D.keeps c input t r u hinv (hpre t hst hinv) hexec
    exact h u (.ok r) (D.grows_trans s t u hgrows htu) hinv'
  · intro e
    exact h t (.error e) hgrows hinv

/-- A question: the answer may be anything. -/
theorem query {q : M.Query} {f : M.Answer q → Prog M β} {Q : β → M.State → Prop}
    (h : ∀ a, (f a).Safe D Q s) : (Prog.query q >>= f).Safe D Q s :=
  fun a => h a

/-- A value computed without the state. -/
theorem lift {result : Except M.Err α} {f : α → Prog M β} {Q : β → M.State → Prop}
    (h : ∀ a, result = .ok a → (f a).Safe D Q s) : (Prog.lift result >>= f).Safe D Q s := by
  cases result with
  | error e => trivial
  | ok a => exact h a rfl

/-- A program is safe where a stable property holds that meets the precondition of each of its calls. -/
theorem of_calls {G : M.State → Prop} (hstable : ∀ t u, D.Grows t u → G t → G u) (hG : G s)
    {R : α → Prop} {p : Prog M α} (h : p.Calls (fun c => ∀ t, G t → D.Pre c t) R) : p.Safe D (fun a _ => R a) s := by
  induction p generalizing s with
  | ret result =>
    cases result with
    | error e => trivial
    | ok a => exact h
  | call c next ih =>
    intro t hst hinv
    have hGt := hstable s t (D.grows s t hst) hG
    have hpre := h.1 t hGt
    refine ⟨hpre, ?_, fun e => ih (.error e) hGt (h.2 (.error e))⟩
    intro input r u hexec
    exact ih (.ok r) (hstable t u (D.keeps c input t r u hinv hpre hexec).2 hGt) (h.2 (.ok r))
  | ask q next ih => exact fun a => ih a hG (h a)

/-- A program for each element of a list: what each round establishes and no step takes back holds of all elements. -/
theorem forEach {items : List β} {step : β → Prog M Unit} {G : β → M.State → Prop}
    (hstable : ∀ b t u, D.Grows t u → G b t → G b u)
    (hstep : ∀ b ∈ items, ∀ t, D.Grows s t → (step b).Safe D (fun _ => G b) t) :
    (Prog.forEach items step).Safe D (fun _ t => ∀ b ∈ items, G b t) s := by
  induction items generalizing s with
  | nil => exact forall_mem_nil _
  | cons b rest ih =>
    apply bind (hstep b mem_cons_self s (D.grows s s (D.refl s)))
    intro _ t hst hb
    have hrest := ih fun b' hb' u htu =>
      hstep b' (mem_cons_of_mem b hb') u (D.grows_trans s t u hst htu)
    apply hrest.mono
    intro _ u htu hall
    exact forall_mem_cons.mpr ⟨hstable b t u htu hb, hall⟩

/-- One resumption keeps the invariant, moves the state along the preorder and leaves a safe program. -/
theorem resumes {Out : Type} {Q : Out → M.State → Prop} {rest rest' : Prog M Out} {s t : M.State} (hinv : D.Inv s)
    (hsafe : rest.Safe D Q s) (h : Resumes M s rest rest' t) : D.Inv t ∧ D.Grows s t ∧ rest'.Safe D Q t := by
  cases h with
  | replied hexec =>
    obtain ⟨hpre, hok, _⟩ := hsafe s (D.refl s) hinv
    obtain ⟨hinv', hrely⟩ := D.keeps _ _ _ _ _ hinv hpre hexec
    exact ⟨hinv', hrely, hok _ _ _ hexec⟩
  | failed e =>
    obtain ⟨_, _, herr⟩ := hsafe s (D.refl s) hinv
    exact ⟨hinv, D.grows s s (D.refl s), herr e⟩
  | answered a => exact ⟨hinv, D.grows s s (D.refl s), hsafe a⟩

end Prog.Safe

/-! ### What holds in every reachable pool -/

/-- Each operation of a service keeps the discipline and ends with its stable postcondition; what one call
does is interference to the other threads. -/
structure Discipline.Governs (D : Discipline M) (S : Service M) (Post : S.Op → S.Out → M.State → Prop) :
    Prop where
  init : D.Inv S.init
  guarantee : ∀ s t, D.Grows s t → D.Rely s t
  stable : ∀ op, D.Stable (Post op)
  body : ∀ op s, D.Inv s → (S.body op).Safe D (Post op) s

namespace Discipline.Governs

variable {D : Discipline M} {S : Service M} {Post : S.Op → S.Out → M.State → Prop}
  {allows : M.Call → M.State → Prop} {p : Pool S}

/-- In every reachable pool the invariant holds and every thread is safe from the current state. -/
theorem sound (hD : D.Governs S Post) (h : Reachable S allows p) :
    D.Inv p.state ∧ ∀ thread ∈ p.threads, thread.2.Safe D (Post thread.1) p.state := by
  induction h with
  | start => exact ⟨hD.init, fun thread hmem => absurd hmem not_mem_nil⟩
  | step _ _ hstep ih =>
    obtain ⟨hinv, hsafe⟩ := ih
    rcases Pool.step_cases hstep with ⟨op, rfl⟩ | ⟨i, op, rest, rest', hthread, hres, hthreads⟩
    · refine ⟨hinv, ?_⟩
      intro thread hmem
      rcases mem_append.mp hmem with hold | hnew
      · exact hsafe thread hold
      · rw [mem_singleton] at hnew
        rw [hnew]
        exact hD.body op _ hinv
    · obtain ⟨hinv', hgrows, hrest'⟩ :=
        (hsafe (op, rest) (mem_of_getElem? hthread)).resumes hinv hres
      refine ⟨hinv', ?_⟩
      intro thread hmem
      rw [hthreads] at hmem
      rcases mem_or_eq_of_mem_set hmem with hold | hnew
      · exact (hsafe thread hold).stable (hD.stable thread.1) (hD.guarantee _ _ hgrows)
      · rw [hnew]
        exact hrest'

/-- A thread that is about to make a call meets the call's precondition. -/
theorem pre (hD : D.Governs S Post) (h : Reachable S allows p) {op : S.Op} {c : M.Call}
    {next : Except M.Err (M.Reply c) → Prog M S.Out} (hmem : (op, .call c next) ∈ p.threads) : D.Pre c p.state := by
  obtain ⟨hinv, hsafe⟩ := hD.sound h
  exact (hsafe _ hmem p.state (D.refl _) hinv).1

/-- The call that a move makes meets its precondition. -/
theorem pre_of_callOf (hD : D.Governs S Post) (h : Reachable S allows p) {m : Move S} {c : M.Call}
    (hcall : p.callOf m = some c) : D.Pre c p.state := by
  cases m with
  | perform i input =>
    simp only [Pool.callOf] at hcall
    split at hcall
    · rename_i hthread
      cases hcall
      exact hD.pre h (mem_of_getElem? hthread)
    · cases hcall
  | spawn | fault | answer => cases hcall

/-- A thread that has ended with a result has established its postcondition, and it still holds. -/
theorem post (hD : D.Governs S Post) (h : Reachable S allows p) {op : S.Op} {out : S.Out}
    (hmem : (op, .ret (.ok out)) ∈ p.threads) : Post op out p.state :=
  (hD.sound h).2 _ hmem

/-- Every change of the state is one call, made in a state that meets its precondition. -/
theorem step_state (hD : D.Governs S Post) (h : Reachable S allows p) {m : Move S} {q : Pool S}
    (hstep : p.step m = some q) :
    q.state = p.state ∨ ∃ c input r, p.callOf m = some c ∧ D.Inv p.state ∧ D.Pre c p.state ∧
      M.exec c input p.state = .ok (r, q.state) := by
  rcases Pool.step_state hstep with hsame | ⟨op, c, next, input, r, hmem, hcall, hexec⟩
  · exact .inl hsame
  · exact .inr ⟨c, input, r, hcall, (hD.sound h).1, hD.pre h hmem, hexec⟩

/-- A property of the state that every allowed call keeps holds in every reachable pool. -/
theorem invariant (hD : D.Governs S Post) {J : M.State → Prop} (hinit : J S.init)
    (hkeep : ∀ c input s r t, D.Inv s → D.Pre c s → allows c s → J s →
      M.exec c input s = .ok (r, t) → J t) (h : Reachable S allows p) : J p.state := by
  induction h with
  | start => exact hinit
  | step hreach hallows hstep ih =>
    rcases hD.step_state hreach hstep with hsame | ⟨c, input, r, hcall, hinv, hpre, hexec⟩
    · rw [hsame]
      exact ih
    · exact hkeep c input _ r _ hinv hpre (hallows c hcall) ih hexec

end Discipline.Governs

end Interleaving
