/-
Purpose: A service behind a gate.  One request at a time runs its program; between two of its steps the world may act
  on the state by itself, calls may fail, and the process may be stopped at any point, which loses the request that
  holds the gate and whatever is kept in memory.  The proof rule is rely and guarantee with the world as the only
  interference.
Trusted boundary: none
-/
import AgentNameService.Foundation.Interleaving

namespace Interleaving

open Except List

variable {M : Interface}

/-! ### Programs that clean up -/

/-- Run a program and go on with its outcome, whatever it is. -/
def Prog.outcome {α : Type} : Prog M α → Prog M (Except M.Err α)
  | .ret result => .ret (.ok result)
  | .call c next => .call c fun r => (next r).outcome
  | .ask q next => .ask q fun a => (next a).outcome

theorem Prog.Calls.outcome {α : Type} {A : M.Call → Prop} {R : α → Prop} {p : Prog M α} (h : p.Calls A R) :
    p.outcome.Calls A fun _ => True := by
  induction p with
  | ret result => trivial
  | call c next ih => exact ⟨h.1, fun r => ih r (h.2 r)⟩
  | ask q next ih => exact fun a => ih a (h a)

/-- After a failure nothing is known of a program's state but what none of its calls takes back. -/
theorem Prog.Safe.outcome {α : Type} {D : Discipline M} {G : M.State → Prop} (hG : ∀ s t, D.Rely s t → G s → G t)
    {Q : α → M.State → Prop} {R : α → Prop} {p : Prog M α} {s : M.State} (h : p.Safe D Q s) (hs : G s)
    (hkeeps : p.Calls (fun c => ∀ input t r u, G t → M.exec c input t = .ok (r, u) → G u) R) :
    p.outcome.Safe D (fun result t => G t ∧ ∀ a, result = .ok a → Q a t) s := by
  induction p generalizing s with
  | ret result =>
    cases result with
    | error e => exact ⟨hs, nofun⟩
    | ok a =>
      refine ⟨hs, ?_⟩
      intro b hb
      cases hb
      exact h
  | call c next ih =>
    intro t hst hinv
    obtain ⟨hpre, hreply, hfault⟩ := h t hst hinv
    have ht := hG s t hst hs
    refine ⟨hpre, ?_, ?_⟩
    · intro input r u hexec
      exact ih (.ok r) (hreply input r u hexec) (hkeeps.1 input t r u ht hexec) (hkeeps.2 (.ok r))
    · intro e
      exact ih (.error e) (hfault e) ht (hkeeps.2 (.error e))
  | ask q next ih => exact fun a => ih a (h a) hs (hkeeps a)

/-! ### Programs that run by themselves -/

namespace Prog

variable {α β : Type} {input : M.Input} {world : (q : M.Query) → M.Answer q} {s t : M.State}

/-- What a program comes to when nothing else happens and no call fails for a reason outside the model. -/
def alone (input : M.Input) (world : (q : M.Query) → M.Answer q) : Prog M α → M.State → Except M.Err α × M.State
  | .ret result, s => (result, s)
  | .call c next, s =>
    match M.exec c input s with
    | .ok (r, t) => (next (.ok r)).alone input world t
    | .error e => (next (.error e)).alone input world s
  | .ask q next, s => (next (world q)).alone input world s

theorem alone_bind (p : Prog M α) (f : α → Prog M β) (s : M.State) :
    (p >>= f).alone input world s =
      match p.alone input world s with
      | (.ok a, t) => (f a).alone input world t
      | (.error e, t) => (.error e, t) := by
  change (p.bind f).alone input world s = _
  induction p generalizing s with
  | ret result => cases result <;> rfl
  | call c next ih =>
    simp only [bind, alone]
    split <;> exact ih _ _
  | ask q next ih => exact ih _ _

theorem alone_outcome (p : Prog M α) (s : M.State) :
    p.outcome.alone input world s = (.ok (p.alone input world s).1, (p.alone input world s).2) := by
  induction p generalizing s with
  | ret result => rfl
  | call c next ih =>
    simp only [outcome, alone]
    split <;> exact ih _ _
  | ask q next ih => exact ih _ _

/-- Run by itself, the program ends well, with a result and in a state. -/
def Ends (input : M.Input) (world : (q : M.Query) → M.Answer q) (p : Prog M α) (s : M.State) (a : α) (t : M.State) : Prop :=
  p.alone input world s = (.ok a, t)

/-- A sequence ends well when both of its parts do. -/
theorem ends_bind_iff {p : Prog M α} {f : α → Prog M β} {b : β} :
    (p >>= f).Ends input world s b t ↔ ∃ a u, p.Ends input world s a u ∧ (f a).Ends input world u b t := by
  unfold Ends
  rw [alone_bind]
  obtain ⟨result, u⟩ := p.alone input world s
  cases result with
  | error e => simp
  | ok a =>
    constructor
    · intro h
      exact ⟨a, u, rfl, h⟩
    · rintro ⟨_, _, heq, h⟩
      cases heq
      exact h

theorem ends_pure_iff {a b : α} : (pure a : Prog M α).Ends input world s b t ↔ b = a ∧ t = s := by
  change (ok a, s) = (ok b, t) ↔ _
  rw [Prod.mk.injEq, ok.injEq]
  exact and_congr eq_comm eq_comm

theorem ends_lift_iff {result : Except M.Err α} {a : α} : (lift result).Ends input world s a t ↔ result = .ok a ∧ t = s := by
  unfold Ends
  rw [lift, alone, Prod.mk.injEq]
  exact and_congr_right fun _ => eq_comm

theorem ends_perform_iff {c : M.Call} {r : M.Reply c} :
    (perform c).Ends input world s r t ↔ M.exec c input s = .ok (r, t) := by
  unfold Ends
  rw [perform, alone]
  split
  · rename_i heq
    rw [heq, alone, ok.injEq, Prod.mk.injEq, Prod.mk.injEq, ok.injEq]
  · rename_i heq
    rw [heq, alone]
    simp

theorem ends_outcome_iff {p : Prog M α} {result : Except M.Err α} :
    p.outcome.Ends input world s result t ↔ p.alone input world s = (result, t) := by
  unfold Ends
  rw [alone_outcome]
  obtain ⟨other, u⟩ := p.alone input world s
  simp

end Prog

/-! ### Gates -/

/-- What befalls a service from outside: which calls may fail for a reason outside the model, what the world may do
to the state by itself, and what a restart leaves of the state. -/
structure Setting (M : Interface) where
  fallible : M.Call → Bool
  Happening : Type
  happen : Happening → M.State → Option M.State
  restart : M.State → M.State

/-- The state, the request that holds the gate with what is left of its program, and the answers given so far. -/
structure Gate (S : Service M) where
  state : M.State
  holder : Option (S.Op × Prog M S.Out)
  answers : List (S.Op × S.Out)

/-- One step of a run. -/
inductive GateMove (S : Service M) (E : Setting M)
  | enter (op : S.Op)
  | perform (input : M.Input)
  | fault (e : M.Err)
  | answer (world : (q : M.Query) → M.Answer q)
  | leave
  | happen (what : E.Happening)
  | restart

namespace Gate

variable {S : Service M} {E : Setting M}

/-- Before the first request. -/
def start (S : Service M) : Gate S where
  state := S.init
  holder := none
  answers := []

/-- Make one move, if it can be made. -/
def step (g : Gate S) : GateMove S E → Option (Gate S)
  | .enter op =>
    match g.holder with
    | none => some { g with holder := some (op, S.body op) }
    | some _ => none
  | .perform input =>
    match g.holder with
    | some (op, .call c next) =>
      match M.exec c input g.state with
      | .ok (r, s) => some { g with state := s, holder := some (op, next (.ok r)) }
      | .error e => some { g with holder := some (op, next (.error e)) }
    | _ => none
  | .fault e =>
    match g.holder with
    | some (op, .call c next) => if E.fallible c then some { g with holder := some (op, next (.error e)) } else none
    | _ => none
  | .answer world =>
    match g.holder with
    | some (op, .ask q next) => some { g with holder := some (op, next (world q)) }
    | _ => none
  | .leave =>
    match g.holder with
    | some (op, .ret (.ok out)) => some { g with holder := none, answers := g.answers ++ [(op, out)] }
    | some (_, .ret (.error _)) => some { g with holder := none }
    | _ => none
  | .happen what => (E.happen what g.state).map fun s => { g with state := s }
  | .restart => some { g with state := E.restart g.state, holder := none }

/-- Let the holder make up to a number of moves, with one input and one world, and leave when it is done. -/
def drive (E : Setting M) (g : Gate S) (input : M.Input) (world : (q : M.Query) → M.Answer q) : Nat → Gate S
  | 0 => g
  | moves + 1 =>
    match g.step (E := E) (.perform input) with
    | some g' => g'.drive E input world moves
    | none =>
      match g.step (E := E) (.answer world) with
      | some g' => g'.drive E input world moves
      | none => (g.step (E := E) .leave).getD g

/-- Serve one request from beginning to end, with one input and one world. -/
def serve (E : Setting M) (g : Gate S) (op : S.Op) (input : M.Input) (world : (q : M.Query) → M.Answer q)
    (moves : Nat) : Gate S :=
  match g.step (E := E) (.enter op) with
  | some g' => g'.drive E input world moves
  | none => g

/-- The gates that some run reaches from a given one. -/
inductive Later (E : Setting M) (g : Gate S) : Gate S → Prop
  | refl : Later E g g
  | step {g' g''} {m : GateMove S E} : Later E g g' → g'.step m = some g'' → Later E g g''

/-- The gates that some run reaches. -/
abbrev Reached (S : Service M) (E : Setting M) : Gate S → Prop := Later E (Gate.start S)

theorem Later.drive {g g' : Gate S} (h : Later E g g') (input : M.Input) (world : (q : M.Query) → M.Answer q)
    (moves : Nat) : Later E g (g'.drive E input world moves) := by
  induction moves generalizing g' with
  | zero => exact h
  | succ moves ih =>
    unfold Gate.drive
    split
    · rename_i next hperform
      exact ih (.step h hperform)
    · split
      · rename_i next hanswer
        exact ih (.step h hanswer)
      · cases hleave : g'.step .leave with
        | none => exact h
        | some next => exact .step h hleave

theorem Later.serve {g g' : Gate S} (h : Later E g g') (op : S.Op) (input : M.Input)
    (world : (q : M.Query) → M.Answer q) (moves : Nat) : Later E g (g'.serve E op input world moves) := by
  unfold Gate.serve
  split
  · rename_i next henter
    exact (Later.step h henter).drive input world moves
  · exact h

/-- What a move does: a request enters with its whole program, the holder resumes, the holder leaves, or the world or
a restart changes the state. -/
inductive Moves (E : Setting M) (g : Gate S) : Gate S → Prop
  | entered (op : S.Op) : Moves E g { g with holder := some (op, S.body op) }
  | resumed {op rest rest' t} (hholder : g.holder = some (op, rest)) (hresumes : Resumes M g.state rest rest' t) :
      Moves E g { g with state := t, holder := some (op, rest') }
  | answered {op out} (hholder : g.holder = some (op, .ret (.ok out))) :
      Moves E g { g with holder := none, answers := g.answers ++ [(op, out)] }
  | failed : Moves E g { g with holder := none }
  | happened {what t} (hhappen : E.happen what g.state = some t) : Moves E g { g with state := t }
  | restarted : Moves E g { g with state := E.restart g.state, holder := none }

theorem step_cases {g g' : Gate S} {m : GateMove S E} (h : g.step m = some g') : Moves E g g' := by
  cases m with
  | enter op =>
    simp only [step] at h
    split at h <;> cases h
    exact .entered op
  | perform input =>
    simp only [step] at h
    split at h
    · rename_i op c next hholder
      split at h
      · rename_i r s hexec
        cases h
        exact .resumed hholder (.replied hexec)
      · rename_i e _
        cases h
        exact .resumed hholder (.failed e)
    · cases h
  | fault e =>
    simp only [step] at h
    split at h
    · rename_i op c next hholder
      split at h <;> cases h
      exact .resumed hholder (.failed e)
    · cases h
  | answer world =>
    simp only [step] at h
    split at h
    · rename_i op q next hholder
      cases h
      exact .resumed hholder (.answered (world q))
    · cases h
  | leave =>
    simp only [step] at h
    split at h
    · rename_i op out hholder
      cases h
      exact .answered hholder
    · cases h
      exact .failed
    · cases h
  | happen what =>
    obtain ⟨t, hhappen, rfl⟩ := Option.map_eq_some_iff.mp h
    exact .happened hhappen
  | restart =>
    cases h
    exact .restarted

end Gate

/-! ### What holds in every run -/

/-- Each operation keeps the discipline and ends with its postcondition, which nothing that follows takes back; what
the world does is interference, and a restart keeps the invariant. -/
structure Discipline.Guards (D : Discipline M) (S : Service M) (E : Setting M)
    (Post : S.Op → S.Out → M.State → Prop) : Prop where
  init : D.Inv S.init
  happens : ∀ what s t, D.Inv s → E.happen what s = some t → D.Inv t ∧ D.Rely s t
  restarts : ∀ s, D.Inv s → D.Inv (E.restart s) ∧ D.Grows s (E.restart s)
  stable : ∀ op out s t, D.Grows s t → Post op out s → Post op out t
  body : ∀ op s, D.Inv s → (S.body op).Safe D (Post op) s

namespace Discipline.Guards

variable {D : Discipline M} {S : Service M} {E : Setting M} {Post : S.Op → S.Out → M.State → Prop}

/-- What holds of a gate in every run. -/
structure Sound (D : Discipline M) (Post : S.Op → S.Out → M.State → Prop) (g : Gate S) : Prop where
  inv : D.Inv g.state
  holder : ∀ op rest, g.holder = some (op, rest) → rest.Safe D (Post op) g.state
  answers : ∀ x ∈ g.answers, Post x.1 x.2 g.state

theorem moves (hD : D.Guards S E Post) {g g' : Gate S} (h : Sound D Post g) (hmoves : Gate.Moves E g g') :
    Sound D Post g' ∧ D.Grows g.state g'.state := by
  have hrefl := D.grows _ _ (D.refl g.state)
  have hkept {t : M.State} (hgrows : D.Grows g.state t) : ∀ x ∈ g.answers, Post x.1 x.2 t :=
    fun x hx => hD.stable x.1 x.2 _ _ hgrows (h.answers x hx)
  cases hmoves with
  | entered op =>
    refine ⟨⟨h.inv, ?_, h.answers⟩, hrefl⟩
    intro op' rest hholder
    cases hholder
    exact hD.body op _ h.inv
  | resumed hholder hresumes =>
    obtain ⟨hinv, hgrows, hsafe⟩ := (h.holder _ _ hholder).resumes h.inv hresumes
    refine ⟨⟨hinv, ?_, hkept hgrows⟩, hgrows⟩
    intro op' rest hholder'
    cases hholder'
    exact hsafe
  | @answered op out hholder =>
    refine ⟨⟨h.inv, nofun, ?_⟩, hrefl⟩
    intro x hx
    rcases mem_append.mp hx with hold | hnew
    · exact h.answers x hold
    · rw [mem_singleton.mp hnew]
      exact h.holder op _ hholder
  | failed => exact ⟨⟨h.inv, nofun, h.answers⟩, hrefl⟩
  | @happened what t hhappen =>
    obtain ⟨hinv, hrely⟩ := hD.happens what _ t h.inv hhappen
    have hgrows := D.grows _ _ hrely
    refine ⟨⟨hinv, ?_, hkept hgrows⟩, hgrows⟩
    intro op rest hholder
    -- a program is safe after interference; its postcondition is one that all growth keeps
    have hstable : D.Stable (Post op) := fun out s u hsu => hD.stable op out s u (D.grows s u hsu)
    exact (h.holder op rest hholder).stable hstable hrely
  | restarted =>
    obtain ⟨hinv, hgrows⟩ := hD.restarts _ h.inv
    exact ⟨⟨hinv, nofun, hkept hgrows⟩, hgrows⟩

/-- From a sound gate, every run keeps the invariant and only grows the state. -/
theorem later (hD : D.Guards S E Post) {g g' : Gate S} (h : Sound D Post g) (hrun : Gate.Later E g g') :
    Sound D Post g' ∧ D.Grows g.state g'.state := by
  induction hrun with
  | refl => exact ⟨h, D.grows _ _ (D.refl _)⟩
  | step _ hstep ih =>
    obtain ⟨hsound, hgrows⟩ := ih
    obtain ⟨hsound', hgrows'⟩ := hD.moves hsound (Gate.step_cases hstep)
    exact ⟨hsound', D.grows_trans _ _ _ hgrows hgrows'⟩

/-- In every run the invariant holds, the holder is safe, and all answers still are what they promised. -/
theorem sound (hD : D.Guards S E Post) {g : Gate S} (h : Gate.Reached S E g) : Sound D Post g := by
  have hstart : Sound D Post (Gate.start S) := by
    constructor
    · exact hD.init
    · intro op rest hholder
      cases hholder
    · intro x hx
      cases hx
  exact (hD.later hstart h).1

end Discipline.Guards

end Interleaving
