/-
Purpose: Observed runs of a pool.  A monitor remembers of each thread in which phase it is, from the calls it has made and
  their replies; a condition on runs may speak of all phases and of the next move.  A program follows a monitor if it makes
  each of its calls in a phase that admits it, and what a program follows, its threads follow along every run.
Trusted boundary: none
-/
import AgentNameService.Foundation.Interleaving

namespace Interleaving

open List Prog

variable {M : Interface}

/-- What is remembered of a thread, which calls it may make, and what it may count on in every reply. -/
structure Monitor (M : Interface) where
  Phase : Type
  start : Phase
  after : Phase → (c : M.Call) → Except M.Err (M.Reply c) → Phase
  admits : Phase → M.Call → Prop
  replies : (c : M.Call) → M.Reply c → Prop
  replies_exec : ∀ c input s r t, M.exec c input s = .ok (r, t) → replies c r

/-- What a call may come back with. -/
def Monitor.Possible (W : Monitor M) (c : M.Call) : Except M.Err (M.Reply c) → Prop
  | .ok r => W.replies c r
  | .error _ => True

/-- A pool whose threads are observed. -/
structure MonitoredPool (S : Service M) (W : Monitor M) where
  pool : Pool S
  phases : List W.Phase

namespace MonitoredPool

variable {S : Service M} {W : Monitor M} {w : MonitoredPool S W}

def start (S : Service M) (W : Monitor M) : MonitoredPool S W := ⟨.start S, []⟩

/-- Let a thread go on after a call, with its reply and the state that it left. -/
def resume (w : MonitoredPool S W) (i : Nat) (op : S.Op) (rest : Prog M S.Out) (phase : W.Phase) (s : M.State) : MonitoredPool S W :=
  ⟨{ w.pool.resume i op rest with state := s }, w.phases.set i phase⟩

/-- Make one move, if the schedule names a thread that can make it. -/
def step (w : MonitoredPool S W) : Move S → Option (MonitoredPool S W)
  | .spawn op => some ⟨w.pool.spawn op, w.phases ++ [W.start]⟩
  | .perform i input =>
    match w.pool.threads[i]?, w.phases[i]? with
    | some (op, .call c next), some φ =>
      match M.exec c input w.pool.state with
      | .ok (r, s) => some (w.resume i op (next (.ok r)) (W.after φ c (.ok r)) s)
      | .error e => some (w.resume i op (next (.error e)) (W.after φ c (.error e)) w.pool.state)
    | _, _ => none
  | .fault i e =>
    match w.pool.threads[i]?, w.phases[i]? with
    | some (op, .call c next), some φ =>
      some (w.resume i op (next (.error e)) (W.after φ c (.error e)) w.pool.state)
    | _, _ => none
  | .answer i world =>
    match w.pool.threads[i]?, w.phases[i]? with
    | some (op, .ask q next), some φ => some (w.resume i op (next (world q)) φ w.pool.state)
    | _, _ => none

/-- What one move does. -/
inductive Step (w : MonitoredPool S W) : Move S → MonitoredPool S W → Prop
  | spawned (op : S.Op) : Step w (.spawn op) ⟨w.pool.spawn op, w.phases ++ [W.start]⟩
  | replied {i input op c next φ r s} (hthread : w.pool.threads[i]? = some (op, .call c next))
      (hphase : w.phases[i]? = some φ) (hexec : M.exec c input w.pool.state = .ok (r, s)) :
      Step w (.perform i input) (w.resume i op (next (.ok r)) (W.after φ c (.ok r)) s)
  | refused {i input op c next φ e} (hthread : w.pool.threads[i]? = some (op, .call c next)) (hphase : w.phases[i]? = some φ)
      (hexec : M.exec c input w.pool.state = .error e) :
      Step w (.perform i input) (w.resume i op (next (.error e)) (W.after φ c (.error e)) w.pool.state)
  | faulted {i op c next φ} (e : M.Err) (hthread : w.pool.threads[i]? = some (op, .call c next))
      (hphase : w.phases[i]? = some φ) :
      Step w (.fault i e) (w.resume i op (next (.error e)) (W.after φ c (.error e)) w.pool.state)
  | answered {i op q next φ} (world : (q : M.Query) → M.Answer q) (hthread : w.pool.threads[i]? = some (op, .ask q next))
      (hphase : w.phases[i]? = some φ) : Step w (.answer i world) (w.resume i op (next (world q)) φ w.pool.state)

theorem step_eq_some_iff {v : MonitoredPool S W} {m : Move S} : w.step m = some v ↔ Step w m v := by
  constructor
  · intro h
    cases m with
    | spawn op =>
      cases h
      exact .spawned op
    | perform i input =>
      simp only [step] at h
      split at h
      · rename_i hthread hphase
        split at h <;> cases h
        · exact .replied hthread hphase ‹_›
        · exact .refused hthread hphase ‹_›
      · cases h
    | fault i e =>
      simp only [step] at h
      split at h
      · rename_i hthread hphase
        cases h
        exact .faulted e hthread hphase
      · cases h
    | answer i world =>
      simp only [step] at h
      split at h
      · rename_i hthread hphase
        cases h
        exact .answered world hthread hphase
      · cases h
  · intro h
    cases h with
    | spawned op => rfl
    | replied hthread hphase hexec | refused hthread hphase hexec => simp only [step, hthread, hphase, hexec]
    | faulted e hthread hphase | answered world hthread hphase => simp only [step, hthread, hphase]

/-- The pool makes the same move. -/
theorem Step.pool {v : MonitoredPool S W} {m : Move S} (h : Step w m v) : w.pool.step m = some v.pool := by
  cases h with
  | spawned op => rfl
  | replied hthread _ hexec | refused hthread _ hexec => simp only [Pool.step, hthread, hexec]; rfl
  | faulted e hthread _ | answered world hthread _ => simp only [Pool.step, hthread]; rfl

/-- The next move of a thread, with an input for a call and a world for a question. -/
def ownMove (w : MonitoredPool S W) (i : Nat) (input : M.Input) (world : (q : M.Query) → M.Answer q) : Move S :=
  if (w.step (.perform i input)).isSome then .perform i input else .answer i world

/-- Let one thread make up to a number of moves, with one input and one world, as long as they are admitted. -/
def drive (admits : MonitoredPool S W → Move S → Bool) (w : MonitoredPool S W) (i : Nat) (input : M.Input)
    (world : (q : M.Query) → M.Answer q) : Nat → MonitoredPool S W
  | 0 => w
  | moves + 1 =>
    match w.step (w.ownMove i input world) with
    | some v => if admits w (w.ownMove i input world) then v.drive admits i input world moves else w
    | none => w

/-- Let a new thread make up to a number of moves, as long as they are admitted. -/
def serve (admits : MonitoredPool S W → Move S → Bool) (w : MonitoredPool S W) (op : S.Op) (input : M.Input)
    (world : (q : M.Query) → M.Answer q) (moves : Nat) : MonitoredPool S W :=
  if admits w (.spawn op) then
    (⟨w.pool.spawn op, w.phases ++ [W.start]⟩ : MonitoredPool S W).drive admits w.pool.threads.length input world moves
  else w

/-- A thread that has made a move, and the others. -/
theorem getElem?_phases_resume {i j : Nat} {op : S.Op} {rest : Prog M S.Out} {ψ φ : W.Phase} {s : M.State}
    (h : (w.resume i op rest ψ s).phases[j]? = some φ) : (j = i ∧ φ = ψ) ∨ (j ≠ i ∧ w.phases[j]? = some φ) := by
  change (w.phases.set i ψ)[j]? = some φ at h
  rw [getElem?_set] at h
  split at h
  · rename_i hij
    simp only [Option.ite_none_right_eq_some, Option.some.injEq] at h
    exact .inl ⟨hij.symm, h.2.symm⟩
  · rename_i hij
    exact .inr ⟨fun hji => hij hji.symm, h⟩

/-- A thread is in a phase of which something holds. -/
def At (w : MonitoredPool S W) (i : Nat) (P : W.Phase → Prop) : Prop := ∃ φ, w.phases[i]? = some φ ∧ P φ

section

variable {i j : Nat} {op : S.Op} {rest : Prog M S.Out} {φ ψ : W.Phase} {s : M.State} {P : W.Phase → Prop}

theorem at_resume (hphase : w.phases[i]? = some φ) :
    (w.resume i op rest ψ s).At j P ↔ (j = i ∧ P ψ) ∨ (j ≠ i ∧ w.At j P) := by
  constructor
  · rintro ⟨χ, hχ, hP⟩
    rcases getElem?_phases_resume hχ with ⟨hj, rfl⟩ | ⟨hj, hχ⟩
    · exact .inl ⟨hj, hP⟩
    · exact .inr ⟨hj, χ, hχ, hP⟩
  · rintro (⟨rfl, hP⟩ | ⟨hj, χ, hχ, hP⟩)
    · refine ⟨ψ, ?_, hP⟩
      change (w.phases.set j ψ)[j]? = some ψ
      rw [getElem?_set_self', hphase]
      rfl
    · refine ⟨χ, ?_, hP⟩
      change (w.phases.set i ψ)[j]? = some χ
      rw [getElem?_set_ne (Ne.symm hj)]
      exact hχ

/-- A move that does not change of its thread what is asked changes it of no thread. -/
theorem at_resume_same (hphase : w.phases[i]? = some φ) (hsame : P ψ ↔ P φ) :
    (w.resume i op rest ψ s).At j P ↔ w.At j P := by
  rw [at_resume hphase, hsame]
  constructor
  · rintro (⟨rfl, hP⟩ | ⟨_, hat⟩)
    · exact ⟨φ, hphase, hP⟩
    · exact hat
  · intro hat
    by_cases hj : j = i
    · obtain ⟨χ, hχ, hP⟩ := hat
      rw [hj, hphase] at hχ
      cases hχ
      exact .inl ⟨hj, hP⟩
    · exact .inr ⟨hj, hat⟩

/-- A move before which nothing of what is asked holds of its thread. -/
theorem at_resume_gained (hphase : w.phases[i]? = some φ) (hbefore : ¬ P φ) :
    (w.resume i op rest ψ s).At j P ↔ (j = i ∧ P ψ) ∨ w.At j P := by
  refine (at_resume hphase).trans (or_congr_right (and_iff_right_of_imp ?_))
  rintro ⟨χ, hχ, hP⟩ rfl
  rw [hphase] at hχ
  cases hχ
  exact hbefore hP

/-- A move after which nothing of what is asked holds of its thread. -/
theorem at_resume_lost (hphase : w.phases[i]? = some φ) (hafter : ¬ P ψ) :
    (w.resume i op rest ψ s).At j P ↔ j ≠ i ∧ w.At j P :=
  (at_resume hphase).trans (or_iff_right fun hown => hafter hown.2)

theorem at_spawn (hstart : ¬ P W.start) :
    (⟨w.pool.spawn op, w.phases ++ [W.start]⟩ : MonitoredPool S W).At j P ↔ w.At j P := by
  constructor
  · rintro ⟨χ, hχ, hP⟩
    change (w.phases ++ [W.start])[j]? = some χ at hχ
    rw [getElem?_append] at hχ
    split at hχ
    · exact ⟨χ, hχ, hP⟩
    · rw [getElem?_singleton] at hχ
      simp only [Option.ite_none_right_eq_some, Option.some.injEq] at hχ
      rw [hχ.2] at hstart
      exact absurd hP hstart
  · rintro ⟨χ, hχ, hP⟩
    exact ⟨χ, getElem?_append_left (List.getElem?_eq_some_iff.mp hχ).1 ▸ hχ, hP⟩

end

end MonitoredPool

/-- The observed pools that a run reaches whose every move is allowed where it is made. -/
inductive Monitored (S : Service M) (W : Monitor M) (allows : MonitoredPool S W → Move S → Prop) : MonitoredPool S W → Prop
  | start : Monitored S W allows (MonitoredPool.start S W)
  | step {w v m} : Monitored S W allows w → allows w m → w.step m = some v → Monitored S W allows v

/-! ### Programs that follow a monitor -/

/-- Whatever the answers and the possible replies, each call is made in a phase that admits it, and the end is as it
should be. -/
def Prog.Follows (W : Monitor M) {α : Type} : Prog M α → W.Phase → (Except M.Err α → W.Phase → Prop) → Prop
  | .ret result, φ, Q => Q result φ
  | .call c next, φ, Q => W.admits φ c ∧ ∀ r, W.Possible c r → (next r).Follows W (W.after φ c r) Q
  | .ask _ next, φ, Q => ∀ a, (next a).Follows W φ Q

namespace Prog.Follows

variable {W : Monitor M} {α β : Type} {φ : W.Phase} {Q : Except M.Err β → W.Phase → Prop}

theorem bind {p : Prog M α} {f : α → Prog M β}
    (h : p.Follows W φ fun result ψ => match result with
      | .ok a => (f a).Follows W ψ Q
      | .error e => Q (.error e) ψ) : (p >>= f).Follows W φ Q := by
  change (p.bind f).Follows W φ Q
  induction p generalizing φ with
  | ret result =>
    cases result with
    | error | ok => exact h
  | call c next ih => exact ⟨h.1, fun r hr => ih r (h.2 r hr)⟩
  | ask q next ih => exact fun a => ih a (h a)

theorem perform {c : M.Call} {f : M.Reply c → Prog M β} (hadmits : W.admits φ c)
    (hok : ∀ r, W.replies c r → (f r).Follows W (W.after φ c (.ok r)) Q)
    (herr : ∀ e, Q (.error e) (W.after φ c (.error e))) : (perform c >>= f).Follows W φ Q := by
  refine ⟨hadmits, ?_⟩
  intro r hpossible
  cases r with
  | error e => exact herr e
  | ok r => exact hok r hpossible

theorem attempt {c : M.Call} {f : Except M.Err (M.Reply c) → Prog M β}
    (hadmits : W.admits φ c) (h : ∀ r, (f r).Follows W (W.after φ c r) Q) : (attempt c >>= f).Follows W φ Q :=
  ⟨hadmits, fun r _ => h r⟩

theorem query {q : M.Query} {f : M.Answer q → Prog M β}
    (h : ∀ a, (f a).Follows W φ Q) : (query q >>= f).Follows W φ Q := h

theorem lift {result : Except M.Err α} {f : α → Prog M β}
    (hok : ∀ a, result = .ok a → (f a).Follows W φ Q) (herr : ∀ e, Q (.error e) φ) :
    (lift result >>= f).Follows W φ Q := by
  cases result with
  | error e => exact herr e
  | ok a => exact hok a rfl

/-- A program whose calls are admitted in a phase and do not leave it. -/
theorem of_calls {p : Prog M α} {R : α → Prop} {Q : Except M.Err α → W.Phase → Prop}
    (h : p.Calls (fun c => W.admits φ c ∧ ∀ r, W.after φ c r = φ) R) (hok : ∀ a, R a → Q (.ok a) φ)
    (herr : ∀ e, Q (.error e) φ) : p.Follows W φ Q := by
  induction p with
  | ret result =>
    cases result with
    | error e => exact herr e
    | ok a => exact hok a h
  | call c next ih =>
    refine ⟨h.1.1, ?_⟩
    intro r _
    rw [h.1.2 r]
    exact ih r (h.2 r)
  | ask q next ih => exact fun a => ih a (h a)

end Prog.Follows

/-! ### Observed runs -/

namespace Monitored

variable {S : Service M} {W : Monitor M} {allows : MonitoredPool S W → Move S → Prop} {w : MonitoredPool S W}
variable {Q : S.Op → Except M.Err S.Out → W.Phase → Prop}

/-- An observed run is a run; what it allows of a call may be said of the call and the state alone. -/
theorem reachable {allowed : M.Call → M.State → Prop}
    (himp : ∀ w m c, allows w m → w.pool.callOf m = some c → allowed c w.pool.state) (h : Monitored S W allows w) :
    Reachable S allowed w.pool := by
  induction h with
  | start => exact .start
  | step _ hallows hstep ih =>
    exact .step ih (fun c hcall => himp _ _ c hallows hcall) (MonitoredPool.step_eq_some_iff.mp hstep).pool

theorem reached (h : Monitored S W allows w) : Reached S w.pool := h.reachable fun _ _ _ _ _ => trivial

/-- Every thread has a phase. -/
theorem length_phases (h : Monitored S W allows w) : w.phases.length = w.pool.threads.length := by
  induction h with
  | start => rfl
  | step _ _ hstep ih =>
    cases MonitoredPool.step_eq_some_iff.mp hstep <;> simp [Pool.spawn, MonitoredPool.resume, Pool.resume, ih]

/-- Every thread follows the monitor from its phase on. -/
theorem follows (hbody : ∀ op, (S.body op).Follows W W.start (Q op))
    (h : Monitored S W allows w) {i : Nat} {op : S.Op} {rest : Prog M S.Out} {φ : W.Phase}
    (hthread : w.pool.threads[i]? = some (op, rest)) (hphase : w.phases[i]? = some φ) : rest.Follows W φ (Q op) := by
  induction h generalizing i op rest φ with
  | start => cases hthread
  | step hrun _ hstep ih =>
    -- Only the thread that made the move has changed.
    have hresumed {v : MonitoredPool S W} {j : Nat} {op' : S.Op} {rest' : Prog M S.Out} {ψ : W.Phase} {s : M.State}
        (ih : ∀ {i : Nat} {op : S.Op} {rest : Prog M S.Out} {φ : W.Phase}, v.pool.threads[i]? = some (op, rest) →
          v.phases[i]? = some φ → rest.Follows W φ (Q op))
        (hthread : (v.resume j op' rest' ψ s).pool.threads[i]? = some (op, rest))
        (hphase : (v.resume j op' rest' ψ s).phases[i]? = some φ) (hrest : rest'.Follows W ψ (Q op')) :
        rest.Follows W φ (Q op) := by
      change (v.pool.threads.set j (op', rest'))[i]? = _ at hthread
      rcases MonitoredPool.getElem?_phases_resume hphase with ⟨rfl, rfl⟩ | ⟨hother, hphase⟩
      · rw [getElem?_set_self'] at hthread
        obtain ⟨_, _, heq⟩ := Option.map_eq_some_iff.mp hthread
        cases heq
        exact hrest
      · rw [getElem?_set_ne (Ne.symm hother)] at hthread
        exact ih hthread hphase
    cases MonitoredPool.step_eq_some_iff.mp hstep with
    | spawned newOp =>
      change (_ ++ [(newOp, S.body newOp)])[i]? = _ at hthread
      change (_ ++ [W.start])[i]? = _ at hphase
      have hlength := hrun.length_phases
      rw [getElem?_append] at hthread hphase
      rw [hlength] at hphase
      split at hthread
      · rename_i hold
        rw [if_pos hold] at hphase
        exact ih hthread hphase
      · rename_i hnew
        rw [if_neg hnew] at hphase
        rw [getElem?_singleton] at hthread hphase
        simp only [Option.ite_none_right_eq_some, Option.some.injEq, Prod.mk.injEq] at hthread hphase
        obtain ⟨_, rfl, rfl⟩ := hthread
        obtain ⟨_, rfl⟩ := hphase
        exact hbody newOp
    | replied hthread' hphase' hexec =>
      exact hresumed ih hthread hphase ((ih hthread' hphase').2 _ (W.replies_exec _ _ _ _ _ hexec))
    | refused hthread' hphase' _ | faulted e hthread' hphase' =>
      exact hresumed ih hthread hphase ((ih hthread' hphase').2 _ trivial)
    | answered world hthread' hphase' => exact hresumed ih hthread hphase (ih hthread' hphase' _)

/-- The call that a thread is about to make is admitted in its phase. -/
theorem admits (hbody : ∀ op, (S.body op).Follows W W.start (Q op))
    (h : Monitored S W allows w) {i : Nat} {op : S.Op} {c : M.Call} {next : Except M.Err (M.Reply c) → Prog M S.Out}
    {φ : W.Phase} (hthread : w.pool.threads[i]? = some (op, .call c next)) (hphase : w.phases[i]? = some φ) :
    W.admits φ c :=
  (h.follows hbody hthread hphase).1

/-- A thread that has ended is in a phase that its operation ends in. -/
theorem ended (hbody : ∀ op, (S.body op).Follows W W.start (Q op))
    (h : Monitored S W allows w) {i : Nat} {φ : W.Phase} (hended : ∀ thread ∈ w.pool.threads, ∃ result, thread.2 = .ret result)
    (hphase : w.phases[i]? = some φ) : ∃ op result, (op, .ret result) ∈ w.pool.threads ∧ Q op result φ := by
  have hlength : i < w.pool.threads.length := by
    rw [← h.length_phases]
    exact (List.getElem?_eq_some_iff.mp hphase).1
  obtain ⟨result, hresult⟩ := hended _ (getElem_mem hlength)
  have hthread : w.pool.threads[i]? = some (w.pool.threads[i].1, .ret result) := by
    rw [getElem?_eq_getElem hlength, ← hresult]
  exact ⟨_, result, mem_of_getElem? hthread, h.follows hbody hthread hphase⟩

theorem drive {admitted : MonitoredPool S W → Move S → Bool} (hadmitted : ∀ w m, admitted w m = true → allows w m)
    (h : Monitored S W allows w) (i : Nat) (input : M.Input) (world : (q : M.Query) → M.Answer q) (moves : Nat) :
    Monitored S W allows (w.drive admitted i input world moves) := by
  induction moves generalizing w with
  | zero => exact h
  | succ moves ih =>
    unfold MonitoredPool.drive
    split
    · rename_i v hstep
      split
      · exact ih (.step h (hadmitted _ _ ‹_›) hstep)
      · exact h
    · exact h

theorem serve {admitted : MonitoredPool S W → Move S → Bool} (hadmitted : ∀ w m, admitted w m = true → allows w m)
    (h : Monitored S W allows w) (op : S.Op) (input : M.Input) (world : (q : M.Query) → M.Answer q) (moves : Nat) :
    Monitored S W allows (w.serve admitted op input world moves) := by
  unfold MonitoredPool.serve
  split
  · apply drive hadmitted
    exact .step h (hadmitted _ _ ‹_›) rfl
  · exact h

end Monitored

end Interleaving
