/-
Purpose: Runs with the list of their commits.  Every call that succeeds is entered with the operation that made it and
  with the states around it, so that a property can say what one transaction did, how many did it, and what no later
  one undoes.  The proof rule is an invariant of the state and the commits, on top of a watch.
Trusted boundary: none
-/
import AgentNameService.Foundation.History

namespace Interleaving

open List

variable {M : Interface}

/-- A call that succeeded, and the states before and after it. -/
structure Commit (S : Service M) where
  op : S.Op
  call : M.Call
  before : M.State
  after : M.State

/-- A recorded pool and the commits of its run, in order. -/
structure Chronicle (S : Service M) where
  recorded : Recorded S
  commits : List (Commit S)

namespace Chronicle

variable {S : Service M}

def state (x : Chronicle S) : M.State := x.recorded.pool.state

/-- Before the first request. -/
def start (S : Service M) : Chronicle S := ⟨Recorded.start S, []⟩

/-- What a move commits. -/
def commitOf (x : Chronicle S) : Move S → Option (Commit S)
  | .perform i input =>
    match x.recorded.pool.threads[i]? with
    | some (op, .call c _) =>
      match M.exec c input x.state with
      | .ok (_, t) => some ⟨op, c, x.state, t⟩
      | .error _ => none
    | _ => none
  | .spawn _ | .fault .. | .answer .. => none

/-- Make one move and enter what it commits. -/
def step (x : Chronicle S) (m : Move S) : Option (Chronicle S) :=
  (x.recorded.step m).map fun recorded => ⟨recorded, x.commits ++ (x.commitOf m).toList⟩

def spawn (x : Chronicle S) (op : S.Op) : Chronicle S := { x with recorded := x.recorded.spawn op }

/-- Let one thread make up to a number of moves, with one input and one world, as long as its calls are admitted. -/
def drive (admits : M.Call → M.State → Bool) (x : Chronicle S) (i : Nat) (input : M.Input)
    (world : (q : M.Query) → M.Answer q) : Nat → Chronicle S
  | 0 => x
  | moves + 1 =>
    match x.step (.perform i input) with
    | some y =>
      if (x.recorded.pool.callOf (.perform i input)).all (admits · x.state) then
        y.drive admits i input world moves
      else x
    | none =>
      match x.step (.answer i world) with
      | some y => y.drive admits i input world moves
      | none => x

end Chronicle

/-- The chronicles of the runs in which every call is made in a state that allows it. -/
inductive Chronicled (S : Service M) (allows : M.Call → M.State → Prop) : Chronicle S → Prop
  | start : Chronicled S allows (Chronicle.start S)
  | step {x y m} : Chronicled S allows x → (∀ c, x.recorded.pool.callOf m = some c → allows c x.state) →
      x.step m = some y → Chronicled S allows y

namespace Chronicled

variable {S : Service M} {allows : M.Call → M.State → Prop} {x : Chronicle S}

/-- The commits do not change what is recorded. -/
theorem recording (h : Chronicled S allows x) : Recording S x.recorded := by
  induction h with
  | start => exact .start
  | step _ _ hstep ih =>
    obtain ⟨recorded, hrecorded, rfl⟩ := Option.map_eq_some_iff.mp hstep
    exact .step ih hrecorded

theorem mono {allows' : M.Call → M.State → Prop} (h : Chronicled S allows x)
    (himp : ∀ c s, allows c s → allows' c s) : Chronicled S allows' x := by
  induction h with
  | start => exact .start
  | step _ hallows hstep ih => exact .step ih (fun c hcall => himp c _ (hallows c hcall)) hstep

theorem spawn (h : Chronicled S allows x) (op : S.Op) : Chronicled S allows (x.spawn op) := by
  have hstep : x.step (.spawn op) = some (x.spawn op) := by
    simp [Chronicle.step, Chronicle.commitOf, Chronicle.spawn, Recorded.step, Recorded.entryOf, Pool.step,
      Recorded.spawn]
  exact .step h (fun _ hcall => by cases hcall) hstep

theorem drive {admits : M.Call → M.State → Bool} (hadmits : ∀ c s, admits c s = true → allows c s)
    (h : Chronicled S allows x) (i : Nat) (input : M.Input) (world : (q : M.Query) → M.Answer q) (moves : Nat) :
    Chronicled S allows (x.drive admits i input world moves) := by
  induction moves generalizing x with
  | zero => exact h
  | succ moves ih =>
    unfold Chronicle.drive
    split
    · rename_i y hperform
      split
      · rename_i hadmitted
        apply ih
        apply Chronicled.step h _ hperform
        intro c hcall
        rw [hcall] at hadmitted
        exact hadmits c _ hadmitted
      · exact h
    · split
      · rename_i y hanswer
        apply ih
        exact .step h (fun _ hcall => by cases hcall) hanswer
      · exact h

end Chronicled

/-- A move commits nothing and leaves the state alone, or it is a call with its commit. -/
theorem Chronicle.step_cases {S : Service M} {x y : Chronicle S} {m : Move S} (h : x.step m = some y) :
    (y.state = x.state ∧ y.commits = x.commits) ∨
      ∃ (i : Nat) (op : S.Op) (c : M.Call) (next : Except M.Err (M.Reply c) → Prog M S.Out) (input : M.Input)
        (r : M.Reply c), x.recorded.pool.threads[i]? = some (op, .call c next) ∧
        x.recorded.pool.callOf m = some c ∧ M.exec c input x.state = .ok (r, y.state) ∧
        y.commits = x.commits ++ [⟨op, c, x.state, y.state⟩] := by
  obtain ⟨recorded, hrecorded, rfl⟩ := Option.map_eq_some_iff.mp h
  obtain ⟨pool, hpool, rfl⟩ := Option.map_eq_some_iff.mp hrecorded
  cases m with
  | spawn op =>
    cases hpool
    left
    simp [Chronicle.state, Chronicle.commitOf, Pool.spawn]
  | perform i input =>
    simp only [Pool.step] at hpool
    split at hpool
    · rename_i op c next hthread
      split at hpool
      · rename_i r t hexec
        cases hpool
        right
        refine ⟨i, op, c, next, input, r, hthread, ?_, hexec, ?_⟩
        · simp [Pool.callOf, hthread]
        · have hcommit : x.commitOf (.perform i input) = some ⟨op, c, x.state, t⟩ := by
            simp [Chronicle.commitOf, Chronicle.state, hthread, hexec]
          simp only [hcommit]
          rfl
      · rename_i e hexec
        cases hpool
        left
        have hcommit : x.commitOf (.perform i input) = none := by
          simp [Chronicle.commitOf, Chronicle.state, hthread, hexec]
        simp only [hcommit]
        exact ⟨rfl, append_nil _⟩
    · cases hpool
  | fault | answer =>
    simp only [Pool.step] at hpool
    split at hpool
    · cases hpool
      exact .inl ⟨rfl, append_nil _⟩
    · cases hpool

namespace Watch

variable {D : Discipline M} {S : Service M} {Post : S.Op → S.Out → M.State → Prop}
  {allows : M.Call → M.State → Prop} {x : Chronicle S}

/-- What every allowed commit keeps, of the state and the commits so far, holds along every run. -/
theorem chronicled (W : Watch D S) (hD : D.Governs S Post) (hinit : W.Inv ⟨S.init, []⟩)
    (hbody : ∀ i op s, D.Inv s.state → W.Inv s → (S.body op).Heeds W i op (fun _ _ => True) s)
    {J : M.State → List (Commit S) → Prop} (hstart : J S.init [])
    (hcommit : ∀ i op c input (s : Scene S) r t commits, D.Inv s.state → D.Pre c s.state → W.Inv s →
      W.Calls i op c s → allows c s.state → J s.state commits → M.exec c input s.state = .ok (r, t) →
      J t (commits ++ [⟨op, c, s.state, t⟩])) (h : Chronicled S allows x) : J x.state x.commits := by
  induction h with
  | start => exact hstart
  | @step x y m hrun hallows hstep ih =>
    rcases Chronicle.step_cases hstep with ⟨hstate, hcommits⟩ |
      ⟨i, op, c, next, input, r, hthread, hcall, hexec, hcommits⟩
    · rw [hstate, hcommits]
      exact ih
    · obtain ⟨hinv, hheeds⟩ := W.sound hD hinit hbody hrun.recording
      have hbase := (hD.sound hrun.recording.reached).1
      have hpre := hD.pre hrun.recording.reached (mem_of_getElem? hthread)
      have hcalls := (hheeds i op _ hthread _ (W.refl _) hbase hinv hpre).1
      rw [hcommits]
      exact hcommit i op c input x.recorded.scene r y.state x.commits hbase hpre hinv hcalls (hallows c hcall) ih hexec

end Watch

end Interleaving
