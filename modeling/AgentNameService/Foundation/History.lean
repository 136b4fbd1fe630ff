/-
Purpose: Pools with a history.  Every call that succeeds and every question that is answered is entered with the
  thread that made it, so that a property can speak of what has happened and in which order.  The proof rule
  extends rely and guarantee: on top of the discipline of the calls, a watch says what each call and each question
  needs of the state and the history.
Trusted boundary: none
-/
import AgentNameService.Foundation.Interleaving

namespace Interleaving

open List Prog

variable {M : Interface}

/-! ### Pools with a history -/

/-- A call that succeeded, or a question with its answer. -/
inductive Entry (S : Service M)
  | called (thread : Nat) (op : S.Op) (c : M.Call) (reply : M.Reply c)
  | asked (thread : Nat) (op : S.Op) (q : M.Query) (answer : M.Answer q)

/-- The shared state and what has happened so far. -/
structure Scene (S : Service M) where
  state : M.State
  history : List (Entry S)

/-- The scene after one more entry. -/
def Scene.after {S : Service M} (s : Scene S) (state : M.State) (entry : Entry S) : Scene S :=
  ⟨state, s.history ++ [entry]⟩

/-- A pool and its history. -/
structure Recorded (S : Service M) where
  pool : Pool S
  history : List (Entry S)

namespace Recorded

variable {S : Service M}

def scene (p : Recorded S) : Scene S := ⟨p.pool.state, p.history⟩

/-- Before the first request. -/
def start (S : Service M) : Recorded S := ⟨Pool.start S, []⟩

/-- What a move enters. -/
def entryOf (p : Recorded S) : Move S → Option (Entry S)
  | .spawn _ | .fault .. => none
  | .perform i input =>
    match p.pool.threads[i]? with
    | some (op, .call c _) =>
      match M.exec c input p.pool.state with
      | .ok (r, _) => some (.called i op c r)
      | .error _ => none
    | _ => none
  | .answer i world =>
    match p.pool.threads[i]? with
    | some (op, .ask q _) => some (.asked i op q (world q))
    | _ => none

/-- Make one move and enter it. -/
def step (p : Recorded S) (m : Move S) : Option (Recorded S) :=
  (p.pool.step m).map fun pool => ⟨pool, p.history ++ (p.entryOf m).toList⟩

def spawn (p : Recorded S) (op : S.Op) : Recorded S := { p with pool := p.pool.spawn op }

/-- Let one thread make up to a number of moves, with one input and one world. -/
def drive (p : Recorded S) (i : Nat) (input : M.Input) (world : (q : M.Query) → M.Answer q) :
    Nat → Recorded S
  | 0 => p
  | moves + 1 =>
    match p.step (.perform i input) with
    | some q => q.drive i input world moves
    | none =>
      match p.step (.answer i world) with
      | some q => q.drive i input world moves
      | none => p

end Recorded

/-- The pools with their histories that any schedule reaches. -/
inductive Recording (S : Service M) : Recorded S → Prop
  | start : Recording S (Recorded.start S)
  | step {p q m} : Recording S p → p.step m = some q → Recording S q

section

variable {S : Service M} {p q : Recorded S} {m : Move S}

theorem Recording.spawn (h : Recording S p) (op : S.Op) : Recording S (p.spawn op) := by
  have hstep : p.step (.spawn op) = some (p.spawn op) := by
    simp [Recorded.step, Recorded.entryOf, Pool.step, Recorded.spawn]
  exact .step h hstep

theorem Recording.drive (h : Recording S p) (i : Nat) (input : M.Input) (world : (q : M.Query) → M.Answer q)
    (moves : Nat) : Recording S (p.drive i input world moves) := by
  induction moves generalizing p with
  | zero => exact h
  | succ moves ih =>
    unfold Recorded.drive
    split
    · rename_i q hperform
      exact ih (.step h hperform)
    · split
      · rename_i q hanswer
        exact ih (.step h hanswer)
      · exact h

/-- The history does not change what is reached. -/
theorem Recording.reached (h : Recording S p) : Reached S p.pool := by
  induction h with
  | start => exact .start
  | step _ hstep ih =>
    obtain ⟨pool, hpool, rfl⟩ := Option.map_eq_some_iff.mp hstep
    exact .step ih (fun _ _ => trivial) hpool

/-- What a move does to a thread of a recorded pool, and the scene it leaves. -/
inductive Proceeds (i : Nat) (op : S.Op) (s : Scene S) : Prog M S.Out → Prog M S.Out → Scene S → Prop
  | replied {c next input r t} (hexec : M.exec c input s.state = .ok (r, t)) :
      Proceeds i op s (.call c next) (next (.ok r)) (s.after t (.called i op c r))
  | failed {c next} (e : M.Err) : Proceeds i op s (.call c next) (next (.error e)) s
  | answered {q next : _} (a : M.Answer q) : Proceeds i op s (.ask q next) (next a) (s.after s.state (.asked i op q a))

/-- A move adds a thread with its whole program, or one thread proceeds. -/
theorem Recorded.step_cases (h : p.step m = some q) : (∃ op, q = p.spawn op) ∨
      ∃ i op rest rest', p.pool.threads[i]? = some (op, rest) ∧ Proceeds i op p.scene rest rest' q.scene ∧
        q.pool.threads = p.pool.threads.set i (op, rest') := by
  obtain ⟨pool, hpool, rfl⟩ := Option.map_eq_some_iff.mp h
  cases m with
  | spawn op =>
    cases hpool
    left
    exact ⟨op, by simp [Recorded.spawn, Recorded.entryOf]⟩
  | perform i input =>
    right
    simp only [Pool.step] at hpool
    split at hpool
    · rename_i op c next hthread
      split at hpool
      · rename_i r t hexec
        cases hpool
        refine ⟨i, op, _, _, hthread, ?_, rfl⟩
        have hentry : p.entryOf (.perform i input) = some (.called i op c r) := by
          simp [Recorded.entryOf, hthread, hexec]
        simp only [hentry]
        exact .replied hexec
      · rename_i e hexec
        cases hpool
        refine ⟨i, op, _, _, hthread, ?_, rfl⟩
        have hentry : p.entryOf (.perform i input) = none := by
          simp [Recorded.entryOf, hthread, hexec]
        simp only [hentry, Option.toList_none, append_nil]
        exact .failed e
    · cases hpool
  | fault i e =>
    right
    simp only [Pool.step] at hpool
    split at hpool
    · rename_i op c next hthread
      cases hpool
      refine ⟨i, op, _, _, hthread, ?_, rfl⟩
      simp only [Recorded.entryOf, Option.toList_none, append_nil]
      exact .failed e
    · cases hpool
  | answer i world =>
    right
    simp only [Pool.step] at hpool
    split at hpool
    · rename_i op query next hthread
      cases hpool
      refine ⟨i, op, _, _, hthread, ?_, rfl⟩
      have hentry : p.entryOf (.answer i world) = some (.asked i op query (world query)) := by
        simp [Recorded.entryOf, hthread]
      simp only [hentry]
      exact .answered (world query)
    · cases hpool

end

/-! ### Watches -/

/-- What the calls and questions of a service need and keep, on top of a discipline: each is made in a scene that
meets its precondition, keeps the invariant and moves the scene along a preorder. -/
structure Watch (D : Discipline M) (S : Service M) where
  Inv : Scene S → Prop
  Rely : Scene S → Scene S → Prop
  Calls : Nat → S.Op → M.Call → Scene S → Prop
  Asks : Nat → S.Op → M.Query → Scene S → Prop
  refl : ∀ s, Rely s s
  trans : ∀ s t u, Rely s t → Rely t u → Rely s u
  called : ∀ i op c input s r t, D.Inv s.state → D.Pre c s.state → Inv s → Calls i op c s →
    M.exec c input s.state = .ok (r, t) →
    Inv (s.after t (.called i op c r)) ∧ Rely s (s.after t (.called i op c r))
  asked : ∀ i op q a s, D.Inv s.state → Inv s → Asks i op q s →
    Inv (s.after s.state (.asked i op q a)) ∧ Rely s (s.after s.state (.asked i op q a))

section

variable {D : Discipline M} {S : Service M}

/-- From a scene, and whatever interferes in between, the program of a thread meets what the watch asks of each
of its calls and questions, and ends with an error or with the postcondition. -/
def Prog.Heeds (W : Watch D S) (i : Nat) (op : S.Op) {α : Type} :
    Prog M α → (α → Scene S → Prop) → Scene S → Prop
  | .ret (.ok a), Q, s => Q a s
  | .ret (.error _), _, _ => True
  | .call c next, Q, s => ∀ t, W.Rely s t → D.Inv t.state → W.Inv t → D.Pre c t.state →
      W.Calls i op c t ∧
        (∀ input r u, M.exec c input t.state = .ok (r, u) →
          (next (.ok r)).Heeds W i op Q (t.after u (.called i op c r))) ∧
        ∀ e, (next (.error e)).Heeds W i op Q t
  | .ask q next, Q, s => ∀ t, W.Rely s t → D.Inv t.state → W.Inv t →
      W.Asks i op q t ∧ ∀ a, (next a).Heeds W i op Q (t.after t.state (.asked i op q a))

/-- Whatever the replies and answers, the program only makes calls and puts questions of a kind, and ends with an
error or a result of a kind. -/
def Prog.Uses {α : Type} (A : M.Call → Prop) (B : M.Query → Prop) (R : α → Prop) : Prog M α → Prop
  | .ret (.ok a) => R a
  | .ret (.error _) => True
  | .call c next => A c ∧ ∀ r, (next r).Uses A B R
  | .ask q next => B q ∧ ∀ a, (next a).Uses A B R

end

namespace Prog.Uses

variable {α β : Type} {A : M.Call → Prop} {B : M.Query → Prop} {G : α → Prop} {R : β → Prop}

theorem bind {p : Prog M α} {f : α → Prog M β} (hp : p.Uses A B G) (hf : ∀ a, G a → (f a).Uses A B R) :
    (p >>= f).Uses A B R := by
  change (p.bind f).Uses A B R
  induction p with
  | ret result =>
    cases result with
    | error e => trivial
    | ok a => exact hf a hp
  | call c next ih => exact ⟨hp.1, fun r => ih r (hp.2 r)⟩
  | ask q next ih => exact ⟨hp.1, fun a => ih a (hp.2 a)⟩

theorem imp {A' : M.Call → Prop} {B' : M.Query → Prop} {G' : α → Prop} {p : Prog M α} (h : p.Uses A B G)
    (hA : ∀ c, A c → A' c) (hB : ∀ q, B q → B' q) (hG : ∀ a, G a → G' a) : p.Uses A' B' G' := by
  induction p with
  | ret result =>
    cases result with
    | error e => trivial
    | ok a => exact hG a h
  | call c next ih => exact ⟨hA c h.1, fun r => ih r (h.2 r)⟩
  | ask q next ih => exact ⟨hB q h.1, fun a => ih a (h.2 a)⟩

theorem calls {A' : M.Call → Prop} {p : Prog M α} (h : p.Uses A B G) (hA : ∀ c, A c → A' c) : p.Calls A' G := by
  induction p with
  | ret result =>
    cases result with
    | error e => trivial
    | ok a => exact h
  | call c next ih => exact ⟨hA c h.1, fun r => ih r (h.2 r)⟩
  | ask q next ih => exact fun a => ih a (h.2 a)

theorem perform {c : M.Call} {f : M.Reply c → Prog M β} (hc : A c) (hf : ∀ r, (f r).Uses A B R) :
    (perform c >>= f).Uses A B R := by
  refine ⟨hc, ?_⟩
  intro r
  cases r with
  | error e => trivial
  | ok r => exact hf r

theorem attempt {c : M.Call} {f : Except M.Err (M.Reply c) → Prog M β} (hc : A c)
    (hf : ∀ r, (f r).Uses A B R) : (attempt c >>= f).Uses A B R :=
  ⟨hc, hf⟩

theorem query {q : M.Query} {f : M.Answer q → Prog M β} (hq : B q) (hf : ∀ a, (f a).Uses A B R) :
    (query q >>= f).Uses A B R :=
  ⟨hq, hf⟩

theorem lift {result : Except M.Err α} {f : α → Prog M β} (hf : ∀ a, result = .ok a → (f a).Uses A B R) :
    (lift result >>= f).Uses A B R := by
  cases result with
  | error e => trivial
  | ok a => exact hf a rfl

theorem forEach {items : List β} {step : β → Prog M Unit} (hstep : ∀ b ∈ items, (step b).Uses A B fun _ => True) :
    (forEach items step).Uses A B fun _ => True := by
  induction items with
  | nil => trivial
  | cons b rest ih =>
    apply bind (hstep b mem_cons_self)
    intro _ _
    exact ih fun b' hb' => hstep b' (mem_cons_of_mem b hb')

end Prog.Uses

namespace Prog.Heeds

variable {D : Discipline M} {S : Service M} {W : Watch D S} {i : Nat} {op : S.Op} {α β : Type}
  {s : Scene S} {Q : β → Scene S → Prop}

/-- Interference does not change what a program heeds. -/
theorem stable {p : Prog M α} {Q : α → Scene S → Prop} (hQ : ∀ a s t, W.Rely s t → Q a s → Q a t)
    {t : Scene S} (hrely : W.Rely s t) (h : p.Heeds W i op Q s) : p.Heeds W i op Q t := by
  cases p with
  | ret result =>
    cases result with
    | error e => trivial
    | ok a => exact hQ a s t hrely h
  | call | ask =>
    intro u hu
    exact h u (W.trans s t u hrely hu)

/-- The postcondition may use that the scene has moved along the preorder. -/
theorem mono {p : Prog M α} {Q Q' : α → Scene S → Prop} (h : p.Heeds W i op Q s)
    (himp : ∀ a t, W.Rely s t → Q a t → Q' a t) : p.Heeds W i op Q' s := by
  induction p generalizing s with
  | ret result =>
    cases result with
    | error e => trivial
    | ok a => exact himp a s (W.refl s) h
  | call c next ih =>
    intro t hst hbase hinv hpre
    obtain ⟨hcalls, hok, herr⟩ := h t hst hbase hinv hpre
    refine ⟨hcalls, ?_, ?_⟩
    · intro input r u hexec
      have htu := (W.called i op c input t r u hbase hpre hinv hcalls hexec).2
      apply ih (.ok r) (hok input r u hexec)
      intro a v huv
      exact himp a v (W.trans _ _ _ (W.trans _ _ _ hst htu) huv)
    · intro e
      apply ih (.error e) (herr e)
      intro a v htv
      exact himp a v (W.trans _ _ _ hst htv)
  | ask q next ih =>
    intro t hst hbase hinv
    obtain ⟨hasks, hnext⟩ := h t hst hbase hinv
    refine ⟨hasks, ?_⟩
    intro a
    have htu := (W.asked i op q a t hbase hinv hasks).2
    apply ih a (hnext a)
    intro b v huv
    exact himp b v (W.trans _ _ _ (W.trans _ _ _ hst htu) huv)

/-- A program that goes on with the result of another. -/
theorem bind {p : Prog M α} {f : α → Prog M β} {G : α → Scene S → Prop}
    (hp : p.Heeds W i op G s) (hf : ∀ a t, W.Rely s t → G a t → (f a).Heeds W i op Q t) :
    (p >>= f).Heeds W i op Q s := by
  change (p.bind f).Heeds W i op Q s
  replace hp := hp.mono hf
  clear hf
  induction p generalizing s with
  | ret result =>
    cases result with
    | error e => trivial
    | ok a => exact hp
  | call c next ih =>
    intro t hst hbase hinv hpre
    obtain ⟨hcalls, hok, herr⟩ := hp t hst hbase hinv hpre
    exact ⟨hcalls, fun input r u hexec => ih (.ok r) (hok input r u hexec), fun e => ih (.error e) (herr e)⟩
  | ask q next ih =>
    intro t hst hbase hinv
    obtain ⟨hasks, hnext⟩ := hp t hst hbase hinv
    exact ⟨hasks, fun a => ih a (hnext a)⟩

/-- A call whose error ends the program. -/
theorem perform {c : M.Call} {f : M.Reply c → Prog M β}
    (h : ∀ t, W.Rely s t → D.Inv t.state → W.Inv t → D.Pre c t.state → W.Calls i op c t ∧
      ∀ input r u, W.Rely t (t.after u (.called i op c r)) → M.exec c input t.state = .ok (r, u) →
        (f r).Heeds W i op Q (t.after u (.called i op c r))) : (perform c >>= f).Heeds W i op Q s := by
  intro t hst hbase hinv hpre
  obtain ⟨hcalls, hnext⟩ := h t hst hbase hinv hpre
  refine ⟨hcalls, ?_, fun _ => trivial⟩
  intro input r u hexec
  exact hnext input r u (W.called i op c input t r u hbase hpre hinv hcalls hexec).2 hexec

/-- A call after which the program goes on whatever the outcome. -/
theorem attempt {c : M.Call} {f : Except M.Err (M.Reply c) → Prog M β}
    (h : ∀ t, W.Rely s t → D.Inv t.state → W.Inv t → D.Pre c t.state → W.Calls i op c t ∧
      (∀ input r u, W.Rely t (t.after u (.called i op c r)) → M.exec c input t.state = .ok (r, u) →
        (f (.ok r)).Heeds W i op Q (t.after u (.called i op c r))) ∧ ∀ e, (f (.error e)).Heeds W i op Q t) :
    (attempt c >>= f).Heeds W i op Q s := by
  intro t hst hbase hinv hpre
  obtain ⟨hcalls, hok, herr⟩ := h t hst hbase hinv hpre
  refine ⟨hcalls, ?_, herr⟩
  intro input r u hexec
  exact hok input r u (W.called i op c input t r u hbase hpre hinv hcalls hexec).2 hexec

/-- A question. -/
theorem query {q : M.Query} {f : M.Answer q → Prog M β}
    (h : ∀ t, W.Rely s t → D.Inv t.state → W.Inv t → W.Asks i op q t ∧
      ∀ a, W.Rely t (t.after t.state (.asked i op q a)) → (f a).Heeds W i op Q (t.after t.state (.asked i op q a))) :
    (query q >>= f).Heeds W i op Q s := by
  intro t hst hbase hinv
  obtain ⟨hasks, hnext⟩ := h t hst hbase hinv
  exact ⟨hasks, fun a => hnext a (W.asked i op q a t hbase hinv hasks).2⟩

/-- A value computed without the state. -/
theorem lift {result : Except M.Err α} {f : α → Prog M β}
    (h : ∀ a, result = .ok a → (f a).Heeds W i op Q s) : (lift result >>= f).Heeds W i op Q s := by
  cases result with
  | error e => trivial
  | ok a => exact h a rfl

/-- A program whose calls and questions need nothing but a stable property. -/
theorem of_uses {G : Scene S → Prop} (hstable : ∀ t u, W.Rely t u → G t → G u) (hG : G s) {R : α → Prop} {p : Prog M α}
    (h : p.Uses (fun c => ∀ t, D.Pre c t.state → W.Inv t → G t → W.Calls i op c t)
      (fun q => ∀ t, W.Inv t → G t → W.Asks i op q t) R) : p.Heeds W i op (fun a _ => R a) s := by
  induction p generalizing s with
  | ret result =>
    cases result with
    | error e => trivial
    | ok a => exact h
  | call c next ih =>
    intro t hst hbase hinv hpre
    have hGt := hstable s t hst hG
    have hcalls := h.1 t hpre hinv hGt
    refine ⟨hcalls, ?_, fun e => ih (.error e) hGt (h.2 (.error e))⟩
    intro input r u hexec
    have htu := (W.called i op c input t r u hbase hpre hinv hcalls hexec).2
    exact ih (.ok r) (hstable _ _ htu hGt) (h.2 (.ok r))
  | ask q next ih =>
    intro t hst hbase hinv
    have hGt := hstable s t hst hG
    have hasks := h.1 t hinv hGt
    refine ⟨hasks, ?_⟩
    intro a
    have htu := (W.asked i op q a t hbase hinv hasks).2
    exact ih a (hstable _ _ htu hGt) (h.2 a)

/-- Run a program for every element of a list. -/
theorem forEach {items : List β} {step : β → Prog M Unit} {G : Scene S → Prop}
    (hstable : ∀ t u, W.Rely t u → G t → G u) (hG : G s)
    (hstep : ∀ b ∈ items, ∀ t, W.Rely s t → G t → (step b).Heeds W i op (fun _ _ => True) t) :
    (forEach items step).Heeds W i op (fun _ _ => True) s := by
  induction items generalizing s with
  | nil => trivial
  | cons b rest ih =>
    apply bind (hstep b mem_cons_self s (W.refl s) hG)
    intro _ t hst _
    apply ih (hstable s t hst hG)
    intro b' hb' u htu hGu
    exact hstep b' (mem_cons_of_mem b hb') u (W.trans s t u hst htu) hGu

/-- One move of a thread keeps the invariant, moves the scene along the preorder and leaves a program that heeds. -/
theorem proceeds {rest rest' : Prog M S.Out} {Q : S.Out → Scene S → Prop} {s t : Scene S}
    (hbase : D.Inv s.state) (hinv : W.Inv s)
    (hpre : ∀ c next, rest = .call c next → D.Pre c s.state) (hheeds : rest.Heeds W i op Q s)
    (h : Proceeds i op s rest rest' t) : W.Inv t ∧ W.Rely s t ∧ rest'.Heeds W i op Q t := by
  cases h with
  | @replied c next input r u hexec =>
    have hpre := hpre c next rfl
    obtain ⟨hcalls, hok, _⟩ := hheeds s (W.refl s) hbase hinv hpre
    obtain ⟨hinv', hrely⟩ := W.called i op c input s r u hbase hpre hinv hcalls hexec
    exact ⟨hinv', hrely, hok input r u hexec⟩
  | @failed c next e =>
    obtain ⟨_, _, herr⟩ := hheeds s (W.refl s) hbase hinv (hpre c next rfl)
    exact ⟨hinv, W.refl s, herr e⟩
  | @answered q next a =>
    obtain ⟨hasks, hnext⟩ := hheeds s (W.refl s) hbase hinv
    obtain ⟨hinv', hrely⟩ := W.asked i op q a s hbase hinv hasks
    exact ⟨hinv', hrely, hnext a⟩

end Prog.Heeds

/-! ### What holds in every recorded pool -/

section

variable {D : Discipline M} {S : Service M} {Post : S.Op → S.Out → M.State → Prop}
  {p : Recorded S}

/-- If every operation heeds a watch, its invariant holds in every scene that a schedule reaches, and every thread
heeds the watch from there. -/
theorem Watch.sound (W : Watch D S) (hD : D.Governs S Post) (hinit : W.Inv ⟨S.init, []⟩)
    (hbody : ∀ i op s, D.Inv s.state → W.Inv s → (S.body op).Heeds W i op (fun _ _ => True) s) (h : Recording S p) :
    W.Inv p.scene ∧ ∀ (i : Nat) (op : S.Op) (rest : Prog M S.Out), p.pool.threads[i]? = some (op, rest) →
      rest.Heeds W i op (fun _ _ => True) p.scene := by
  induction h with
  | start => exact ⟨hinit, by simp [Recorded.start, Pool.start]⟩
  | @step p q m hreached hstep ih =>
    obtain ⟨hinv, hheeds⟩ := ih
    have hbase := (hD.sound hreached.reached).1
    rcases Recorded.step_cases hstep with ⟨op, rfl⟩ | ⟨i, op, rest, rest', hthread, hproceeds, hthreads⟩
    · refine ⟨hinv, ?_⟩
      intro j op' rest' hthread
      change (p.pool.threads ++ [(op, S.body op)])[j]? = some (op', rest') at hthread
      rcases Nat.lt_or_ge j p.pool.threads.length with hlt | hge
      · rw [getElem?_append_left hlt] at hthread
        exact hheeds j op' rest' hthread
      · rw [getElem?_append_right hge] at hthread
        have hnew := mem_singleton.mp (mem_of_getElem? hthread)
        obtain ⟨rfl, rfl⟩ := Prod.mk.inj hnew
        exact hbody j op' p.scene hbase hinv
    · have hpre : ∀ c next, rest = .call c next → D.Pre c p.scene.state := by
        rintro c next rfl
        exact hD.pre hreached.reached (mem_of_getElem? hthread)
      obtain ⟨hinv', hrely, hrest'⟩ := (hheeds i op rest hthread).proceeds hbase hinv hpre hproceeds
      refine ⟨hinv', ?_⟩
      intro j op' rest'' hthread'
      rw [hthreads, getElem?_set] at hthread'
      split at hthread'
      · split at hthread'
        · rename_i heq _
          subst heq
          obtain ⟨rfl, rfl⟩ := Prod.mk.inj (Option.some.inj hthread')
          exact hrest'
        · cases hthread'
      · exact (hheeds j op' rest'' hthread').stable (fun _ _ _ _ _ => trivial) hrely

/-- The invariant of a watch that every operation heeds. -/
theorem Watch.inv (W : Watch D S) (hD : D.Governs S Post) (hinit : W.Inv ⟨S.init, []⟩)
    (hbody : ∀ i op s, D.Inv s.state → W.Inv s → (S.body op).Heeds W i op (fun _ _ => True) s)
    (h : Recording S p) : W.Inv p.scene :=
  (W.sound hD hinit hbody h).1

/-- A list that ends in a given entry: an entry in it is that one, or comes before it. -/
theorem split_of_concat {α : Type} {before after rest : List α} {x y : α} (h : rest ++ [y] = before ++ x :: after) :
    (rest = before ∧ y = x) ∨ ∃ after', rest = before ++ x :: after' := by
  rcases eq_nil_or_concat after with rfl | ⟨after', z, rfl⟩
  · obtain ⟨hrest, hlast⟩ := append_inj' h rfl
    exact .inl ⟨hrest, singleton_inj.mp hlast⟩
  · right
    have hsplit : rest ++ [y] = (before ++ x :: after') ++ [z] := by simpa using h
    exact ⟨after', (append_inj' hsplit rfl).1⟩

/-- Every question of a history was put in a scene that met what the watch asks of it. -/
theorem Watch.asked_in (W : Watch D S) (hD : D.Governs S Post) (hinit : W.Inv ⟨S.init, []⟩)
    (hbody : ∀ i op s, D.Inv s.state → W.Inv s → (S.body op).Heeds W i op (fun _ _ => True) s)
    (h : Recording S p) {before after : List (Entry S)} {i : Nat} {op : S.Op} {query : M.Query}
    {a : M.Answer query} (hhistory : p.history = before ++ .asked i op query a :: after) :
    ∃ state, W.Asks i op query ⟨state, before⟩ ∧ W.Rely ⟨state, before⟩ p.scene := by
  induction h generalizing after with
  | start => simp [Recorded.start] at hhistory
  | @step p q m hreached hstep ih =>
    obtain ⟨hinv, hheeds⟩ := W.sound hD hinit hbody hreached
    have hbase := (hD.sound hreached.reached).1
    rcases Recorded.step_cases hstep with ⟨op', rfl⟩ | ⟨j, op', rest, rest', hthread, hproceeds, _⟩
    · exact ih hhistory
    have hpre : ∀ c next, rest = .call c next → D.Pre c p.scene.state := by
      rintro c next rfl
      exact hD.pre hreached.reached (mem_of_getElem? hthread)
    have hrely := ((hheeds j op' rest hthread).proceeds hbase hinv hpre hproceeds).2.1
    -- an entry that was there before the move keeps its scene
    have hbefore (hold : ∃ after', p.history = before ++ .asked i op query a :: after') :
        ∃ state, W.Asks i op query ⟨state, before⟩ ∧ W.Rely ⟨state, before⟩ q.scene := by
      obtain ⟨after', hold⟩ := hold
      obtain ⟨state, hasks, hto⟩ := ih hold
      exact ⟨state, hasks, W.trans _ _ _ hto hrely⟩
    have hscene : q.scene.history = before ++ .asked i op query a :: after := hhistory
    generalize q.scene = scene at hproceeds hrely hscene hbefore
    cases hproceeds with
    | replied hexec =>
      rcases split_of_concat hscene with ⟨_, heq⟩ | hold
      · cases heq
      · exact hbefore hold
    | failed e => exact hbefore ⟨after, hscene⟩
    | answered a' =>
      rcases split_of_concat hscene with ⟨hrest, heq⟩ | hold
      · cases heq
        have hasks := (hheeds i op _ hthread p.scene (W.refl _) hbase hinv).1
        subst hrest
        exact ⟨p.pool.state, hasks, hrely⟩
      · exact hbefore hold

end

end Interleaving
