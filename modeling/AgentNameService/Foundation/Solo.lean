/-
Purpose: One thread of a pool among the others.  What the thread does is followed call by call, through the interference
  of the others, along the replies that the state gives; failures from outside the model are left out for this thread,
  so its end can be told, be it a result or an error.
Trusted boundary: none
-/
import AgentNameService.Foundation.Interleaving

namespace Interleaving

variable {M : Interface} {S : Service M} {permits : Pool S → Move S → Prop} {i : Nat}

/-- The move is one of the thread. -/
def Move.isOf (i : Nat) : Move S → Bool
  | .spawn _ => false
  | .perform j _ | .fault j _ | .answer j _ => j == i

/-- The pools that a schedule of permitted moves reaches from a pool. -/
inductive Onward (permits : Pool S → Move S → Prop) (p : Pool S) : Pool S → Prop
  | refl : Onward permits p p
  | step {q r m} : Onward permits p q → permits q m → q.step m = some r → Onward permits p r

/-- Make the moves of a list, as long as each one passes a check of the pools around it. -/
def Pool.follow (check : Pool S → Move S → Pool S → Bool) (p : Pool S) : List (Move S) → Pool S
  | [] => p
  | m :: rest =>
    match p.step m with
    | some q => if check p m q then q.follow check rest else p
    | none => p

theorem Onward.trans {p q r : Pool S} (hpq : Onward permits p q) (hqr : Onward permits q r) : Onward permits p r := by
  induction hqr with
  | refl => exact hpq
  | step _ hpermits hstep ih => exact .step ih hpermits hstep

theorem Onward.follow {check : Pool S → Move S → Pool S → Bool}
    (hcheck : ∀ p m q, p.step m = some q → check p m q = true → permits p m) (p : Pool S) (moves : List (Move S)) :
    Onward permits p (p.follow check moves) := by
  induction moves generalizing p with
  | nil => exact .refl
  | cons m rest ih =>
    unfold Pool.follow
    split
    · rename_i q hstep
      split
      · rename_i hchecked
        exact (Onward.step .refl (hcheck p m q hstep hchecked) hstep).trans (ih q)
      · exact .refl
    · exact .refl

/-- From a state, and whatever interferes along the relation in between, the program ends with an outcome that meets the
postcondition.  Its calls are made in states that admit them, and fail only as the state makes them fail. -/
def Prog.Carries (admits : M.Call → M.State → Prop) (R : M.State → M.State → Prop) {α : Type} :
    Prog M α → (Except M.Err α → M.State → Prop) → M.State → Prop
  | .ret outcome, Q, s => ∀ t, R s t → Q outcome t
  | .call c next, Q, s => ∀ t, R s t → admits c t →
      (∀ input r u, M.exec c input t = .ok (r, u) → (next (.ok r)).Carries admits R Q u) ∧
      ∀ input e, M.exec c input t = .error e → (next (.error e)).Carries admits R Q t
  | .ask _ next, Q, s => ∀ t, R s t → ∀ a, (next a).Carries admits R Q t

namespace Prog.Carries

variable {admits : M.Call → M.State → Prop} {R : M.State → M.State → Prop} {α β : Type}
  {s t : M.State}

/-- Interference changes nothing. -/
theorem interfered (trans : ∀ s t u, R s t → R t u → R s u) {p : Prog M α} {Q : Except M.Err α → M.State → Prop}
    (h : p.Carries admits R Q s) (hst : R s t) : p.Carries admits R Q t := by
  cases p with
  | ret | call | ask => exact fun u htu => h u (trans _ _ _ hst htu)

/-- Sequencing: an error ends the whole. -/
theorem bind (refl : ∀ s, R s s) {p : Prog M α} {f : α → Prog M β} {G : α → M.State → Prop}
    {Q : Except M.Err β → M.State → Prop} (hp : p.Carries admits R (fun outcome t => ∃ a, outcome = .ok a ∧ G a t) s)
    (hf : ∀ a t, G a t → (f a).Carries admits R Q t) : (p >>= f).Carries admits R Q s := by
  change (p.bind f).Carries admits R Q s
  induction p generalizing s with
  | ret outcome =>
    obtain ⟨a, rfl, ha⟩ := hp s (refl s)
    exact hf a s ha
  | call c next ih =>
    intro t hst hadmits
    obtain ⟨hok, herror⟩ := hp t hst hadmits
    exact ⟨fun input r u hexec => ih _ (hok input r u hexec), fun input e hexec => ih _ (herror input e hexec)⟩
  | ask q next ih =>
    intro t hst a
    exact ih a (hp t hst a)

/-- A loop, with what holds before each turn of the elements that are left. -/
theorem forEach (refl : ∀ s, R s s) {items : List β} {step : β → Prog M Unit} {G : List β → M.State → Prop}
    (hstable : ∀ rest s t, R s t → G rest s → G rest t) (hstep : ∀ b rest s, G (b :: rest) s →
      (step b).Carries admits R (fun outcome t => ∃ a, outcome = .ok a ∧ G rest t) s) (hs : G items s) :
    (Prog.forEach items step).Carries admits R (fun outcome t => ∃ a, outcome = .ok a ∧ G [] t) s := by
  induction items generalizing s with
  | nil => exact fun t hst => ⟨(), rfl, hstable [] s t hst hs⟩
  | cons b rest ih => exact bind refl (hstep b rest s hs) fun _ t ht => ih ht

end Prog.Carries

/-- The moves of the others leave the thread alone. -/
theorem Pool.step_other {p q : Pool S} {m : Move S} (h : p.step m = some q) (hm : m.isOf i = false)
    (hlt : i < p.threads.length) : q.threads[i]? = p.threads[i]? := by
  have hset {j : Nat} (hj : (j == i) = false) (op : S.Op) (rest : Prog M S.Out) :
      (p.resume j op rest).threads[i]? = p.threads[i]? :=
    List.getElem?_set_ne (beq_eq_false_iff_ne.mp hj)
  cases m with
  | spawn op =>
    cases h
    exact List.getElem?_append_left hlt
  | perform j input =>
    simp only [step] at h
    split at h
    · split at h <;> cases h <;> exact hset hm _ _
    · cases h
  | fault j e | answer j world =>
    simp only [step] at h
    split at h <;> cases h
    exact hset hm _ _

/-- A thread after a call that succeeded. -/
theorem Pool.step_performed {p q : Pool S} {input : M.Input} {op : S.Op} {c : M.Call}
    {next : Except M.Err (M.Reply c) → Prog M S.Out} {r : M.Reply c} {t : M.State}
    (hthread : p.threads[i]? = some (op, .call c next)) (hexec : M.exec c input p.state = .ok (r, t))
    (h : p.step (.perform i input) = some q) : q.threads[i]? = some (op, next (.ok r)) ∧ q.state = t := by
  have hlt : i < p.threads.length := (List.getElem?_eq_some_iff.mp hthread).1
  simp only [step, hthread, hexec, Option.some.injEq] at h
  subst h
  exact ⟨List.getElem?_set_self hlt, rfl⟩

/-- Along a run without failures from outside for the thread, in which its calls are admitted and the moves of the others
keep the relation, the thread goes on to carry its postcondition. -/
theorem Onward.carries {admits : M.Call → M.State → Prop} {R : M.State → M.State → Prop}
    (refl : ∀ s, R s s) (trans : ∀ s t u, R s t → R t u → R s u) (hfault : ∀ p e, ¬ permits p (.fault i e))
    (hadmits : ∀ p input op c next, permits p (.perform i input) → p.threads[i]? = some (op, .call c next) →
      admits c p.state) (hothers : ∀ p m q, permits p m → m.isOf i = false → p.step m = some q → R p.state q.state)
    {Q : Except M.Err S.Out → M.State → Prop} {p q : Pool S} {op : S.Op} {rest : Prog M S.Out}
    (hthread : p.threads[i]? = some (op, rest)) (hcarries : rest.Carries admits R Q p.state)
    (hrun : Onward permits p q) : ∃ rest', q.threads[i]? = some (op, rest') ∧ rest'.Carries admits R Q q.state := by
  induction hrun with
  | refl => exact ⟨rest, hthread, hcarries⟩
  | @step p q m _ hpermits hstep ih =>
    obtain ⟨rest, hthread, hcarries⟩ := ih
    have hlt : i < p.threads.length := (List.getElem?_eq_some_iff.mp hthread).1
    have hresumed (op : S.Op) (rest : Prog M S.Out) : (p.resume i op rest).threads[i]? = some (op, rest) :=
      List.getElem?_set_self hlt
    cases hof : m.isOf i with
    | false =>
      refine ⟨rest, (Pool.step_other hstep hof hlt).trans hthread, ?_⟩
      exact hcarries.interfered trans (hothers p m q hpermits hof hstep)
    | true =>
      cases m with
      | spawn => cases hof
      | perform j input =>
        obtain rfl := beq_iff_eq.mp hof
        simp only [Pool.step, hthread] at hstep
        split at hstep
        · rename_i c next heq
          cases heq
          obtain ⟨hok, herror⟩ := hcarries p.state (refl _) (hadmits p input op c next hpermits hthread)
          split at hstep
          · rename_i r t hexec
            cases hstep
            exact ⟨_, hresumed op _, hok input r t hexec⟩
          · rename_i e hexec
            cases hstep
            exact ⟨_, hresumed op _, herror input e hexec⟩
        · cases hstep
      | fault j e =>
        obtain rfl := beq_iff_eq.mp hof
        exact absurd hpermits (hfault p e)
      | answer j world =>
        obtain rfl := beq_iff_eq.mp hof
        simp only [Pool.step, hthread] at hstep
        split at hstep
        · rename_i question next heq
          cases heq
          cases hstep
          exact ⟨_, hresumed op _, hcarries p.state (refl _) (world question)⟩
        · cases hstep

end Interleaving
