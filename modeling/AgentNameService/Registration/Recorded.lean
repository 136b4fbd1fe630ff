/-
Purpose: The registration service with its history, and the transparency logs that its posts may leave behind.  A
  post may reach the log late and although the service heard of an error; the log keeps one leaf for each
  canonical event.
Source: internal/ra/service, internal/ra/outbox/worker.go, internal/tl/service/log.go
Trusted boundary: human-reviewed model
-/
import Mathlib.Data.List.Induction
import AgentNameService.Registration.Conduct
import AgentNameService.Registration.PostOrder
import AgentNameService.Registration.Writes

namespace AgentNameService.Registration

open Interleaving Interleaving.Prog List

/-! ### The log behind a history -/

/-- What the service has done. -/
abbrev History (w : Wiring) := List (Entry (service w))

section

variable {w : Wiring}

/-- The canonical event that an entry posts. -/
def postedEvent : Entry (service w) → Option String
  | .asked _ _ (.sealAgentEvent _ payload) _ => some payload.innerEventCanonical
  | .asked _ _ (.append _ payload) _ => some payload.innerEventCanonical
  | _ => none

/-- The canonical event whose leaf an entry acknowledges. -/
def acknowledgedEvent : Entry (service w) → Option String
  | .asked _ _ (.sealAgentEvent _ payload) answer =>
    match answer with
    | .ok _ => some payload.innerEventCanonical
    | .error _ => none
  | .asked _ _ (.append _ payload) answer =>
    match answer with
    | .accepted _ => some payload.innerEventCanonical
    | _ => none
  | _ => none

def Posted (h : History w) (event : String) : Prop := ∃ entry ∈ h, postedEvent entry = some event

def Acknowledged (h : History w) (event : String) : Prop := ∃ entry ∈ h, acknowledgedEvent entry = some event

/-- The log after an entry. -/
def logAfter (log : List String) (entry : Entry (service w)) : List String :=
  match acknowledgedEvent entry with
  | some event => addLeaf log event
  | none => log

/-- The logs that a history may have left.  An event that is acknowledged is in the log; one that was posted may get
its leaf at any later moment, although the service heard of an error. -/
inductive Logs : History w → List String → Prop
  | empty : Logs [] []
  | entered {h log} (entry : Entry (service w)) (hlogs : Logs h log) : Logs (h ++ [entry]) (logAfter log entry)
  | landed {h log event} (hlogs : Logs h log) (hposted : Posted h event) : Logs h (addLeaf log event)

variable {h : History w} {log : List String} {event : String} {entry : Entry (service w)}

theorem Posted.append (hposted : Posted h event) : Posted (h ++ [entry]) event := by
  obtain ⟨old, hold, hevent⟩ := hposted
  exact ⟨old, mem_append_left _ hold, hevent⟩

/-- What is posted after one more entry was posted before, or by it. -/
theorem Posted.cases (hposted : Posted (h ++ [entry]) event) : Posted h event ∨ postedEvent entry = some event := by
  obtain ⟨found, hfound, hevent⟩ := hposted
  rcases mem_append.mp hfound with hold | hnew
  · exact .inl ⟨found, hold, hevent⟩
  · obtain rfl := mem_singleton.mp hnew
    exact .inr hevent

theorem Acknowledged.append (hack : Acknowledged h event) : Acknowledged (h ++ [entry]) event := by
  obtain ⟨old, hold, hevent⟩ := hack
  exact ⟨old, mem_append_left _ hold, hevent⟩

/-- Only what is posted is acknowledged. -/
theorem posted_of_acknowledged (hack : acknowledgedEvent entry = some event) : postedEvent entry = some event := by
  unfold acknowledgedEvent at hack
  split at hack
  · split at hack
    · exact hack
    · cases hack
  · split at hack
    · exact hack
    · cases hack
  · cases hack

theorem mem_logAfter : event ∈ logAfter log entry ↔ event ∈ log ∨ acknowledgedEvent entry = some event := by
  unfold logAfter
  split
  · rename_i other hack
    rw [mem_addLeaf, hack, Option.some.injEq, eq_comm]
  · rename_i hnone
    simp [hnone]

namespace Logs

theorem nodup (hlogs : Logs h log) : log.Nodup := by
  induction hlogs with
  | empty => exact nodup_nil
  | entered entry _ ih =>
    unfold logAfter
    split
    · exact nodup_addLeaf ih
    · exact ih
  | landed _ _ ih => exact nodup_addLeaf ih

/-- Only posted events have leaves. -/
theorem posted (hlogs : Logs h log) (hevent : event ∈ log) : Posted h event := by
  induction hlogs with
  | empty => cases hevent
  | entered entry _ ih =>
    rcases mem_logAfter.mp hevent with hold | hack
    · exact (ih hold).append
    · exact ⟨entry, mem_append_right _ (mem_singleton_self entry), posted_of_acknowledged hack⟩
  | landed _ hposted ih =>
    rcases mem_addLeaf.mp hevent with hold | rfl
    · exact ih hold
    · exact hposted

/-- What is acknowledged has a leaf. -/
theorem acknowledged (hlogs : Logs h log) (hack : Acknowledged h event) : event ∈ log := by
  induction hlogs with
  | empty =>
    obtain ⟨_, hentry, _⟩ := hack
    cases hentry
  | entered entry _ ih =>
    obtain ⟨found, hfound, hevent⟩ := hack
    rw [mem_logAfter]
    rcases mem_append.mp hfound with hold | hnew
    · exact .inl (ih ⟨found, hold, hevent⟩)
    · obtain rfl := mem_singleton.mp hnew
      exact .inr hevent
  | landed _ _ ih => exact mem_addLeaf.mpr (.inl (ih hack))

/-- Every history has left some log. -/
theorem logged (h : History w) : ∃ log, Logs h log := by
  induction h using reverseRecOn with
  | nil => exact ⟨[], .empty⟩
  | append_singleton h entry ih =>
    obtain ⟨log, hlogs⟩ := ih
    exact ⟨_, hlogs.entered entry⟩

/-- What holds of every log after one more entry: it comes with the entry, and late leaves keep it. -/
theorem after_entry {P : List String → Prop} (hentered : ∀ log, Logs h log → P (logAfter log entry))
    (hlanded : ∀ log event, P log → Posted (h ++ [entry]) event → P (addLeaf log event))
    (hlogs : Logs (h ++ [entry]) log) : P log := by
  generalize hhistory : h ++ [entry] = history at hlogs
  induction hlogs with
  | empty => simp at hhistory
  | entered last hbefore =>
    obtain ⟨rfl, hlast⟩ := append_inj' hhistory rfl
    obtain rfl := singleton_inj.mp hlast
    exact hentered _ hbefore
  | landed _ hposted ih => exact hlanded _ _ (ih hhistory) (hhistory ▸ hposted)

end Logs

end

/-! ### Rules for the steps of a program -/

section

variable {w : Wiring} {W : Watch discipline (service w)} {i : Nat} {op : Op} {α β : Type}
  {s : Scene (service w)} {Q : β → Scene (service w) → Prop}

/-- A program whose writes and questions the watch does not look at. -/
theorem heeds_yields {writes : Call → Bool} {ports : List Port} {R : α → Prop} {p : Program α} (h : Yields writes ports R p)
    (hcalls : ∀ c, Among writes c → ∀ t, Pre c t.state → W.Inv t → W.Calls i op c t)
    (hasks : ∀ q, Within ports q → ∀ t, W.Inv t → W.Asks i op q t) : p.Heeds W i op (fun a _ => R a) s := by
  apply Heeds.of_uses (fun _ _ _ _ => trivial) trivial
  refine Uses.imp h ?_ ?_ fun _ h => h
  · intro c hc t hpre hinv _
    exact hcalls c hc t hpre hinv
  · intro q hq t hinv _
    exact hasks q hq t hinv

/-- A read, with its entry. -/
theorem heeds_findEntered {r : Read} {f : r.Result → Program β} (hread : ∀ t, W.Calls i op (.read r) t)
    (h : ∀ t now a, W.Rely s t → Inv t.state → W.Inv t → r.exec now t.state = .ok (a, t.state) →
      W.Rely t (t.after t.state (.called i op (Call.read r) a)) →
      (f a).Heeds W i op Q (t.after t.state (.called i op (Call.read r) a))) : (find r >>= f).Heeds W i op Q s := by
  apply Heeds.perform
  intro t hst hbase hinv _
  refine ⟨hread t, ?_⟩
  intro ambient a u htu hexec
  obtain rfl : t.state = u := Read.exec_unchanged hexec
  exact h t ambient.now a hst hbase hinv hexec htu

/-- A read returns what the tables hold at some later moment, and changes nothing. -/
theorem heeds_find {r : Read} {f : r.Result → Program β} (hread : ∀ t, W.Calls i op (.read r) t)
    (h : ∀ t now a, W.Rely s t → Inv t.state → r.exec now t.state = .ok (a, t.state) →
      (f a).Heeds W i op Q t) : (find r >>= f).Heeds W i op Q s := by
  apply Heeds.perform
  intro t hst hbase _ _
  refine ⟨hread t, ?_⟩
  intro ambient a u htu hexec
  obtain rfl : t.state = u := Read.exec_unchanged hexec
  exact h _ ambient.now a (W.trans _ _ _ hst htu) hbase hexec

theorem heeds_tryFind {r : Read} {f : Except Error r.Result → Program β} (hread : ∀ t, W.Calls i op (.read r) t)
    (h : ∀ t outcome, W.Rely s t → Inv t.state →
      (∀ a, outcome = .ok a → ∃ now, r.exec now t.state = .ok (a, t.state)) → (f outcome).Heeds W i op Q t) :
    (tryFind r >>= f).Heeds W i op Q s := by
  apply Heeds.attempt
  intro t hst hbase _ _
  refine ⟨hread t, ?_, ?_⟩
  · intro ambient a u htu hexec
    obtain rfl : t.state = u := Read.exec_unchanged hexec
    apply h _ (.ok a) (W.trans _ _ _ hst htu) hbase
    rintro b hb
    cases hb
    exact ⟨ambient.now, hexec⟩
  · intro e
    exact h t (.error e) hst hbase nofun

theorem heeds_run {c : Call} {f : c.Reply → Program β}
    (hcalls : ∀ t, W.Rely s t → Inv t.state → W.Inv t → Pre c t.state → W.Calls i op c t)
    (h : ∀ t ambient r u, W.Rely s t → W.Inv t → c.exec ambient t.state = .ok (r, u) →
      W.Rely t (t.after u (.called i op c r)) → (f r).Heeds W i op Q (t.after u (.called i op c r))) :
    (run c >>= f).Heeds W i op Q s := by
  apply Heeds.perform
  intro t hst hbase hinv hpre
  exact ⟨hcalls t hst hbase hinv hpre, fun ambient r u htu hexec => h t ambient r u hst hinv hexec htu⟩

/-- A step at the end of a program. -/
theorem heeds_last {c : Call} (hcalls : ∀ t, W.Rely s t → Inv t.state → W.Inv t → Pre c t.state → W.Calls i op c t) :
    (run c).Heeds W i op (fun _ _ => True) s := by
  intro t hst hbase hinv hpre
  refine ⟨hcalls t hst hbase hinv hpre, ?_, ?_⟩ <;> · intros; trivial

theorem heeds_ask {q : Query} {f : q.Answer → Program β}
    (hask : ∀ t, W.Rely s t → Inv t.state → W.Inv t → W.Asks i op q t)
    (h : ∀ t a, W.Rely s t → W.Inv t → W.Rely t (t.after t.state (.asked i op q a)) →
      (f a).Heeds W i op Q (t.after t.state (.asked i op q a))) : (ask q >>= f).Heeds W i op Q s := by
  apply Heeds.query
  intro t hst hbase hinv
  exact ⟨hask t hst hbase hinv, fun a htu => h t a hst hinv htu⟩

theorem heeds_check {condition : Prop} [Decidable condition] {failure : Error} {f : Unit → Program β}
    (h : condition → (f ()).Heeds W i op Q s) : (check condition failure >>= f).Heeds W i op Q s := by
  apply Heeds.lift
  intro _ hcheck
  exact h (Except.require_eq_ok_iff.mp hcheck)

theorem heeds_orFail {x : Except Error α} {f : α → Program β} (h : ∀ a, x = .ok a → (f a).Heeds W i op Q s) :
    (orFail x >>= f).Heeds W i op Q s :=
  Heeds.lift h

theorem heeds_ite {condition : Prop} [Decidable condition] {p q : Program β}
    (hp : condition → p.Heeds W i op Q s) (hq : ¬ condition → q.Heeds W i op Q s) :
    (if condition then p else q).Heeds W i op Q s := by
  split
  · exact hp ‹_›
  · exact hq ‹_›

end

end AgentNameService.Registration
