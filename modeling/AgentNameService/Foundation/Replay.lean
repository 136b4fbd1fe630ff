/-
Purpose: What is shown of one subject by a reader that applies snapshots and burials in the order of a feed and may apply
  parts of the feed again.  A snapshot replaces what is shown unless a burial that is no older covers the subject; a burial
  covers what is no newer.
Trusted boundary: none
-/
import Mathlib.Order.Lattice
import Mathlib.Data.List.Induction

namespace Replay

open List

variable {τ α : Type} {x : α} {a : τ}

/-- What a feed says of a subject. -/
inductive Event (τ α : Type) where
  | set (time : τ) (content : α)
  | bury (time : τ)
  | skip

/-- What is kept of a subject. -/
inductive Standing (τ α : Type) where
  | absent
  | listed (time : τ) (content : α)
  | buried (time : τ)

/-- What is shown of a subject. -/
def Standing.visible : Standing τ α → Option α
  | .listed _ content => some content
  | .absent | .buried _ => none

section Step

variable [LinearOrder τ]

def Standing.step : Standing τ α → Event τ α → Standing τ α
  | .buried t, .set a x => if a ≤ t then .buried t else .listed a x
  | .absent, .set a x | .listed _ _, .set a x => .listed a x
  | .listed a x, .bury t => if a ≤ t then .buried t else .listed a x
  | .absent, .bury _ => .absent
  | .buried t, .bury _ => .buried t
  | σ, .skip => σ

/-- Apply events one after the other. -/
def run (σ : Standing τ α) (events : List (Event τ α)) : Standing τ α := events.foldl Standing.step σ

variable (σ : Standing τ α)

@[simp] theorem run_nil : run σ [] = σ := rfl

@[simp] theorem run_cons (e : Event τ α) (events : List (Event τ α)) :
    run σ (e :: events) = run (σ.step e) events := rfl

theorem run_append (events more : List (Event τ α)) :
    run σ (events ++ more) = run (run σ events) more := by
  unfold run
  exact foldl_append

@[simp] theorem step_skip : σ.step .skip = σ := by cases σ <;> rfl

end Step

/-! ### Applying parts of a feed again -/

/-- All snapshots come before all burials, and none is older than one before it. -/
structure Orderly [LinearOrder τ] (events : List (Event τ α)) : Prop where
  ends : ∀ (i j : Nat) t a x, events[i]? = some (.bury t) → events[j]? = some (.set a x) → j < i
  sorted : ∀ (i j : Nat) a x b y, events[i]? = some (.set a x) → events[j]? = some (.set b y) → i ≤ j → a ≤ b

/-- A burial of a feed that covers all its snapshots, of which there are some. -/
structure Covers [LinearOrder τ] (events : List (Event τ α)) (t : τ) : Prop where
  mem : .bury t ∈ events
  some : ∃ a x, .set a x ∈ events
  all : ∀ a x, .set a x ∈ events → a ≤ t

/-- What holds of a subject when a reader stands at a position of the feed, however often it went back. -/
structure Tracks [LinearOrder τ] (events : List (Event τ α)) (position : Nat) (σ : Standing τ α) : Prop where
  listed : ∀ a x, σ = .listed a x → .set a x ∈ events
  buried : ∀ t, σ = .buried t → Covers events t
  last : ∀ (k : Nat) a x, k < position → events[k]? = some (.set a x) →
    (∀ (j : Nat) b y, events[j]? = some (.set b y) → j ≤ k) → σ = .listed a x ∨ ∃ t, σ = .buried t
  ended : ∀ (k : Nat) t, k < position → events[k]? = some (.bury t) → Covers events t → ∃ t, σ = .buried t

/-- Where there is a snapshot there is a last one. -/
theorem exists_last {events : List (Event τ α)} (h : .set a x ∈ events) :
    ∃ (k : Nat) (b : τ) (y : α), events[k]? = some (.set b y) ∧ ∀ (j : Nat) c z, events[j]? = some (.set c z) → j ≤ k := by
  induction events using List.reverseRecOn with
  | nil => cases h
  | append_singleton events e ih =>
    have hbound {j : Nat} {c : τ} {z : α} (hj : (events ++ [e])[j]? = some (.set c z)) : j ≤ events.length := by
      have hlt := (List.getElem?_eq_some_iff.mp hj).1
      rw [length_append, length_singleton] at hlt
      exact Nat.le_of_lt_succ hlt
    by_cases hset : ∃ b y, e = .set b y
    · obtain ⟨b, y, rfl⟩ := hset
      exact ⟨events.length, b, y, getElem?_concat_length, fun j c z => hbound⟩
    · have hmem : .set a x ∈ events := by
        rcases mem_append.mp h with hmem | hmem
        · exact hmem
        · exact absurd ⟨a, x, (mem_singleton.mp hmem).symm⟩ hset
      obtain ⟨k, b, y, hk, hlast⟩ := ih hmem
      refine ⟨k, b, y, ?_, ?_⟩
      · rwa [getElem?_append_left (List.getElem?_eq_some_iff.mp hk).1]
      · intro j c z hj
        rcases Nat.lt_or_eq_of_le (hbound hj) with hlt | rfl
        · rw [getElem?_append_left hlt] at hj
          exact hlast j c z hj
        · rw [getElem?_concat_length] at hj
          exact absurd ⟨c, z, Option.some.inj hj⟩ hset

namespace Tracks

variable [LinearOrder τ] {events : List (Event τ α)} {position : Nat} {σ : Standing τ α}

theorem start (events : List (Event τ α)) : Tracks events 0 .absent where
  listed := nofun
  buried := nofun
  last _ _ _ h := absurd h (Nat.not_lt_zero _)
  ended _ _ h := absurd h (Nat.not_lt_zero _)

/-- Going back loses nothing. -/
theorem rewind (h : Tracks events position σ) {earlier : Nat} (hle : earlier ≤ position) : Tracks events earlier σ where
  listed := h.listed
  buried := h.buried
  last k a x hk := h.last k a x (Nat.lt_of_lt_of_le hk hle)
  ended k t hk := h.ended k t (Nat.lt_of_lt_of_le hk hle)

theorem skip (h : Tracks events position σ) (he : events[position]? = some .skip) : Tracks events (position + 1) σ where
  listed := h.listed
  buried := h.buried
  last k a x hk hset hlast := by
    rcases Nat.lt_succ_iff_lt_or_eq.mp hk with hlt | rfl
    · exact h.last k a x hlt hset hlast
    · rw [he] at hset
      cases hset
  ended k t hk hbury hset := by
    rcases Nat.lt_succ_iff_lt_or_eq.mp hk with hlt | rfl
    · exact h.ended k t hlt hbury hset
    · rw [he] at hbury
      cases hbury

theorem set (hfeed : Orderly events) (h : Tracks events position σ)
    (he : events[position]? = some (.set a x)) : Tracks events (position + 1) (σ.step (.set a x)) := by
  have hmem : .set a x ∈ events := mem_of_getElem? he
  -- no burial comes before a snapshot
  have hnone (k : Nat) (t : τ) (hk : k < position + 1) (hbury : events[k]? = some (.bury t)) : False := by
    have hlt := hfeed.ends k position t a x hbury he
    exact absurd (Nat.lt_of_lt_of_le hlt (Nat.le_of_lt_succ hk)) (Nat.lt_irrefl _)
  have hlisted : Tracks events (position + 1) (.listed a x) := by
    constructor
    · intro b y hsame
      cases hsame
      exact hmem
    · nofun
    · intro k b y hk hset hlast
      obtain rfl : k = position := Nat.le_antisymm (Nat.le_of_lt_succ hk) (hlast position a x he)
      rw [he] at hset
      cases hset
      exact .inl rfl
    · intro k t hk hbury
      exact (hnone k t hk hbury).elim
  cases σ with
  | absent | listed => exact hlisted
  | buried t =>
    have hle : a ≤ t := (h.buried t rfl).all a x hmem
    have hstep : (Standing.buried t : Standing τ α).step (.set a x) = .buried t := if_pos hle
    rw [hstep]
    exact ⟨nofun, h.buried, fun _ _ _ _ _ _ => .inr ⟨t, rfl⟩, fun _ _ _ _ _ => ⟨t, rfl⟩⟩

theorem bury (hfeed : Orderly events) (h : Tracks events position σ) {t : τ}
    (he : events[position]? = some (.bury t)) : Tracks events (position + 1) (σ.step (.bury t)) := by
  have hmem : Event.bury t ∈ events := mem_of_getElem? he
  have hburied {t' : τ} (ht' : Covers events t') : Tracks events (position + 1) (Standing.buried t') := by
    refine ⟨nofun, ?_, fun _ _ _ _ _ _ => .inr ⟨t', rfl⟩, fun _ _ _ _ _ => ⟨t', rfl⟩⟩
    intro s hs
    cases hs
    exact ht'
  -- whatever there is to list was listed before
  have hlast {a : τ} {x : α} (hset : .set a x ∈ events) : ∃ b y, (σ = .listed b y ∨ ∃ s, σ = .buried s) ∧
      ∀ c z, .set c z ∈ events → c ≤ b := by
    obtain ⟨k, b, y, hk, hlast⟩ := exists_last hset
    refine ⟨b, y, h.last k b y (hfeed.ends position k t b y he hk) hk hlast, ?_⟩
    intro c z hmem
    obtain ⟨j, hj⟩ := mem_iff_getElem?.mp hmem
    exact hfeed.sorted j k c z b y hj hk (hlast j c z hj)
  cases σ with
  | absent =>
    have hnoSet (a : τ) (x : α) (hset : .set a x ∈ events) : False := by
      obtain ⟨_, _, hsame | ⟨_, hsame⟩, _⟩ := hlast hset <;> cases hsame
    refine ⟨nofun, nofun, ?_, ?_⟩
    · intro k a x _ hset _
      exact (hnoSet a x (mem_of_getElem? hset)).elim
    · intro _ _ _ _ hcovers
      obtain ⟨a, x, hset⟩ := hcovers.some
      exact (hnoSet a x hset).elim
  | listed a x =>
    have hset := h.listed a x rfl
    obtain ⟨b, y, hsame | ⟨_, hsame⟩, hall⟩ := hlast hset <;> cases hsame
    by_cases hle : a ≤ t
    · have hstep : (Standing.listed a x).step (.bury t) = .buried t := if_pos hle
      rw [hstep]
      exact hburied ⟨hmem, ⟨a, x, hset⟩, fun c z hc => le_trans (hall c z hc) hle⟩
    · have hstep : (Standing.listed a x).step (.bury t) = .listed a x := if_neg hle
      rw [hstep]
      refine ⟨h.listed, nofun, ?_, ?_⟩
      · intro k c z hk hc hlast
        have hlt := hfeed.ends position k t c z he hc
        exact h.last k c z hlt hc hlast
      · intro k s hk hs hcovers
        rcases Nat.lt_succ_iff_lt_or_eq.mp hk with hlt | rfl
        · exact h.ended k s hlt hs hcovers
        · rw [he] at hs
          cases hs
          exact absurd (hcovers.all a x hset) hle
  | buried t' => exact hburied (h.buried t' rfl)

end Tracks

section Reading

variable [LinearOrder τ] {events : List (Event τ α)} {position : Nat} {σ : Standing τ α}

/-- One event of the feed. -/
theorem Tracks.step (hfeed : Orderly events) (h : Tracks events position σ) {e : Event τ α}
    (he : events[position]? = some e) : Tracks events (position + 1) (σ.step e) := by
  cases e with
  | set a x => exact h.set hfeed he
  | bury t => exact h.bury hfeed he
  | skip =>
    rw [step_skip]
    exact h.skip he

/-- A stretch of the feed. -/
theorem Tracks.run (hfeed : Orderly events) (h : Tracks events position σ) {stretch : List (Event τ α)}
    (hstretch : stretch <+: events.drop position) : Tracks events (position + stretch.length) (run σ stretch) := by
  induction stretch generalizing position σ with
  | nil => exact h
  | cons e rest ih =>
    obtain ⟨tail, htail⟩ := hstretch
    have he : events[position]? = some e := by
      rw [← head?_drop, ← htail]
      rfl
    have hrest : rest <+: events.drop (position + 1) := by
      rw [← tail_drop, ← htail]
      exact prefix_append rest tail
    have hdone := ih (h.step hfeed he) hrest
    rw [length_cons, Nat.add_comm rest.length, ← Nat.add_assoc]
    exact hdone

/-- At the end of the feed it does not matter how the reader got there. -/
theorem Tracks.visible_eq {σ' : Standing τ α} (h : Tracks events events.length σ) (h' : Tracks events events.length σ') :
    σ.visible = σ'.visible := by
  have hinRange {k : Nat} {e : Event τ α} (he : events[k]? = some e) : k < events.length :=
    (List.getElem?_eq_some_iff.mp he).1
  by_cases hcovers : ∃ t, Covers events t
  · obtain ⟨t, ht⟩ := hcovers
    obtain ⟨k, hk⟩ := mem_iff_getElem?.mp ht.mem
    obtain ⟨_, rfl⟩ := h.ended k t (hinRange hk) hk ht
    obtain ⟨_, rfl⟩ := h'.ended k t (hinRange hk) hk ht
    rfl
  by_cases hset : ∃ a x, Event.set a x ∈ events
  · obtain ⟨a, x, hmem⟩ := hset
    obtain ⟨k, b, y, hk, hlast⟩ := exists_last hmem
    have honly {ρ : Standing τ α} (hρ : Tracks events events.length ρ) : ρ = .listed b y := by
      rcases hρ.last k b y (hinRange hk) hk hlast with hsame | ⟨t, rfl⟩
      · exact hsame
      · exact absurd ⟨t, hρ.buried t rfl⟩ hcovers
    rw [honly h, honly h']
  · have hnothing {ρ : Standing τ α} (hρ : Tracks events events.length ρ) : ρ = .absent := by
      cases ρ with
      | absent => rfl
      | listed a x => exact absurd ⟨a, x, hρ.listed a x rfl⟩ hset
      | buried t => exact absurd (hρ.buried t rfl).some hset
    rw [hnothing h, hnothing h']

end Reading

/-! ### Burials for good -/

/-- The snapshots among events. -/
def snapshots (events : List (Event τ α)) : List (τ × α) :=
  events.filterMap fun e => match e with
    | .set a x => some (a, x)
    | _ => none

/-- The burials among events. -/
def burials (events : List (Event τ α)) : List τ :=
  events.filterMap fun e => match e with
    | .bury t => some t
    | _ => none

theorem mem_snapshots {events : List (Event τ α)} : (a, x) ∈ snapshots events ↔ .set a x ∈ events := by
  unfold snapshots
  rw [mem_filterMap]
  constructor
  · rintro ⟨e, he, hsome⟩
    cases e <;> cases hsome
    exact he
  · intro h
    exact ⟨_, h, rfl⟩

theorem absent_ne_buried (t : τ) : (.absent : Standing τ α) ≠ .buried t := nofun

theorem listed_ne_buried (a : τ) (x : α) (t : τ) : Standing.listed a x ≠ .buried t := nofun

section Retiring

variable [LinearOrder τ]

/-- The first burial that covers the last snapshot covers all of them. -/
def Retires (shown : List (τ × α)) (times : List τ) : Prop :=
  ∀ a x, shown.getLast? = some (a, x) → ∃ t, times.find? (a ≤ ·) = some t ∧ ∀ b y, (b, y) ∈ shown → b ≤ t

variable {events : List (Event τ α)}

theorem run_absent (h : ∀ a x, .set a x ∉ events) : run .absent events = .absent := by
  induction events with
  | nil => rfl
  | cons e rest ih =>
    have hrest := ih fun a x hmem => h a x (mem_cons_of_mem _ hmem)
    cases e with
    | set a x => exact absurd mem_cons_self (h a x)
    | bury | skip => exact hrest

/-- What is shown comes from a snapshot. -/
theorem run_visible {σ : Standing τ α} (h : (run σ events).visible = some x) :
    σ.visible = some x ∨ ∃ a, .set a x ∈ events := by
  induction events generalizing σ with
  | nil => exact .inl h
  | cons e rest ih =>
    rcases ih h with hstep | ⟨a, hmem⟩
    · cases e with
      | skip =>
        rw [step_skip] at hstep
        exact .inl hstep
      | set a y =>
        have hset : σ.step (.set a y) = .listed a y ∨ ∃ t, σ.step (.set a y) = .buried t := by
          cases σ with
          | absent | listed => exact .inl rfl
          | buried t =>
            by_cases hle : a ≤ t
            · exact .inr ⟨t, if_pos hle⟩
            · exact .inl (if_neg hle)
        rcases hset with hlisted | ⟨t, hburied⟩
        · rw [hlisted] at hstep
          cases hstep
          exact .inr ⟨a, mem_cons_self⟩
        · rw [hburied] at hstep
          cases hstep
      | bury t =>
        cases σ with
        | absent | buried => exact .inl hstep
        | listed b z =>
          by_cases hle : b ≤ t
          · rw [Standing.step, if_pos hle] at hstep
            cases hstep
          · rw [Standing.step, if_neg hle] at hstep
            exact .inl hstep
    · exact .inr ⟨a, mem_cons_of_mem _ hmem⟩

/-- A burial that covers every snapshot stays. -/
theorem run_buried {t : τ} (h : ∀ a x, .set a x ∈ events → a ≤ t) : run (.buried t) events = .buried t := by
  induction events with
  | nil => rfl
  | cons e rest ih =>
    have hrest := ih fun a x hmem => h a x (mem_cons_of_mem _ hmem)
    cases e with
    | set a x =>
      rw [run_cons, Standing.step, if_pos (h a x mem_cons_self)]
      exact hrest
    | bury | skip => exact hrest

/-- Without burials the last snapshot is shown. -/
theorem run_snapshots {σ : Standing τ α} (hσ : ∀ t, σ ≠ .buried t) (h : ∀ t, .bury t ∉ events) :
    run σ events = match (snapshots events).getLast? with
      | some (a, x) => .listed a x
      | none => σ := by
  induction events generalizing σ with
  | nil => rfl
  | cons e rest ih =>
    have hrest (t : τ) (hmem : Event.bury t ∈ rest) : False := h t (mem_cons_of_mem _ hmem)
    cases e with
    | set a x =>
      have hstep : σ.step (.set a x) = .listed a x := by
        cases σ with
        | absent | listed => rfl
        | buried t => exact absurd rfl (hσ t)
      have hsnapshots : snapshots (.set a x :: rest) = (a, x) :: snapshots rest := rfl
      rw [run_cons, hstep, ih (listed_ne_buried a x) hrest, hsnapshots, getLast?_cons]
      cases (snapshots rest).getLast? <;> rfl
    | bury t => exact absurd mem_cons_self (h t)
    | skip =>
      rw [run_cons, step_skip]
      exact ih hσ hrest

/-- Behind the last snapshot the first burial that covers it counts. -/
theorem run_burials (h : ∀ b y, .set b y ∉ events) :
    run (.listed a x) events = match (burials events).find? (a ≤ ·) with
      | some t => .buried t
      | none => .listed a x := by
  induction events with
  | nil => rfl
  | cons e rest ih =>
    have hrest (b : τ) (y : α) (hmem : Event.set b y ∈ rest) : False := h b y (mem_cons_of_mem _ hmem)
    cases e with
    | set b y => exact absurd mem_cons_self (h b y)
    | bury t =>
      have hburials : burials (.bury t :: rest : List (Event τ α)) = t :: burials rest := rfl
      rw [run_cons, Standing.step, hburials, find?_cons]
      by_cases hle : a ≤ t
      · rw [if_pos hle, decide_eq_true hle]
        exact run_buried fun b y hmem => (hrest b y hmem).elim
      · rw [if_neg hle, decide_eq_false hle]
        exact ih hrest
    | skip => exact ih hrest

variable {before after again : List (Event τ α)}

/-- A subject that is retired is never shown again, whatever is applied again. -/
theorem Retires.visible_eq_none (h : Retires (snapshots before) (burials after)) (hbefore : ∀ t, .bury t ∉ before)
    (hafter : ∀ a x, .set a x ∉ after) (hagain : ∀ a x, .set a x ∈ again → .set a x ∈ before) :
    (run .absent (before ++ after ++ again)).visible = none := by
  rw [run_append, run_append, run_snapshots absent_ne_buried hbefore]
  cases hlast : (snapshots before).getLast? with
  | none =>
    have hnothing (a : τ) (x : α) (hmem : .set a x ∈ before) : False := by
      rw [← mem_snapshots, getLast?_eq_none_iff.mp hlast] at hmem
      cases hmem
    simp only [run_absent hafter, run_absent fun a x hmem => hnothing a x (hagain a x hmem), Standing.visible]
  | some last =>
    obtain ⟨a, x⟩ := last
    obtain ⟨t, hfind, hcovers⟩ := h a x hlast
    have hstays : run (.buried t) again = .buried t :=
      run_buried fun b y hmem => hcovers b y (mem_snapshots.mpr (hagain b y hmem))
    simp only [run_burials hafter, hfind, hstays, Standing.visible]

/-- Every snapshot of a subject that is not retired can be shown again. -/
theorem visible_of_not_retires (h : ¬Retires (snapshots before) (burials after)) (hbefore : ∀ t, .bury t ∉ before)
    (hafter : ∀ a x, .set a x ∉ after) (hset : .set a x ∈ before) :
    ∃ again, (∀ e ∈ again, e ∈ before) ∧ (run .absent (before ++ after ++ again)).visible = some x := by
  unfold Retires at h
  push Not at h
  obtain ⟨c, z, hlast, hnever⟩ := h
  cases hfind : (burials after).find? (c ≤ ·) with
  | none =>
    refine ⟨[.set a x], by simpa using hset, ?_⟩
    rw [run_append, run_append, run_snapshots absent_ne_buried hbefore, hlast]
    simp only [run_burials hafter, hfind]
    rfl
  | some t =>
    obtain ⟨b, y, hmem, hnewer⟩ := hnever t hfind
    refine ⟨[.set b y, .set a x], by simpa using ⟨mem_snapshots.mp hmem, hset⟩, ?_⟩
    rw [run_append, run_append, run_snapshots absent_ne_buried hbefore, hlast]
    simp only [run_burials hafter, hfind, run_cons, Standing.step, if_neg (not_le.mpr hnewer)]
    rfl

end Retiring

end Replay
