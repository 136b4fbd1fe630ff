/-
Purpose: Tables of a relational store: rows under integer keys that are handed out in increasing order and
  never reused.  A table carries that fact, so a key determines its row.
Trusted boundary: none
-/
import Mathlib.Data.List.Nodup

/-- Rows under keys that increase in the order of insertion, and the next key to hand out. -/
structure Table (α : Type) where
  rows : List (Nat × α)
  next : Nat
  increasing : (rows.map Prod.fst).Pairwise (· < ·)
  bounded : ∀ row ∈ rows, 0 < row.1 ∧ row.1 < next
  positive : 0 < next

namespace Table

open List

variable {α : Type}

/-- The empty table; the first key is one. -/
def empty : Table α where
  rows := []
  next := 1
  increasing := Pairwise.nil
  bounded := by simp
  positive := Nat.one_pos

/-- `INSERT`: a row under the next key. -/
def insert (t : Table α) (a : α) : Table α where
  rows := t.rows ++ [(t.next, a)]
  next := t.next + 1
  increasing := by
    rw [map_append, pairwise_append]
    refine ⟨t.increasing, pairwise_singleton _ _, ?_⟩
    intro i hi j hj
    obtain ⟨row, hrow, rfl⟩ := mem_map.mp hi
    have hnew : j = t.next := by simpa using hj
    rw [hnew]
    exact (t.bounded row hrow).2
  bounded := by
    intro row hrow
    rcases mem_append.mp hrow with h | h
    · exact ⟨(t.bounded row h).1, Nat.lt_succ_of_lt (t.bounded row h).2⟩
    · rw [mem_singleton] at h
      subst h
      exact ⟨t.positive, Nat.lt_succ_self _⟩
  positive := Nat.succ_pos _

/-- `UPDATE … WHERE`: rewrite the selected rows in place. -/
def update (t : Table α) (selects : Nat → α → Bool) (f : α → α) : Table α where
  rows := t.rows.map fun row => (row.1, if selects row.1 row.2 then f row.2 else row.2)
  next := t.next
  increasing := by simpa [map_map, Function.comp_def] using t.increasing
  bounded := by
    intro row hrow
    obtain ⟨old, hold, rfl⟩ := mem_map.mp hrow
    exact t.bounded old hold
  positive := t.positive

/-- `DELETE … WHERE`. -/
def delete (t : Table α) (selects : Nat → α → Bool) : Table α where
  rows := t.rows.filter fun row => !selects row.1 row.2
  next := t.next
  increasing := t.increasing.sublist (Sublist.map _ filter_sublist)
  bounded := fun row hrow => t.bounded row (mem_of_mem_filter hrow)
  positive := t.positive

/-- `SELECT … WHERE`, in the order of the keys. -/
def select (t : Table α) (selects : Nat → α → Bool) : List (Nat × α) :=
  t.rows.filter fun row => selects row.1 row.2

/-- `SELECT … WHERE … LIMIT 1`, in the order of the keys. -/
def first (t : Table α) (selects : Nat → α → Bool) : Option (Nat × α) :=
  t.rows.find? fun row => selects row.1 row.2

/-- `SELECT … WHERE … ORDER BY id DESC LIMIT 1`. -/
def last (t : Table α) (selects : Nat → α → Bool) : Option (Nat × α) :=
  (t.select selects).getLast?

/-- `SELECT … WHERE … AND id > afterID ORDER BY id LIMIT limit`. -/
def page (t : Table α) (selects : Nat → α → Bool) (afterID limit : Nat) : List (Nat × α) :=
  (t.select fun i a => selects i a && decide (afterID < i)).take limit

/-- The rows whose keys were handed out from a key on. -/
def since (t : Table α) (key : Nat) : List (Nat × α) := t.rows.filter fun row => decide (key ≤ row.1)

variable {t : Table α} {i : Nat} {a b : α} {selects : Nat → α → Bool} {f : α → α}

@[simp] theorem rows_empty : (empty : Table α).rows = [] := rfl

@[simp] theorem mem_insert : (i, b) ∈ (t.insert a).rows ↔ (i, b) ∈ t.rows ∨ (i, b) = (t.next, a) := by
  unfold insert
  rw [mem_append, mem_singleton]

@[simp] theorem mem_update : (i, b) ∈ (t.update selects f).rows ↔
    ∃ a, (i, a) ∈ t.rows ∧ b = if selects i a then f a else a := by
  unfold update
  rw [mem_map]
  constructor
  · rintro ⟨⟨j, a⟩, hrow, heq⟩
    obtain ⟨rfl, rfl⟩ := Prod.mk.inj heq
    exact ⟨a, hrow, rfl⟩
  · rintro ⟨a, hrow, rfl⟩
    exact ⟨(i, a), hrow, rfl⟩

@[simp] theorem mem_select : (i, b) ∈ t.select selects ↔ (i, b) ∈ t.rows ∧ selects i b = true := by
  unfold select
  rw [mem_filter]

theorem mem_delete : (i, a) ∈ (t.delete selects).rows ↔ (i, a) ∈ t.rows ∧ selects i a = false := by
  simp [delete]

theorem mem_of_first (h : t.first selects = some (i, a)) : (i, a) ∈ t.rows ∧ selects i a = true := by
  unfold first at h
  have hsel := find?_some h
  exact ⟨mem_of_find?_eq_some h, hsel⟩

theorem mem_of_last (h : t.last selects = some (i, a)) : (i, a) ∈ t.rows ∧ selects i a = true :=
  mem_select.mp (mem_of_getLast? h)

@[simp] theorem since_next : t.since t.next = [] := by
  apply filter_eq_nil_iff.mpr
  intro row hrow
  simpa using (t.bounded row hrow).2

@[simp] theorem since_insert : (t.insert a).since t.next = [(t.next, a)] := by
  have hold : t.rows.filter (fun row => decide (t.next ≤ row.1)) = [] := since_next
  simp [since, insert, hold]

/-- A key determines its row. -/
theorem mem_unique (ha : (i, a) ∈ t.rows) (hb : (i, b) ∈ t.rows) : a = b := by
  have hnodup : (t.rows.map Prod.fst).Nodup := t.increasing.imp Nat.ne_of_lt
  exact congrArg Prod.snd (inj_on_of_nodup_map hnodup ha hb rfl)

theorem ext_rows {t u : Table α} (hrows : t.rows = u.rows) (hnext : t.next = u.next) : t = u := by
  cases t
  cases u
  cases hrows
  cases hnext
  rfl

/-- Two updates that agree on every stored row are the same. -/
theorem update_congr {selects' : Nat → α → Bool} {g : α → α}
    (h : ∀ i a, (i, a) ∈ t.rows → (if selects i a then f a else a) = if selects' i a then g a else a) :
    t.update selects f = t.update selects' g := by
  refine ext_rows ?_ rfl
  apply map_congr_left
  rintro ⟨i, a⟩ hrow
  exact congrArg (Prod.mk i) (h i a hrow)

/-- An update that rewrites every stored row to itself does nothing. -/
theorem update_eq_self (h : ∀ i a, (i, a) ∈ t.rows → selects i a = true → f a = a) : t.update selects f = t := by
  refine ext_rows ?_ rfl
  conv_rhs => rw [← map_id t.rows]
  apply map_congr_left
  rintro ⟨i, a⟩ hrow
  refine congrArg (Prod.mk i) ?_
  split
  · exact h i a hrow ‹_›
  · rfl

/-- Two rounds of one idempotent update are one round. -/
theorem update_update (idempotent : ∀ a, f (f a) = f a) (p q : Nat → α → Bool) :
    (t.update p f).update q f = t.update (fun i a => p i a || q i a) f := by
  refine ext_rows ?_ rfl
  unfold update
  simp only [map_map]
  apply map_congr_left
  rintro ⟨i, a⟩ _
  by_cases hp : p i a = true <;> simp [hp, idempotent]

/-- A condition that holds of one row selects that row. -/
theorem select_eq_singleton (ha : (i, a) ∈ t.rows) (hsel : selects i a = true)
    (only : ∀ j b, (j, b) ∈ t.rows → selects j b = true → j = i) : t.select selects = [(i, a)] := by
  have hall : ∀ row ∈ t.select selects, row = (i, a) := by
    rintro ⟨j, b⟩ hrow
    obtain ⟨hmem, hb⟩ := mem_select.mp hrow
    obtain rfl := only j b hmem hb
    rw [mem_unique ha hmem]
  have hnodup : (t.select selects).Nodup := by
    have hkeys : (t.rows.map Prod.fst).Nodup := t.increasing.imp Nat.ne_of_lt
    exact (Nodup.of_map _ hkeys).filter _
  rw [eq_replicate_of_mem hall] at hnodup ⊢
  have hle := nodup_replicate.mp hnodup
  have hpos := length_pos_of_mem (mem_select.mpr ⟨ha, hsel⟩)
  rw [Nat.le_antisymm hle hpos]
  rfl

theorem mem_of_page {afterID limit : Nat} (h : (i, a) ∈ t.page selects afterID limit) :
    (i, a) ∈ t.rows ∧ selects i a = true ∧ afterID < i := by
  obtain ⟨hmem, hsel⟩ := mem_select.mp (mem_of_mem_take h)
  rw [Bool.and_eq_true, decide_eq_true_iff] at hsel
  exact ⟨hmem, hsel⟩

/-- A selected row beyond the position is on the page, or the page is full of rows before it and a follower who
moves on to the last of them gets closer. -/
theorem mem_page_or_before {afterID limit : Nat} (ha : (i, a) ∈ t.rows) (hsel : selects i a = true)
    (hafter : afterID < i) (hlimit : 0 < limit) : (i, a) ∈ t.page selects afterID limit ∨
      ∃ last, (t.page selects afterID limit).getLast? = some last ∧ last.1 < i := by
  have hmem : (i, a) ∈ t.select fun i a => selects i a && decide (afterID < i) :=
    mem_select.mpr ⟨ha, by simp [hsel, hafter]⟩
  have hsorted : (t.select fun i a => selects i a && decide (afterID < i)).Pairwise fun x y => x.1 < y.1 :=
    (pairwise_map.mp t.increasing).filter _
  unfold page
  generalize (t.select fun i a => selects i a && decide (afterID < i)) = rows at hmem hsorted
  rw [← take_append_drop limit rows] at hmem hsorted
  rcases mem_append.mp hmem with htake | hdrop
  · exact .inl htake
  · right
    have hlong : limit < rows.length := by
      by_contra hshort
      rw [drop_eq_nil_of_le (Nat.le_of_not_lt hshort)] at hdrop
      cases hdrop
    have hne : rows.take limit ≠ [] := by
      apply ne_nil_of_length_pos
      rw [length_take]
      omega
    refine ⟨_, getLast?_eq_some_getLast hne, ?_⟩
    exact (pairwise_append.mp hsorted).2.2 _ (getLast_mem hne) _ hdrop

/-- No row has the key that is handed out next. -/
theorem not_mem_next : (t.next, a) ∉ t.rows := by
  intro h
  exact Nat.lt_irrefl _ (t.bounded _ h).2

/-- Every row stays under its key, and the fixed columns stay as they are. -/
def Stays {β : Type} (fixed : α → β) (t u : Table α) : Prop :=
  ∀ i a, (i, a) ∈ t.rows → ∃ b, (i, b) ∈ u.rows ∧ fixed b = fixed a

namespace Stays

variable {β : Type} {fixed : α → β} {u v : Table α}

theorem refl : Stays fixed t t := fun _ a h => ⟨a, h, rfl⟩

theorem trans (h : Stays fixed t u) (h' : Stays fixed u v) : Stays fixed t v := by
  intro i a ha
  obtain ⟨b, hb, hfixed⟩ := h i a ha
  obtain ⟨c, hc, hfixed'⟩ := h' i b hb
  exact ⟨c, hc, hfixed'.trans hfixed⟩

theorem insert : Stays fixed t (t.insert a) := fun _ b h => ⟨b, mem_insert.mpr (.inl h), rfl⟩

theorem update (hf : ∀ a, fixed (f a) = fixed a) : Stays fixed t (t.update selects f) := by
  intro i a h
  refine ⟨_, mem_update.mpr ⟨a, h, rfl⟩, ?_⟩
  split
  · exact hf a
  · rfl

end Stays

end Table
