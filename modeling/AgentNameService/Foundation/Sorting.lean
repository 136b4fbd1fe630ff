/-
Purpose: Lists sorted by a key: when the order of the input shows in the output, which elements a cut leaves behind, and
  when counting by groups counts an element twice.
Trusted boundary: none
-/
import Mathlib.Data.List.Sort
import Mathlib.Algebra.BigOperators.Group.List.Basic
import Mathlib.Algebra.Order.BigOperators.Group.List
import Mathlib.Algebra.Order.Group.Nat
import Mathlib.Algebra.Ring.Nat
import Mathlib.Data.Finset.Card

namespace Sorting

open List

variable {α β κ : Type} [LinearOrder κ]

/-- The elements by their keys; equal keys keep their order. -/
def sortBy (key : α → κ) (items : List α) : List α := items.insertionSort fun a b => key a ≤ key b

variable {key : α → κ} {shown : α → β} {items others : List α} {a b : α}

theorem sortBy_perm : (sortBy key items).Perm items := perm_insertionSort _ _

theorem sortBy_pairwise : (sortBy key items).Pairwise fun a b => key a ≤ key b := by
  have : IsTrans α fun a b => key a ≤ key b := ⟨fun _ _ _ => le_trans⟩
  have : Std.Total fun a b : α => key a ≤ key b := ⟨fun a b => le_total (key a) (key b)⟩
  exact pairwise_insertionSort _ _

theorem sortBy_strict (hkeys : (items.map key).Nodup) : (sortBy key items).Pairwise fun a b => key a < key b := by
  have hne : (sortBy key items).Pairwise fun a b => key a ≠ key b :=
    pairwise_map.mp ((sortBy_perm.map key).nodup_iff.mpr hkeys)
  exact (sortBy_pairwise.and hne).imp fun ⟨hle, hne⟩ => lt_of_le_of_ne hle hne

theorem sortBy_map (f : β → α) (inputs : List β) : sortBy key (inputs.map f) = (sortBy (fun b => key (f b)) inputs).map f :=
  (map_insertionSort _ _ f inputs fun _ _ _ _ => Iff.rfl).symm

/-- What is shown does not depend on the order of the input where it is the same for equal keys. -/
theorem map_sortBy_eq (hperm : items.Perm others)
    (hties : ∀ a ∈ items, ∀ b ∈ items, key a = key b → shown a = shown b) :
    (sortBy key items).map shown = (sortBy key others).map shown := by
  -- sorted with their keys, both lists are the same
  have hsorted (list : List α) : ((sortBy key list).map fun a => (key a, shown a)).Pairwise fun p q => p.1 ≤ q.1 :=
    pairwise_map.mpr sortBy_pairwise
  have hpairs : (sortBy key items).map (fun a => (key a, shown a)) = (sortBy key others).map fun a => (key a, shown a) := by
    refine Perm.eq_of_pairwise ?_ (hsorted items) (hsorted others)
      ((sortBy_perm.trans (hperm.trans sortBy_perm.symm)).map _)
    intro p q hp hq hpq hqp
    obtain ⟨a, ha, rfl⟩ := mem_map.mp hp
    obtain ⟨b, hb, rfl⟩ := mem_map.mp hq
    have hkey : key a = key b := le_antisymm hpq hqp
    have hshown := hties a (sortBy_perm.mem_iff.mp ha) b (hperm.mem_iff.mpr (sortBy_perm.mem_iff.mp hb)) hkey
    rw [hkey, hshown]
  simpa [map_map, Function.comp_def] using congrArg (map Prod.snd) hpairs

/-- Two elements with one key come out as they come in. -/
theorem sortBy_cons_cons {k : κ} (ha : key a = k) (hb : key b = k) :
    sortBy key (a :: b :: items) = (sortBy key items).takeWhile (fun x => ¬ k ≤ key x) ++
      a :: b :: (sortBy key items).dropWhile (fun x => ¬ k ≤ key x) := by
  unfold sortBy
  rw [insertionSort_cons, insertionSort_cons]
  generalize items.insertionSort (fun a b => key a ≤ key b) = sorted
  have hfront : ∀ x ∈ sorted.takeWhile (fun x => decide ¬ k ≤ key x), decide (¬ k ≤ key x) = true :=
    all_eq_true.mp all_takeWhile
  rw [orderedInsert_eq_take_drop, orderedInsert_eq_take_drop]
  simp only [ha, hb]
  rw [takeWhile_append_of_pos hfront, dropWhile_append_of_pos hfront]
  simp [hb]

/-- What is shown depends on the order of the input as soon as one key has two different images. -/
theorem exists_perm_of_tie [DecidableEq α] (key : α → κ) (shown : α → β) (ha : a ∈ items) (hb : b ∈ items)
    (hkey : key a = key b) (hne : shown a ≠ shown b) :
    ∃ others, others.Perm items ∧ (sortBy key others).map shown ≠ (sortBy key items).map shown := by
  have hb' : b ∈ items.erase a := (mem_erase_of_ne fun heq => hne (congrArg shown heq.symm)).mpr hb
  have hperm : (a :: b :: (items.erase a).erase b).Perm items :=
    (((perm_cons_erase hb').cons a).symm).trans (perm_cons_erase ha).symm
  by_contra hnone
  push Not at hnone
  have hfirst := hnone _ hperm
  rw [← hnone _ ((Perm.swap a b _).trans hperm), sortBy_cons_cons hkey rfl, sortBy_cons_cons rfl hkey] at hfirst
  simp only [map_append, map_cons, append_cancel_left_eq, cons.injEq] at hfirst
  exact hne hfirst.1

/-- The least and the greatest element do not depend on the order. -/
theorem extrema_eq_of_perm {xs ys : List κ} (hperm : xs.Perm ys) : xs.min? = ys.min? ∧ xs.max? = ys.max? := by
  constructor <;> apply Option.ext <;> intro a
  · simp only [min?_eq_some_iff, hperm.mem_iff]
  · simp only [max?_eq_some_iff, hperm.mem_iff]

/-- In a strictly sorted list, a cut leaves behind the elements that enough others come before. -/
theorem mem_drop_iff (hsorted : items.Pairwise fun a b => key a < key b) {n : Nat} :
    a ∈ items.drop n ↔ a ∈ items ∧ n ≤ items.countP fun b => key b < key a := by
  induction items generalizing n with
  | nil => simp
  | cons first rest ih =>
    rw [pairwise_cons] at hsorted
    cases n with
    | zero => simp
    | succ n =>
      rw [drop_succ_cons, ih hsorted.2, countP_cons, mem_cons]
      constructor
      · rintro ⟨ha, hn⟩
        simp [hsorted.1 a ha, ha, hn]
      · rintro ⟨rfl | ha, hn⟩
        · -- nothing comes before the first
          have hnone : rest.countP (fun b => key b < key a) = 0 := by
            rw [countP_eq_zero]
            intro b hb
            simp [(hsorted.1 b hb).le]
          simp [hnone] at hn
        · simp only [hsorted.1 a ha, decide_true, if_true] at hn
          exact ⟨ha, Nat.le_of_succ_le_succ hn⟩

/-- Counting by groups counts an element once too often for every group after its first. -/
theorem sum_countP (isIn : β → α → Bool) (groups : List β) :
    (groups.map fun g => items.countP (isIn g)).sum = items.countP (fun a => groups.any (isIn · a)) +
      (items.map fun a => groups.countP (isIn · a) - 1).sum := by
  have hones (p : β → Bool) : (groups.map fun g => if p g then 1 else 0).sum = groups.countP p := by
    induction groups with
    | nil => rfl
    | cons g more ih => rw [map_cons, sum_cons, ih, countP_cons, Nat.add_comm]
  induction items with
  | nil => simp
  | cons first rest ih =>
    have hany : (if groups.any (isIn · first) then 1 else 0) + (groups.countP (isIn · first) - 1) =
        groups.countP (isIn · first) := by
      split
      · rename_i h
        have hpos := countP_pos_iff.mpr (any_eq_true.mp h)
        omega
      · rename_i h
        have hzero := countP_eq_zero.mpr (by simpa using h)
        omega
    simp only [countP_cons, sum_map_add, hones, map_cons, sum_cons, ih]
    omega

/-- Counting by groups is exact when no element is in two groups, and only then. -/
theorem sum_countP_eq_iff [DecidableEq β] {isIn : β → α → Bool} {groups : List β} (hgroups : groups.Nodup) :
    (groups.map fun g => items.countP (isIn g)).sum = items.countP (fun a => groups.any (isIn · a)) ↔
      ∀ a ∈ items, ∀ g ∈ groups, ∀ h ∈ groups, isIn g a → isIn h a → g = h := by
  rw [sum_countP, Nat.add_eq_left, sum_eq_zero_iff, forall_mem_map]
  refine forall₂_congr fun a _ => ?_
  rw [Nat.sub_eq_zero_iff_le, countP_eq_length_filter, ← toFinset_card_of_nodup (hgroups.filter _),
    Finset.card_le_one]
  simp only [mem_toFinset, mem_filter]
  constructor
  · intro hone g hg h hh hga hha
    exact hone g ⟨hg, hga⟩ h ⟨hh, hha⟩
  · rintro hone g ⟨hg, hga⟩ h ⟨hh, hha⟩
    exact hone g hg h hh hga hha

end Sorting
