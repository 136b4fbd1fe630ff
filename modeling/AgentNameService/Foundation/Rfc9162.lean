/-
Purpose: The tree shape, tree hash and audit paths of RFC 9162 section 2.1, over an arbitrary hash.
  A list of `n` entries is split at the largest power of two below `n`; the words that lead to leaves of
  that shape are computed from the size alone.
Trusted boundary: human-reviewed spec (treeHash, auditPath)
-/
import AgentNameService.Foundation.MerkleTree
import Mathlib.Data.Nat.Log

namespace MerkleTree

open List

variable {n : Nat}
variable {a : Nat}

/-! ### The split point -/

/-- The largest power of two smaller than `n`, for `n` at least two. -/
def splitPoint (n : Nat) : Nat := 2 ^ Nat.log2 (n - 1)

theorem splitPoint_pos (n : Nat) : 0 < splitPoint n := Nat.two_pow_pos _

theorem splitPoint_lt (two : 2 ≤ n) : splitPoint n < n := by
  have below : 2 ^ Nat.log2 (n - 1) ≤ n - 1 := Nat.log2_self_le (by omega)
  unfold splitPoint
  omega

theorem sub_splitPoint_le (n : Nat) : n - splitPoint n ≤ splitPoint n := by
  have above : n - 1 < 2 ^ (Nat.log2 (n - 1) + 1) := Nat.lt_log2_self
  unfold splitPoint
  rw [Nat.pow_succ] at above
  omega

theorem splitPoint_eq (above : 2 ^ a < n) (below : n ≤ 2 ^ (a + 1)) : splitPoint n = 2 ^ a := by
  have positive := Nat.two_pow_pos a
  have exponent : Nat.log2 (n - 1) = a := (Nat.log2_eq_iff (by omega)).mpr ⟨by omega, by omega⟩
  rw [splitPoint, exponent]

theorem splitPoint_le (two : 2 ≤ n) (below : n ≤ 2 ^ (a + 1)) : splitPoint n ≤ 2 ^ a := by
  have small : Nat.log2 (n - 1) < a + 1 := (Nat.log2_lt (by omega)).mpr (by omega)
  exact Nat.pow_le_pow_right (by omega) (by omega)

/-! ### HashTree hash, audit path and the tree of a list -/

section Definitions

variable (H : Bytes → Digest)

/-- `MTH(D)`. -/
def treeHash : List Bytes → Digest
  | [] => H []
  | [entry] => H (leafInput entry)
  | entry₀ :: entry₁ :: entries =>
    let D := entry₀ :: entry₁ :: entries
    let k := splitPoint D.length
    H (nodeInput (treeHash (D.take k)) (treeHash (D.drop k)))
termination_by D => D.length
decreasing_by
  all_goals
    have lt := splitPoint_lt (n := (entry₀ :: entry₁ :: entries).length) (by simp)
    have pos := splitPoint_pos (entry₀ :: entry₁ :: entries).length
    simp only [length_take, length_drop]
    omega

/-- `PATH(m, D)`, in leaf-to-root order. -/
def auditPath (m : Nat) : List Bytes → List Digest
  | [] => []
  | [_] => []
  | entry₀ :: entry₁ :: entries =>
    let D := entry₀ :: entry₁ :: entries
    let k := splitPoint D.length
    if m < k then
      auditPath m (D.take k) ++ [treeHash H (D.drop k)]
    else
      auditPath (m - k) (D.drop k) ++ [treeHash H (D.take k)]
termination_by D => D.length
decreasing_by
  all_goals
    have lt := splitPoint_lt (n := (entry₀ :: entry₁ :: entries).length) (by simp)
    have pos := splitPoint_pos (entry₀ :: entry₁ :: entries).length
    simp only [length_take, length_drop]
    omega

end Definitions

/-- The tree of a non-empty list. -/
def HashTree.ofList {α : Type} [Inhabited α] (D : List α) : HashTree α :=
  if 2 ≤ D.length then
    .node (HashTree.ofList (D.take (splitPoint D.length))) (HashTree.ofList (D.drop (splitPoint D.length)))
  else
    .leaf D.head!
termination_by D.length
decreasing_by
  all_goals
    have lt := splitPoint_lt (by assumption)
    have pos := splitPoint_pos D.length
    simp only [length_take, length_drop]
    omega

/-- The word of sides from the root to leaf `i` of a tree of `n` leaves. -/
def leafWord (n i : Nat) : List Bool :=
  if 2 ≤ n then
    if i < splitPoint n then false :: leafWord (splitPoint n) i
    else true :: leafWord (n - splitPoint n) (i - splitPoint n)
  else []
termination_by n
decreasing_by
  all_goals
    have lt := splitPoint_lt (by assumption)
    have pos := splitPoint_pos n
    omega

/-- The index of the leaf at the end of a word in a tree of `n` leaves, if the word ends at a leaf. -/
def leafAt (n : Nat) : List Bool → Option Nat
  | [] => if n ≤ 1 then some 0 else none
  | side :: word =>
    if n ≤ 1 then none
    else if side then (leafAt (n - splitPoint n) word).map (splitPoint n + ·)
    else leafAt (splitPoint n) word

/-- The word passes through a leaf of a tree of `n` leaves, or ends at one. -/
def covers (n : Nat) : List Bool → Bool
  | [] => n ≤ 1
  | side :: word => n ≤ 1 || covers (if side then n - splitPoint n else splitPoint n) word

/-! ### One-level unfoldings -/

variable {H : Bytes → Digest} {word : List Bool} {i : Nat} {j : Nat}

theorem treeHash_split {D : List Bytes} (two : 2 ≤ D.length) : treeHash H D =
      H (nodeInput (treeHash H (D.take (splitPoint D.length))) (treeHash H (D.drop (splitPoint D.length)))) := by
  match D, two with
  | entry₀ :: entry₁ :: entries, _ => rw [treeHash]

theorem auditPath_split (m : Nat) {D : List Bytes} (two : 2 ≤ D.length) : auditPath H m D =
      if m < splitPoint D.length then
        auditPath H m (D.take (splitPoint D.length)) ++ [treeHash H (D.drop (splitPoint D.length))] else
        auditPath H (m - splitPoint D.length) (D.drop (splitPoint D.length)) ++
          [treeHash H (D.take (splitPoint D.length))] := by
  match D, two with
  | entry₀ :: entry₁ :: entries, _ => rw [auditPath]

/-- An audit path is no longer than the list. -/
theorem length_auditPath_le (m : Nat) (D : List Bytes) : (auditPath H m D).length ≤ D.length := by
  fun_induction auditPath H m D with
  | case1 => exact Nat.le_refl 0
  | case2 => exact Nat.zero_le _
  | case3 m entry₀ entry₁ entries D k left ih =>
    have hlt : k < D.length := splitPoint_lt (by simp [D])
    rw [length_take] at ih
    rw [length_append, length_singleton]
    change _ ≤ D.length
    omega
  | case4 m entry₀ entry₁ entries D k right ih =>
    have hpos : 0 < k := splitPoint_pos D.length
    have hlt : k < D.length := splitPoint_lt (by simp [D])
    rw [length_drop] at ih
    rw [length_append, length_singleton]
    change _ ≤ D.length
    omega

theorem HashTree.ofList_split {α : Type} [Inhabited α] {D : List α} (two : 2 ≤ D.length) : HashTree.ofList D =
      .node (HashTree.ofList (D.take (splitPoint D.length))) (HashTree.ofList (D.drop (splitPoint D.length))) := by
  rw [HashTree.ofList, if_pos two]

@[simp] theorem HashTree.ofList_singleton {α : Type} [Inhabited α] (entry : α) :
    HashTree.ofList [entry] = .leaf entry := by
  rw [HashTree.ofList, if_neg (by simp)]
  rfl

theorem leafWord_small (small : n ≤ 1) (i : Nat) : leafWord n i = [] := by
  rw [leafWord, if_neg (by omega)]

theorem leafWord_left (two : 2 ≤ n) (left : i < splitPoint n) :
    leafWord n i = false :: leafWord (splitPoint n) i := by
  rw [leafWord, if_pos two, if_pos left]

theorem leafWord_right (two : 2 ≤ n) (right : splitPoint n ≤ i) :
    leafWord n i = true :: leafWord (n - splitPoint n) (i - splitPoint n) := by
  rw [leafWord, if_pos two, if_neg (by omega)]

theorem leafAt_small (small : n ≤ 1) (word : List Bool) : leafAt n word = if word = [] then some 0 else none := by
  cases word <;> simp [leafAt, small]

theorem leafAt_nil (two : 2 ≤ n) : leafAt n [] = none := by
  simp [leafAt, show ¬ n ≤ 1 by omega]

theorem leafAt_left (two : 2 ≤ n) (word : List Bool) : leafAt n (false :: word) = leafAt (splitPoint n) word := by
  simp [leafAt, show ¬ n ≤ 1 by omega]

theorem leafAt_right (two : 2 ≤ n) (word : List Bool) :
    leafAt n (true :: word) = (leafAt (n - splitPoint n) word).map (splitPoint n + ·) := by
  simp [leafAt, show ¬ n ≤ 1 by omega]

/-! ### The halves of a list -/

section Halves

variable {α : Type} {D : List α}

theorem length_take_splitPoint (two : 2 ≤ D.length) : (D.take (splitPoint D.length)).length = splitPoint D.length := by
  have lt := splitPoint_lt two
  simp only [length_take]
  omega

theorem length_drop_splitPoint : (D.drop (splitPoint D.length)).length = D.length - splitPoint D.length :=
  length_drop

/-- Induction along the split of a non-empty list: a claim about lists holds when it holds of one
entry and passes from both halves to the whole. -/
theorem split_induction {motive : List α → Prop} (single : ∀ entry, motive [entry])
    (split : ∀ D, 2 ≤ D.length → motive (D.take (splitPoint D.length)) →
      motive (D.drop (splitPoint D.length)) → motive D) (D : List α) (nonempty : D ≠ []) : motive D := by
  match D with
  | [] => exact absurd rfl nonempty
  | [entry] => exact single entry
  | entry₀ :: entry₁ :: entries =>
    have two : 2 ≤ (entry₀ :: entry₁ :: entries).length := by simp
    have lt := splitPoint_lt two
    have pos := splitPoint_pos (entry₀ :: entry₁ :: entries).length
    refine split _ two (split_induction single split _ ?_) (split_induction single split _ ?_)
    · exact ne_nil_of_length_pos (by rw [length_take_splitPoint two]; exact pos)
    · exact ne_nil_of_length_pos (by rw [length_drop_splitPoint]; omega)
termination_by D.length
decreasing_by
  all_goals
    simp only [length_take, length_drop]
    omega

end Halves

/-- The tree of a list hashes to the list's tree hash. -/
theorem hash_ofList (D : List Bytes) (nonempty : D ≠ []) : (HashTree.ofList D).hash H = treeHash H D := by
  refine split_induction (motive := fun D => (HashTree.ofList D).hash H = treeHash H D) ?_ ?_ D nonempty
  · intro entry
    rw [HashTree.ofList_singleton, treeHash, HashTree.hash]
  · intro D two left right
    rw [HashTree.ofList_split two, treeHash_split two, HashTree.hash, left, right]

/-! ### Words and leaves -/

theorem leafAt_leafWord (inside : i < n) : leafAt n (leafWord n i) = some i := by
  induction n using Nat.strongRecOn generalizing i with
  | ind n ih =>
    by_cases two : 2 ≤ n
    · have lt := splitPoint_lt two
      have pos := splitPoint_pos n
      by_cases left : i < splitPoint n
      · rw [leafWord_left two left, leafAt_left two, ih _ lt left]
      · rw [leafWord_right two (by omega), leafAt_right two, ih _ (by omega) (by omega)]
        simp only [Option.map_some, Option.some.injEq]
        omega
    · rw [leafWord_small (by omega), leafAt_small (by omega)]
      simp only [if_true, Option.some.injEq]
      omega

theorem leafAt_lt (positive : 0 < n) (found : leafAt n word = some j) : j < n := by
  induction word generalizing n j with
  | nil =>
    simp only [leafAt, Option.ite_none_right_eq_some, Option.some.injEq] at found
    omega
  | cons side word ih =>
    by_cases two : 2 ≤ n
    · have lt := splitPoint_lt two
      cases side with
      | false =>
        rw [leafAt_left two] at found
        exact Nat.lt_trans (ih (splitPoint_pos n) found) lt
      | true =>
        rw [leafAt_right two, Option.map_eq_some_iff] at found
        obtain ⟨j', found', rfl⟩ := found
        have bound := ih (by omega) found'
        omega
    · simp [leafAt_small (show n ≤ 1 by omega)] at found

/-- A word ends at a leaf of the tree of `D` exactly when `leafAt` computes that leaf's index. -/
theorem follow_ofList {α : Type} [Inhabited α] (D : List α) (nonempty : D ≠ []) (word : List Bool) (entry : α) :
    (HashTree.ofList D).follow word = some (.leaf entry) ↔ ∃ j, leafAt D.length word = some j ∧ D[j]? = some entry := by
  refine split_induction (motive := fun D => ∀ word,
    (HashTree.ofList D).follow word = some (.leaf entry) ↔
      ∃ j, leafAt D.length word = some j ∧ D[j]? = some entry) ?_ ?_ D nonempty word
  · intro only word
    rw [HashTree.ofList_singleton]
    cases word with
    | nil | cons => simp [leafAt]
  · intro D two left right word
    rw [HashTree.ofList_split two]
    cases word with
    | nil => simp [leafAt_nil two]
    | cons side word =>
      cases side with
      | false =>
        rw [HashTree.follow_node, if_neg (by simp), left, leafAt_left two, length_take_splitPoint two]
        refine exists_congr fun j => and_congr_right fun found => ?_
        rw [getElem?_take_of_lt (leafAt_lt (splitPoint_pos _) found)]
      | true =>
        rw [HashTree.follow_node, if_pos rfl, right, leafAt_right two, length_drop_splitPoint]
        simp [getElem?_drop, Option.map_eq_some_iff]

/-- The audit path of leaf `i` is the list of siblings along its word, from the leaf up. -/
theorem auditPath_eq_siblings (D : List Bytes) (nonempty : D ≠ []) (i : Nat) :
    auditPath H i D = ((HashTree.ofList D).siblings H (leafWord D.length i)).reverse := by
  refine split_induction (motive := fun D => ∀ i,
    auditPath H i D = ((HashTree.ofList D).siblings H (leafWord D.length i)).reverse) ?_ ?_ D nonempty i
  · intro entry i
    rw [HashTree.ofList_singleton, auditPath, leafWord_small (by simp)]
    rfl
  · intro D two left right i
    have lt := splitPoint_lt two
    have pos := splitPoint_pos D.length
    have leftNonempty : D.take (splitPoint D.length) ≠ [] :=
      ne_nil_of_length_pos (by rw [length_take_splitPoint two]; exact pos)
    have rightNonempty : D.drop (splitPoint D.length) ≠ [] :=
      ne_nil_of_length_pos (by rw [length_drop_splitPoint]; omega)
    rw [auditPath_split i two, HashTree.ofList_split two]
    by_cases side : i < splitPoint D.length
    · rw [if_pos side, leafWord_left two side, left, length_take_splitPoint two,
        ← hash_ofList _ rightNonempty]
      simp [HashTree.siblings]
    · rw [if_neg side, leafWord_right two (by omega), right, length_drop_splitPoint,
        ← hash_ofList _ leftNonempty]
      simp [HashTree.siblings]

/-! ### Words that run past a leaf -/

theorem covers_of_leafAt (found : leafAt n word = some j) : covers n word = true := by
  induction word generalizing n j with
  | nil =>
    simp only [leafAt, Option.ite_none_right_eq_some] at found
    simpa [covers] using found.1
  | cons side word ih =>
    by_cases two : 2 ≤ n
    · cases side with
      | false =>
        rw [leafAt_left two] at found
        simp [covers, ih found]
      | true =>
        rw [leafAt_right two, Option.map_eq_some_iff] at found
        obtain ⟨j', found', _⟩ := found
        simp [covers, ih found']
    · simp [leafAt_small (show n ≤ 1 by omega)] at found

/-- In a tree of at most `2 ^ a` leaves no leaf is deeper than `a`. -/
theorem length_le_of_leafAt (below : n ≤ 2 ^ a) (found : leafAt n word = some j) : word.length ≤ a := by
  induction word generalizing n a j with
  | nil => simp
  | cons side word ih =>
    by_cases two : 2 ≤ n
    · obtain _ | a := a
      · simp at below
        omega
      have left := splitPoint_le two below
      have right := sub_splitPoint_le n
      simp only [length_cons, Nat.add_le_add_iff_right]
      cases side with
      | false =>
        rw [leafAt_left two] at found
        exact ih left found
      | true =>
        rw [leafAt_right two, Option.map_eq_some_iff] at found
        obtain ⟨j', found', _⟩ := found
        exact ih (Nat.le_trans right left) found'
    · simp [leafAt_small (show n ≤ 1 by omega)] at found

/-- In a tree of at most `2 ^ a` leaves every word of length `a` has met a leaf. -/
theorem covers_of_le_length (below : n ≤ 2 ^ a) (long : a ≤ word.length) : covers n word = true := by
  induction word generalizing n a with
  | nil =>
    obtain rfl : a = 0 := by simpa using long
    simpa [covers] using below
  | cons side word ih =>
    by_cases two : 2 ≤ n
    · obtain _ | a := a
      · simp at below
        omega
      have left := splitPoint_le two below
      have right := sub_splitPoint_le n
      simp only [length_cons, Nat.add_le_add_iff_right] at long
      have child : (if side then n - splitPoint n else splitPoint n) ≤ 2 ^ a := by
        split <;> omega
      simp [covers, ih child long]
    · simp [covers, show n ≤ 1 by omega]

/-- In the perfect tree of `2 ^ a` leaves no word shorter than `a` meets a leaf. -/
theorem le_length_of_covers (met : covers (2 ^ a) word = true) : a ≤ word.length := by
  induction word generalizing a with
  | nil =>
    simp only [covers, decide_eq_true_eq] at met
    by_contra deeper
    have := Nat.lt_two_pow_self (n := a)
    simp only [length_nil] at deeper
    omega
  | cons side word ih =>
    obtain _ | a := a
    · simp
    have two : ¬ 2 ^ (a + 1) ≤ 1 := by
      have := Nat.two_pow_pos a
      omega
    have half : splitPoint (2 ^ (a + 1)) = 2 ^ a :=
      splitPoint_eq (Nat.pow_lt_pow_right (by omega) (by omega)) (Nat.le_refl _)
    have other : 2 ^ (a + 1) - 2 ^ a = 2 ^ a := by omega
    simp only [covers, two, half, other, ite_self, decide_false, Bool.false_or] at met
    have := ih met
    simp only [length_cons]
    omega

/-- Prefixing a right step to a word that meets a leaf makes it run past a leaf: the right subtree is
no deeper than what the word already spans. -/
theorem leafAt_true_of_covers (met : covers n word = true) :
    leafAt n (true :: word) = none ∧ covers n (true :: word) = true := by
  induction word generalizing n with
  | nil =>
    have small : n ≤ 1 := by simpa [covers] using met
    simp [leafAt, covers, small]
  | cons side word ih =>
    by_cases two : 2 ≤ n
    · have large : ¬ n ≤ 1 := by omega
      have right := sub_splitPoint_le n
      simp only [covers, large, decide_false, Bool.false_or] at met
      rw [leafAt_right two]
      cases side with
      | true =>
        have step := ih (by simpa using met)
        refine ⟨by rw [step.1]; rfl, ?_⟩
        simpa [covers, large] using step.2
      | false =>
        -- the left subtree is perfect, so the word is at least as long as its depth
        have deep : Nat.log2 (n - 1) ≤ word.length := le_length_of_covers met
        constructor
        · cases found : leafAt (n - splitPoint n) (false :: word) with
          | none => rfl
          | some j =>
            have shallow := length_le_of_leafAt right found
            simp only [length_cons] at shallow
            omega
        · have met' : covers (n - splitPoint n) (false :: word) = true :=
            covers_of_le_length right (by simp only [length_cons]; omega)
          rw [covers, if_pos rfl, met']
          simp
    · simp [leafAt, covers, show n ≤ 1 by omega]

/-- A leaf's word with extra right steps before it never ends at a leaf. -/
theorem leafAt_replicate_true (met : covers n word = true) (extra : Nat) :
    leafAt n (replicate (extra + 1) true ++ word) = none := by
  have covered : ∀ count, covers n (replicate count true ++ word) = true := by
    intro count
    induction count with
    | zero => simpa using met
    | succ count ih => exact (leafAt_true_of_covers ih).2
  exact (leafAt_true_of_covers (covered extra)).1

/-! ### Binary digits as words -/

/-- The `a` low binary digits of `i`, least significant first. -/
def lowBits : (a i : Nat) → List Bool
  | 0, _ => []
  | a + 1, i => decide (i % 2 = 1) :: lowBits a (i / 2)

@[simp] theorem length_lowBits (a i : Nat) : (lowBits a i).length = a := by
  induction a generalizing i with
  | zero => rfl
  | succ a ih => simp [lowBits, ih]

theorem lowBits_concat (a i : Nat) : lowBits (a + 1) i = lowBits a i ++ [decide (i / 2 ^ a % 2 = 1)] := by
  induction a generalizing i with
  | zero => simp [lowBits]
  | succ a ih =>
    rw [lowBits, ih, lowBits, cons_append, Nat.div_div_eq_div_mul, Nat.pow_succ, Nat.mul_comm 2]

theorem lowBits_add_two_pow (a i : Nat) : lowBits a (2 ^ a + i) = lowBits a i := by
  induction a generalizing i with
  | zero => rfl
  | succ a ih =>
    have half : (2 ^ (a + 1) + i) / 2 = 2 ^ a + i / 2 := by omega
    have parity : (2 ^ (a + 1) + i) % 2 = i % 2 := by omega
    rw [lowBits, lowBits, half, parity, ih]

/-- In a perfect tree the word of leaf `i` is `i` in binary, most significant digit first. -/
theorem leafWord_two_pow (inside : i < 2 ^ a) : leafWord (2 ^ a) i = (lowBits a i).reverse := by
  induction a generalizing i with
  | zero => rw [leafWord_small (by simp)]; rfl
  | succ a ih =>
    have positive := Nat.two_pow_pos a
    have two : 2 ≤ 2 ^ (a + 1) := by omega
    have half : splitPoint (2 ^ (a + 1)) = 2 ^ a := splitPoint_eq (by omega) (Nat.le_refl _)
    have other : 2 ^ (a + 1) - 2 ^ a = 2 ^ a := by omega
    rw [lowBits_concat, reverse_append, reverse_singleton, singleton_append]
    by_cases left : i < 2 ^ a
    · rw [leafWord_left two (by omega), half, ih left, Nat.div_eq_of_lt left]
      rfl
    · obtain ⟨i', rfl⟩ : ∃ i', i = 2 ^ a + i' := ⟨i - 2 ^ a, by omega⟩
      have top : (2 ^ a + i') / 2 ^ a = 1 := by
        rw [Nat.add_div_left _ positive, Nat.div_eq_of_lt (by omega)]
      rw [leafWord_right two (by omega), half, other, Nat.add_sub_cancel_left, ih (by omega), top,
        lowBits_add_two_pow]
      rfl

/-- A positive number in binary, most significant digit first. -/
def binaryWord (i : Nat) : List Bool := (lowBits (Nat.log2 i + 1) i).reverse

end MerkleTree
