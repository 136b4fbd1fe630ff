/-
Purpose: The Merkle arithmetic of the receipt verifier: the leaf hash, the node hash and the walk that
  recomputes a root from an inclusion proof.  The walk is bottom-up over the bits of the leaf index and
  of the last index; the tree it is meant to retrace is top-down over powers of two.  The module
  computes which sides the walk takes for every proof length, which yields completeness for honest
  proofs and the exact condition under which an accepted proof binds its index.
Source: internal/tl/receipt/verify.go
Trusted boundary: human-reviewed model (rfc9162LeafHash, hashChildren, rfc9162RootFromProof)
-/
import AgentNameService.Foundation.Rfc9162

namespace AgentNameService.Receipt

open MerkleTree List HashTree Except Sha256

variable {D : List Bytes} {i : Nat} {fn : Nat} {sn : Nat}

/-! ### The walk -/

/-- `rfc9162LeafHash`. -/
def rfc9162LeafHash (entry : Bytes) : Digest := sum256 (0x00 :: entry)

/-- `hashChildren`. -/
def hashChildren (left right : Bytes) : Digest := sum256 (0x01 :: (left ++ right))

/-- The walk's inner loop: drop the trailing zero bits of `fn`, and as many bits of `sn`. -/
def shiftOutZeros (fn sn : Nat) : Nat × Nat :=
  if fn ≠ 0 ∧ fn &&& 1 = 0 then shiftOutZeros (fn >>> 1) (sn >>> 1) else (fn, sn)
termination_by fn
decreasing_by
  rename_i loop
  rw [Nat.shiftRight_one]
  omega

/-- The loop over the proof path, with the final check on `fn`. -/
def walkPath : (path : List Bytes) → (fn sn : Nat) → (r : Digest) → Except String Digest
  | [], fn, _, r => if fn ≠ 0 then .error "proof path too short" else .ok r
  | p :: path, fn, sn, r =>
    if p.length ≠ 32 then
      .error s!"path element wrong length: {p.length}"
    else if fn &&& 1 = 1 ∨ fn = sn then
      let shifted := shiftOutZeros fn sn
      walkPath path (shifted.1 >>> 1) (shifted.2 >>> 1) (hashChildren p r.val)
    else
      walkPath path (fn >>> 1) (sn >>> 1) (hashChildren r.val p)

/-- `rfc9162RootFromProof`.  The source's `uint64` positions are only decremented, shifted right and
compared, so natural numbers give the same results. -/
def rfc9162RootFromProof (leafHash : Digest) (leafIndex treeSize : Nat) (path : List Bytes) :
    Except String Digest :=
  if treeSize = 0 then
    .error "tree size is zero"
  else if leafIndex ≥ treeSize then
    .error s!"leaf index {leafIndex} >= tree size {treeSize}"
  else
    walkPath path leafIndex (treeSize - 1) leafHash

/-- Every value `walkPath` hashes, in order. -/
def walkHashed : (path : List Bytes) → (fn sn : Nat) → (r : Digest) → List Bytes
  | [], _, _, _ => []
  | p :: path, fn, sn, r =>
    if p.length ≠ 32 then
      []
    else if fn &&& 1 = 1 ∨ fn = sn then
      let shifted := shiftOutZeros fn sn
      (0x01 :: (p ++ r.val)) ::
        walkHashed path (shifted.1 >>> 1) (shifted.2 >>> 1) (hashChildren p r.val)
    else
      (0x01 :: (r.val ++ p)) :: walkHashed path (fn >>> 1) (sn >>> 1) (hashChildren r.val p)

/-! ### Positions -/

/-- The side taken at position `(fn, sn)`: the running digest is the right child. -/
def onRight (fn sn : Nat) : Bool := decide (fn % 2 = 1 ∨ fn = sn)

/-- The position after one proof element. -/
def next (fn sn : Nat) : Nat × Nat :=
  let shifted := if onRight fn sn then shiftOutZeros fn sn else (fn, sn)
  (shifted.1 / 2, shifted.2 / 2)

theorem shiftOutZeros_odd (odd : fn % 2 = 1) (sn : Nat) : shiftOutZeros fn sn = (fn, sn) := by
  rw [shiftOutZeros, if_neg (by rw [Nat.and_one_is_mod]; omega)]

theorem shiftOutZeros_zero (sn : Nat) : shiftOutZeros 0 sn = (0, sn) := by
  rw [shiftOutZeros, if_neg (by simp)]

theorem shiftOutZeros_double {x : Nat} (positive : x ≠ 0) (y : Nat) :
    shiftOutZeros (2 * x) (2 * y) = shiftOutZeros x y := by
  rw [shiftOutZeros, if_pos (by rw [Nat.and_one_is_mod]; omega), Nat.shiftRight_one, Nat.shiftRight_one,
    Nat.mul_div_cancel_left _ (by omega), Nat.mul_div_cancel_left _ (by omega)]

theorem shiftOutZeros_snd_le (fn sn : Nat) : (shiftOutZeros fn sn).2 ≤ sn := by
  induction fn using Nat.strongRecOn generalizing sn with
  | ind fn ih =>
    rw [shiftOutZeros]
    split
    · rename_i loop
      rw [Nat.shiftRight_one, Nat.shiftRight_one]
      exact Nat.le_trans (ih (fn / 2) (by omega) (sn / 2)) (Nat.div_le_self _ _)
    · exact Nat.le_refl _

theorem next_odd (odd : fn % 2 = 1) (sn : Nat) : next fn sn = (fn / 2, sn / 2) := by
  simp [next, onRight, odd, shiftOutZeros_odd odd]

theorem next_even (even : fn % 2 = 0) (inside : fn ≠ sn) : next fn sn = (fn / 2, sn / 2) := by
  simp [next, onRight, even, inside]

/-- Off the right edge one step reads one binary digit of the index. -/
theorem step_of_ne (inside : fn ≠ sn) :
    onRight fn sn = decide (fn % 2 = 1) ∧ next fn sn = (fn / 2, sn / 2) := by
  refine ⟨by simp [onRight, inside], ?_⟩
  rcases Nat.mod_two_eq_zero_or_one fn with even | odd
  · exact next_even even inside
  · exact next_odd odd sn

@[simp] theorem next_zero : next 0 0 = (0, 0) := by
  simp [next, shiftOutZeros_zero]

theorem next_double {x : Nat} (positive : x ≠ 0) : next (2 * x) (2 * x) = next x x := by
  simp [next, onRight, shiftOutZeros_double positive]

theorem next_snd_lt (positive : sn ≠ 0) : (next fn sn).2 < sn := by
  have le := shiftOutZeros_snd_le fn sn
  unfold next
  cases onRight fn sn <;> simp only [if_true, Bool.false_eq_true, if_false] <;> omega

/-- On the right edge of the tree the walk stays on the right edge. -/
theorem next_diagonal (x : Nat) : (next x x).1 = (next x x).2 := by
  induction x using Nat.strongRecOn with
  | ind x ih =>
    rcases Nat.mod_two_eq_zero_or_one x with even | odd
    · obtain ⟨y, rfl⟩ : ∃ y, x = 2 * y := ⟨x / 2, by omega⟩
      by_cases zero : y = 0
      · simp [zero]
      · rw [next_double zero]
        exact ih y (by omega)
    · rw [next_odd odd]

theorem next_le (ordered : fn ≤ sn) : (next fn sn).1 ≤ (next fn sn).2 := by
  by_cases edge : fn = sn
  · subst edge
    exact Nat.le_of_eq (next_diagonal fn)
  · rw [(step_of_ne edge).2]
    exact Nat.div_le_div_right ordered

/-- The sides the walk takes for its first `count` proof elements, from the leaf up. -/
def directions : (count fn sn : Nat) → List Bool
  | 0, _, _ => []
  | count + 1, fn, sn => onRight fn sn :: directions count (next fn sn).1 (next fn sn).2

/-- The position after `count` proof elements. -/
def position : (count fn sn : Nat) → Nat × Nat
  | 0, fn, sn => (fn, sn)
  | count + 1, fn, sn => position count (next fn sn).1 (next fn sn).2

@[simp] theorem length_directions (count fn sn : Nat) : (directions count fn sn).length = count := by
  induction count generalizing fn sn with
  | zero => rfl
  | succ count ih => simp [directions, ih]

/-- For a proof of well-formed digests the walk is a climb along `directions`. -/
theorem walkPath_eq (path : List Digest) (fn sn : Nat) (r : Digest) : walkPath (path.map Subtype.val) fn sn r =
      if (position path.length fn sn).1 ≠ 0 then .error "proof path too short"
      else .ok (rootFrom sum256 ((directions path.length fn sn).zip path).reverse r) := by
  induction path generalizing fn sn r with
  | nil => rfl
  | cons p path ih =>
    have width : p.val.length = 32 := p.property
    rw [map_cons, walkPath, if_neg (by omega)]
    by_cases side : fn % 2 = 1 ∨ fn = sn
    · have right : onRight fn sn = true := by simp [onRight, side]
      rw [if_pos (by rwa [Nat.and_one_is_mod])]
      simp only [Nat.shiftRight_one, ih, length_cons, directions, position, next, right, if_true,
        zip_cons_cons, reverse_cons, rootFrom_concat, joinInput, nodeInput, hashChildren]
    · have left : onRight fn sn = false := by simp [onRight, side]
      rw [if_neg (by rwa [Nat.and_one_is_mod])]
      simp only [Nat.shiftRight_one, ih, length_cons, directions, position, next, left,
        Bool.false_eq_true, if_false, zip_cons_cons, reverse_cons, rootFrom_concat,
        joinInput, nodeInput, hashChildren]

/-- The walk hashes what the climb hashes. -/
theorem walkHashed_eq (path : List Digest) (fn sn : Nat) (r : Digest) : walkHashed (path.map Subtype.val) fn sn r =
      (rootFromInputs sum256 ((directions path.length fn sn).zip path).reverse r).reverse := by
  induction path generalizing fn sn r with
  | nil => rfl
  | cons p path ih =>
    have width : p.val.length = 32 := p.property
    rw [map_cons, walkHashed, if_neg (by omega)]
    by_cases side : fn % 2 = 1 ∨ fn = sn
    · have right : onRight fn sn = true := by simp [onRight, side]
      rw [if_pos (by rwa [Nat.and_one_is_mod])]
      simp only [Nat.shiftRight_one, ih, length_cons, directions, next, right, if_true,
        zip_cons_cons, reverse_cons, rootFromInputs_concat, joinInput, nodeInput,
        hashChildren, reverse_append, reverse_nil, nil_append, singleton_append]
    · have left : onRight fn sn = false := by simp [onRight, side]
      rw [if_neg (by rwa [Nat.and_one_is_mod])]
      simp only [Nat.shiftRight_one, ih, length_cons, directions, next, left,
        Bool.false_eq_true, if_false, zip_cons_cons, reverse_cons, rootFromInputs_concat,
        joinInput, nodeInput, hashChildren, reverse_append, reverse_nil, nil_append,
        singleton_append]

/-! ### The sides up to the root -/

/-- The sides the walk takes until `sn` is exhausted, which is when it stands at the root. -/
def toRoot (fn sn : Nat) : List Bool :=
  if sn = 0 then [] else onRight fn sn :: toRoot (next fn sn).1 (next fn sn).2
termination_by sn
decreasing_by exact next_snd_lt (by assumption)

@[simp] theorem toRoot_zero (fn : Nat) : toRoot fn 0 = [] := by
  rw [toRoot, if_pos rfl]

theorem toRoot_step (inside : sn ≠ 0) (fn : Nat) :
    toRoot fn sn = onRight fn sn :: toRoot (next fn sn).1 (next fn sn).2 := by
  rw [toRoot, if_neg inside]

@[simp] theorem directions_root (count : Nat) : directions count 0 0 = replicate count true := by
  induction count with
  | zero => rfl
  | succ count ih => simp [directions, ih, onRight, replicate_succ]

@[simp] theorem position_root (count : Nat) : position count 0 0 = (0, 0) := by
  induction count with
  | zero => rfl
  | succ count ih => simp [position, ih]

/-- A proof at least as long as the leaf's depth reaches the root and then only takes right sides. -/
theorem directions_past_root (ordered : fn ≤ sn) (extra : Nat) :
    directions ((toRoot fn sn).length + extra) fn sn = toRoot fn sn ++ replicate extra true ∧
      (position ((toRoot fn sn).length + extra) fn sn).1 = 0 := by
  induction sn using Nat.strongRecOn generalizing fn with
  | ind sn ih =>
    by_cases root : sn = 0
    · subst root
      obtain rfl : fn = 0 := by omega
      simp
    · have step := ih (next fn sn).2 (next_snd_lt root) (next_le ordered)
      have count : (toRoot fn sn).length + extra =
          (toRoot (next fn sn).1 (next fn sn).2).length + extra + 1 := by
        rw [toRoot_step root, length_cons]
        omega
      rw [count, directions, position, step.1, toRoot_step root, cons_append]
      exact ⟨rfl, step.2⟩

/-! ### The left subtree: the bits of the index -/

/-- Below the split point the walk reads the binary digits of the index, one a step. -/
theorem walk_left {a s : Nat} (left : i < 2 ^ a) (low : 2 ^ a ≤ s) (count : Nat) (short : count ≤ a) :
    directions count i s = lowBits count i ∧ position count i s = (i / 2 ^ count, s / 2 ^ count) := by
  induction count generalizing a i s with
  | zero => simp [directions, lowBits, position]
  | succ count ih =>
    obtain ⟨b, rfl⟩ : ∃ b, a = b + 1 := ⟨a - 1, by omega⟩
    obtain ⟨side, step⟩ := step_of_ne (show i ≠ s by omega)
    have rest := ih (a := b) (i := i / 2) (s := s / 2) (by omega) (by omega) (by omega)
    rw [directions, position, step, side, rest.1, rest.2, Nat.div_div_eq_div_mul,
      Nat.div_div_eq_div_mul, Nat.pow_succ, Nat.mul_comm 2, lowBits]
    exact ⟨rfl, rfl⟩

/-- A leaf of the left subtree: its digits, then one step from the left. -/
theorem toRoot_left {a s : Nat} (left : i < 2 ^ a) (low : 2 ^ a ≤ s) (high : s < 2 ^ (a + 1)) :
    toRoot i s = lowBits a i ++ [false] := by
  induction a generalizing i s with
  | zero =>
    obtain rfl : i = 0 := by omega
    obtain rfl : s = 1 := by omega
    simp [toRoot_step, onRight, next_even, lowBits]
  | succ a ih =>
    have positive := Nat.two_pow_pos a
    obtain ⟨side, step⟩ := step_of_ne (show i ≠ s by omega)
    have rest := ih (i := i / 2) (s := s / 2) (by omega) (by omega) (by omega)
    rw [toRoot_step (by omega), side, step, rest]
    rfl

/-! ### The right subtree: the same walk, one side more -/

/-- On the right edge, a leading power of two only adds itself to the position. -/
theorem next_right_edge {a x : Nat} (positive : x ≠ 0) (below : x < 2 ^ a) : ∃ b, (next x x).1 < 2 ^ b ∧
      next (2 ^ a + x) (2 ^ a + x) = (2 ^ b + (next x x).1, 2 ^ b + (next x x).1) := by
  induction a generalizing x with
  | zero => omega
  | succ a ih =>
    rcases Nat.mod_two_eq_zero_or_one x with even | odd
    · obtain ⟨y, rfl⟩ : ∃ y, x = 2 * y := ⟨x / 2, by omega⟩
      have double : 2 ^ (a + 1) + 2 * y = 2 * (2 ^ a + y) := by omega
      rw [double, next_double (show 2 ^ a + y ≠ 0 by omega), next_double (show y ≠ 0 by omega)]
      exact ih (by omega) (by omega)
    · refine ⟨a, ?_, ?_⟩
      · rw [next_odd odd]
        omega
      · rw [next_odd (by omega), next_odd odd]
        ext <;> omega

/-- Inside the right subtree the walk takes the side it would take in that subtree alone, and stays
inside it. -/
theorem step_right {a s : Nat} (ordered : i ≤ s) (below : s < 2 ^ a) (inside : s ≠ 0) :
    onRight (2 ^ a + i) (2 ^ a + s) = onRight i s ∧ ∃ b, (next i s).2 < 2 ^ b ∧
        next (2 ^ a + i) (2 ^ a + s) = (2 ^ b + (next i s).1, 2 ^ b + (next i s).2) := by
  obtain ⟨c, rfl⟩ : ∃ c, a = c + 1 := ⟨a - 1, by have := Nat.two_pow_pos a; cases a <;> omega⟩
  constructor
  · have parity : (2 ^ (c + 1) + i) % 2 = i % 2 := by omega
    simp [onRight, parity]
  · by_cases edge : i = s
    · subst edge
      obtain ⟨b, bound, step⟩ := next_right_edge inside below
      exact ⟨b, next_diagonal i ▸ bound, by rw [step, ← next_diagonal i]⟩
    · refine ⟨c, ?_, ?_⟩
      · rw [(step_of_ne edge).2]
        omega
      · rw [(step_of_ne edge).2, (step_of_ne (show 2 ^ (c + 1) + i ≠ 2 ^ (c + 1) + s by omega)).2]
        ext <;> omega

/-- At the root of the right subtree one step from the right reaches the root. -/
theorem step_subtree_root (a : Nat) : onRight (2 ^ a) (2 ^ a) = true ∧ next (2 ^ a) (2 ^ a) = (0, 0) := by
  refine ⟨by simp [onRight], ?_⟩
  induction a with
  | zero => exact next_odd (by omega) 1
  | succ a ih =>
    have positive := Nat.two_pow_pos a
    rw [Nat.pow_succ, Nat.mul_comm, next_double (by omega), ih]

/-- A leaf of the right subtree: its walk there, then one step from the right. -/
theorem toRoot_right {a s : Nat} (ordered : i ≤ s) (below : s < 2 ^ a) :
    toRoot (2 ^ a + i) (2 ^ a + s) = toRoot i s ++ [true] := by
  have positive := Nat.two_pow_pos a
  induction s using Nat.strongRecOn generalizing a i with
  | ind s ih =>
    rw [toRoot_step (by omega)]
    by_cases root : s = 0
    · subst root
      obtain rfl : i = 0 := by omega
      obtain ⟨side, step⟩ := step_subtree_root a
      simp [side, step]
    · obtain ⟨side, b, bound, step⟩ := step_right ordered below root
      rw [side, step, toRoot_step root,
        ih (next i s).2 (next_snd_lt root) (next_le ordered) bound (Nat.two_pow_pos b)]
      rfl

/-- While the walk is inside the right subtree its index is not exhausted. -/
theorem position_right {a s : Nat} (ordered : i ≤ s) (below : s < 2 ^ a) (count : Nat)
    (short : count ≤ (toRoot i s).length) : (position count (2 ^ a + i) (2 ^ a + s)).1 ≠ 0 := by
  induction count generalizing a i s with
  | zero =>
    have := Nat.two_pow_pos a
    simp only [position]
    omega
  | succ count ih =>
    by_cases root : s = 0
    · subst root
      simp at short
    · obtain ⟨_, b, bound, step⟩ := step_right ordered below root
      rw [toRoot_step root, length_cons] at short
      rw [position, step]
      exact ih (next_le ordered) bound (by omega)

/-- The walk's sides up to the root are the leaf's word, read from the leaf. -/
theorem toRoot_eq_leafWord {n : Nat} (inside : i < n) : toRoot i (n - 1) = (leafWord n i).reverse := by
  induction n using Nat.strongRecOn generalizing i with
  | ind n ih =>
    by_cases two : 2 ≤ n
    · have low : 2 ^ Nat.log2 (n - 1) ≤ n - 1 := Nat.log2_self_le (by omega)
      have high : n - 1 < 2 ^ (Nat.log2 (n - 1) + 1) := Nat.lt_log2_self
      have positive := Nat.two_pow_pos (Nat.log2 (n - 1))
      by_cases left : i < splitPoint n
      · rw [leafWord_left two left, splitPoint, leafWord_two_pow left, toRoot_left left low high]
        simp
      · have right : splitPoint n ≤ i := by omega
        obtain ⟨i', rfl⟩ : ∃ i', i = splitPoint n + i' := ⟨i - splitPoint n, by omega⟩
        have last : n - 1 = splitPoint n + (n - splitPoint n - 1) := by omega
        have half := sub_splitPoint_le n
        have walk : toRoot (splitPoint n + i') (splitPoint n + (n - splitPoint n - 1)) =
            toRoot i' (n - splitPoint n - 1) ++ [true] :=
          toRoot_right (by omega) (show n - splitPoint n - 1 < splitPoint n by omega)
        rw [leafWord_right two right, last, Nat.add_sub_cancel_left, walk,
          ih _ (by omega) (by omega), reverse_cons]
    · obtain rfl : n = 1 := by omega
      simp [leafWord_small]

/-! ### Completeness -/

private theorem reverse_zip_reverse {α β : Type} {l : List α} {l' : List β}
    (same : l.length = l'.length) : (l.reverse.zip l'.reverse).reverse = l.zip l' := by
  rw [zip_eq_zipWith, reverse_zipWith (by simp [same]), reverse_reverse,
    reverse_reverse, zip_eq_zipWith]

/-- A proof whose sides spell a word of the tree of `D`, with the tree's own siblings along that word,
is accepted with `MTH(D)` as soon as the walk ends with an exhausted index. -/
theorem rootFromProof_of_word (inside : i < D.length) {word : List Bool}
    {entry : Bytes} (reached : (ofList D).follow word = some (.leaf entry))
    (sides : directions word.length i (D.length - 1) = word.reverse)
    (exhausted : (position word.length i (D.length - 1)).1 = 0) :
    rfc9162RootFromProof (rfc9162LeafHash entry) i D.length
        (((ofList D).siblings sum256 word).reverse.map Subtype.val) = .ok (treeHash sum256 D) := by
  have nonempty : D ≠ [] := ne_nil_of_length_pos (by omega)
  have depth := length_siblings (H := sum256) reached
  rw [rfc9162RootFromProof, if_neg (by omega), if_neg (by omega), walkPath_eq, length_reverse, depth,
    if_neg (by simp [exhausted]), sides, reverse_zip_reverse depth.symm, ← hash_ofList D nonempty]
  exact congrArg ok (rootFrom_siblings reached)

/-- `PATH(i, D)` walks from the leaf hash of `D[i]` to `MTH(D)`, whatever the shape of the tree. -/
theorem rootFromProof_auditPath (D : List Bytes) (i : Fin D.length) :
    rfc9162RootFromProof (rfc9162LeafHash D[i]) i D.length ((auditPath sum256 i D).map Subtype.val) =
      .ok (treeHash sum256 D) := by
  have inside := i.isLt
  have nonempty : D ≠ [] := ne_nil_of_length_pos (by omega)
  have word := toRoot_eq_leafWord inside
  have reached : (ofList D).follow (leafWord D.length i) = some (.leaf D[i]) :=
    (follow_ofList D nonempty _ _).mpr ⟨i, leafAt_leafWord inside, by simp⟩
  obtain ⟨sides, exhausted⟩ := directions_past_root (show i.val ≤ D.length - 1 by omega) 0
  rw [word, length_reverse, Nat.add_zero] at sides exhausted
  rw [replicate_zero, append_nil] at sides
  rw [auditPath_eq_siblings D nonempty]
  exact rootFromProof_of_word inside reached sides exhausted

/-! ### Which words an accepted proof can spell

The loop ends with a check that `fn` is exhausted, not that `sn` is.  A proof of the leaf's own length
spells the leaf's word.  A longer one adds right sides above the root, and those words run past a leaf.
A shorter one is accepted when the digits of the index run out inside the left subtree. -/

/-- The sides of a proof that leaves the index exhausted. -/
theorem accepted_sides {n count : Nat} (inside : i < n) (exhausted : (position count i (n - 1)).1 = 0) :
    (∃ extra, directions count i (n - 1) = (leafWord n i).reverse ++ replicate extra true) ∨
      (2 ≤ n ∧ count ≤ Nat.log2 (n - 1) ∧ i < 2 ^ count ∧ directions count i (n - 1) = lowBits count i) := by
  rcases Nat.lt_or_ge count (toRoot i (n - 1)).length with short | long
  · right
    have two : 2 ≤ n := by
      by_contra small
      obtain rfl : n = 1 := by omega
      simp at short
    have low : 2 ^ Nat.log2 (n - 1) ≤ n - 1 := Nat.log2_self_le (by omega)
    have high : n - 1 < 2 ^ (Nat.log2 (n - 1) + 1) := Nat.lt_log2_self
    by_cases left : i < 2 ^ Nat.log2 (n - 1)
    · rw [toRoot_left left low high] at short
      simp only [length_append, length_lowBits, length_singleton] at short
      obtain ⟨sides, stop⟩ := walk_left left low count (by omega)
      rw [stop, Nat.div_eq_zero_iff] at exhausted
      have positive := Nat.two_pow_pos count
      exact ⟨two, by omega, by omega, sides⟩
    · -- in the right subtree the leading digit of the index is still there
      obtain ⟨i', rfl⟩ : ∃ i', i = 2 ^ Nat.log2 (n - 1) + i' := ⟨i - 2 ^ Nat.log2 (n - 1), by omega⟩
      obtain ⟨s', last⟩ : ∃ s', n - 1 = 2 ^ Nat.log2 (n - 1) + s' :=
        ⟨n - 1 - 2 ^ Nat.log2 (n - 1), by omega⟩
      generalize Nat.log2 (n - 1) = a at *
      rw [last] at exhausted short high
      rw [toRoot_right (by omega) (by omega), length_append, length_singleton] at short
      exact absurd exhausted (position_right (by omega) (by omega) count (by omega))
  · left
    obtain ⟨extra, rfl⟩ : ∃ extra, count = (toRoot i (n - 1)).length + extra :=
      ⟨count - (toRoot i (n - 1)).length, by omega⟩
    refine ⟨extra, ?_⟩
    rw [(directions_past_root (by omega) extra).1, toRoot_eq_leafWord inside]

/-- The leaf of another position whose entry the walk also accepts at index `i`: the one that the
binary digits of `i` lead to from the root, when `i` lies left of the split point. -/
def aliasIndex (n i : Nat) : Option Nat :=
  if 0 < i ∧ i < splitPoint n then leafAt n (binaryWord i) else none

/-- A leaf that an accepted proof for index `i` can lead to is leaf `i` or the alias of `i`. -/
theorem leafAt_accepted {n count j : Nat} (inside : i < n) (exhausted : (position count i (n - 1)).1 = 0)
    (found : leafAt n (directions count i (n - 1)).reverse = some j) : j = i ∨ aliasIndex n i = some j := by
  rcases accepted_sides inside exhausted with ⟨extra, sides⟩ | ⟨two, short, below, sides⟩
  · left
    rw [sides, reverse_append, reverse_reverse, reverse_replicate] at found
    obtain _ | extra := extra
    · rw [replicate_zero, nil_append, leafAt_leafWord inside, Option.some.injEq] at found
      exact found.symm
    · rw [leafAt_replicate_true (covers_of_leafAt (leafAt_leafWord inside))] at found
      cases found
  · right
    rw [sides] at found
    obtain _ | count := count
    · rw [lowBits, reverse_nil, leafAt_nil two] at found
      cases found
    have split : splitPoint n = 2 ^ Nat.log2 (n - 1) := rfl
    by_cases leading : i < 2 ^ count
    · -- a leading zero digit leads into the perfect left subtree, which is deeper than the proof
      rw [lowBits_concat, Nat.div_eq_of_lt leading, reverse_append] at found
      rw [show [decide (0 % 2 = 1)].reverse ++ (lowBits count i).reverse =
        false :: (lowBits count i).reverse from rfl, leafAt_left two, split] at found
      have deep := le_length_of_covers (covers_of_leafAt found)
      rw [length_reverse, length_lowBits] at deep
      omega
    · have positive := Nat.two_pow_pos count
      have digits : Nat.log2 i = count := (Nat.log2_eq_iff (by omega)).mpr ⟨by omega, below⟩
      have left : i < splitPoint n :=
        Nat.lt_of_lt_of_le below (Nat.pow_le_pow_right (by omega) short)
      rw [aliasIndex, if_pos ⟨by omega, left⟩, binaryWord, digits, found]

/-! ### Index binding -/

/-- Every value hashed when `MTH(D)` is computed and entry `e` is checked at index `i` with `path`. -/
def hashedValues (D : List Bytes) (i : Nat) (e : Bytes) (path : List Digest) : List Bytes :=
  (ofList D).inputs sum256 ++
    ((0x00 :: e) :: walkHashed (path.map Subtype.val) i (D.length - 1) (rfc9162LeafHash e))

/-- At index `i` only `D[i]` is accepted against `MTH(D)`, up to a collision among the values hashed. -/
def BindsIndex (D : List Bytes) (i : Fin D.length) : Prop :=
  ∀ (e : Bytes) (path : List Digest),
    rfc9162RootFromProof (rfc9162LeafHash e) i D.length (path.map Subtype.val) =
        .ok (treeHash sum256 D) →
      e = D[i] ∨ Collision sum256 (hashedValues D i e path)

/-- What an accepted proof shows: the entry is the leaf at the index or at its alias. -/
theorem accepted_entry (inside : i < D.length) {e : Bytes} {path : List Digest}
    (accepted : rfc9162RootFromProof (rfc9162LeafHash e) i D.length (path.map Subtype.val) = .ok (treeHash sum256 D)) :
    (∃ j, (j = i ∨ aliasIndex D.length i = some j) ∧ D[j]? = some e) ∨ Collision sum256 (hashedValues D i e path) := by
  have nonempty : D ≠ [] := ne_nil_of_length_pos (by omega)
  rw [rfc9162RootFromProof, if_neg (by omega), if_neg (by omega), walkPath_eq] at accepted
  split at accepted
  · cases accepted
  · rename_i exhausted
    have climbed := ok.inj accepted
    rw [← hash_ofList D nonempty] at climbed
    rcases rootFrom_leaf_sound _ e _ climbed with reached | collision
    · rw [map_reverse, map_fst_zip (by simp)] at reached
      obtain ⟨j, found, entry⟩ := (follow_ofList D nonempty _ _).mp reached
      exact .inl ⟨j, leafAt_accepted inside (not_not.mp exhausted) found, entry⟩
    · refine .inr (collision.mono ?_)
      rw [hashedValues, walkHashed_eq]
      refine append_subset.mpr ⟨subset_append_left _ _, ?_⟩
      refine subset_append_of_subset_right _ (cons_subset_cons _ ?_)
      exact fun x member => mem_reverse.mpr member

/-- The alias of an index is accepted at that index, with a proof made of the tree's own digests. -/
theorem alias_accepted {j : Nat} {e : Bytes} (inside : i < D.length)
    (found : aliasIndex D.length i = some j) (entry : D[j]? = some e) : ∃ path : List Digest,
      rfc9162RootFromProof (rfc9162LeafHash e) i D.length (path.map Subtype.val) = .ok (treeHash sum256 D) ∧
        hashedValues D i e path ⊆ (ofList D).inputs sum256 := by
  have nonempty : D ≠ [] := ne_nil_of_length_pos (by omega)
  obtain ⟨⟨positive, left⟩, found⟩ := Option.ite_none_right_eq_some.mp found
  have two : 2 ≤ D.length := by
    by_contra small
    simp [splitPoint, show D.length - 1 = 0 by omega] at left
    omega
  have low : 2 ^ Nat.log2 (D.length - 1) ≤ D.length - 1 := Nat.log2_self_le (by omega)
  have digits : Nat.log2 i + 1 ≤ Nat.log2 (D.length - 1) := (Nat.log2_lt (by omega)).mpr left
  have reached := (follow_ofList D nonempty _ _).mpr ⟨j, found, entry⟩
  have length : (binaryWord i).length = Nat.log2 i + 1 := by simp [binaryWord]
  obtain ⟨sides, stop⟩ := walk_left left low _ digits
  have spelled : directions (binaryWord i).length i (D.length - 1) = (binaryWord i).reverse := by
    rw [length, sides, binaryWord, reverse_reverse]
  have exhausted : (position (binaryWord i).length i (D.length - 1)).1 = 0 := by
    rw [length, stop]
    exact Nat.div_eq_of_lt Nat.lt_log2_self
  refine ⟨_, rootFromProof_of_word inside reached spelled exhausted, ?_⟩
  have depth := length_siblings (H := sum256) reached
  rw [hashedValues, walkHashed_eq, length_reverse, depth, spelled, reverse_zip_reverse depth.symm]
  refine append_subset.mpr ⟨Subset.refl _, cons_subset.mpr ⟨?_, ?_⟩⟩
  · exact inputs_follow reached (mem_singleton_self _)
  · intro x member
    exact rootFromInputs_siblings_subset reached (mem_reverse.mp member)

/-- An accepted proof binds its index exactly when the alias of the index, if there is one, carries the
same entry (or the tree's own values already collide). -/
theorem bindsIndex_iff (D : List Bytes) (i : Fin D.length) : BindsIndex D i ↔
      (∀ j, aliasIndex D.length i = some j → D[j]? = some D[i]) ∨
        Collision sum256 ((ofList D).inputs sum256) := by
  have inside := i.isLt
  constructor
  · intro binds
    by_cases collision : Collision sum256 ((ofList D).inputs sum256)
    · exact .inr collision
    · refine .inl fun j found => ?_
      have bound : j < D.length :=
        leafAt_lt (by omega) (Option.ite_none_right_eq_some.mp found).2
      obtain ⟨path, accepted, hashed⟩ :=
        alias_accepted inside found (getElem?_eq_getElem bound)
      rcases binds _ path accepted with same | collides
      · rw [getElem?_eq_getElem bound, same]
      · exact absurd (collides.mono hashed) collision
  · rintro (condition | collision) e path accepted
    · rcases accepted_entry inside accepted with ⟨j, rfl | found, entry⟩ | collides
      · left
        rw [getElem?_eq_getElem inside, Option.some.injEq] at entry
        exact entry.symm
      · left
        rw [condition j found, Option.some.injEq] at entry
        exact entry.symm
      · exact .inr collides
    · exact .inr (collision.mono (subset_append_left _ _))

/-- A log of three one-byte entries. -/
def threeEntries : List Bytes := [[0x00], [0x01], [0x02]]

/-- In a log of three entries the third entry is accepted at index 1. -/
theorem threeEntries_not_bindsIndex : ¬ BindsIndex threeEntries ⟨1, by decide⟩ := by
  intro binds
  have shape : ofList threeEntries =
      .node (.node (.leaf [0x00]) (.leaf [0x01])) (.leaf [0x02]) := by
    rw [ofList_split (by decide)]
    change node (ofList [[0x00], [0x01]]) (ofList [[0x02]]) = _
    rw [ofList_split (by decide)]
    change node (.node (ofList [[0x00]]) (ofList [[0x01]])) (ofList [[0x02]]) = _
    simp only [ofList_singleton]
  obtain ⟨path, accepted, hashed⟩ :=
    alias_accepted (D := threeEntries) (i := 1) (j := 2) (by decide) (by decide) rfl
  rcases binds _ path accepted with same | collides
  · exact absurd same (by decide)
  · have collision := collides.mono hashed
    rw [shape] at collision
    revert collision
    decide +kernel

end AgentNameService.Receipt
