/-
Purpose: Binary hash trees over byte strings with domain-separated leaf and node hashing.  A word of
  sides (`false` left, `true` right) names a subtree; a climb recomputes the root from a digest and one
  sibling per level.  Climbing to a tree's root either retraces the tree along the climb's word or
  exhibits two colliding hash inputs.
Trusted boundary: none
-/
import AgentNameService.Foundation.Sha256

namespace MerkleTree

open List

/-- A binary tree with entries at its leaves. -/
inductive HashTree (α : Type) where
  | leaf (entry : α)
  | node (left right : HashTree α)

variable {α : Type}

/-- The subtree reached from the root by a word of sides; `none` when the word runs past a leaf. -/
def HashTree.follow : HashTree α → List Bool → Option (HashTree α)
  | t, [] => some t
  | .leaf _, _ :: _ => none
  | .node left right, side :: word => (if side then right else left).follow word

@[simp] theorem HashTree.follow_nil (t : HashTree α) : t.follow [] = some t := by
  cases t <;> rfl

@[simp] theorem HashTree.follow_node (left right : HashTree α) (side : Bool) (word : List Bool) :
    (HashTree.node left right).follow (side :: word) = (if side then right else left).follow word := rfl

@[simp] theorem HashTree.follow_leaf (entry : α) (side : Bool) (word : List Bool) :
    (HashTree.leaf entry).follow (side :: word) = none := rfl

/-! ### Hashing -/

/-- The value hashed for a leaf. -/
def leafInput (entry : Bytes) : Bytes := 0x00 :: entry

/-- The value hashed for an interior node. -/
def nodeInput (left right : Digest) : Bytes := 0x01 :: (left.val ++ right.val)

theorem leafInput_inj {entry entry' : Bytes} (same : leafInput entry = leafInput entry') : entry = entry' :=
  (cons.inj same).2

theorem nodeInput_inj {left right left' right' : Digest}
    (same : nodeInput left right = nodeInput left' right') : left = left' ∧ right = right' := by
  have tails := (cons.inj same).2
  have parts := append_inj tails (left.property.trans left'.property.symm)
  exact ⟨Subtype.ext parts.1, Subtype.ext parts.2⟩

/-- Domain separation: no leaf input is a node input. -/
theorem leafInput_ne_nodeInput (entry : Bytes) (left right : Digest) : leafInput entry ≠ nodeInput left right := by
  intro same
  have heads := (cons.inj same).1
  exact absurd heads (by decide)

/-- Two distinct members of `inputs` have the same digest. -/
def Collision (H : Bytes → Digest) (inputs : List Bytes) : Prop :=
  ∃ x ∈ inputs, ∃ y ∈ inputs, x ≠ y ∧ H x = H y

instance (H : Bytes → Digest) (inputs : List Bytes) : Decidable (Collision H inputs) :=
  inferInstanceAs (Decidable (∃ x ∈ inputs, ∃ y ∈ inputs, x ≠ y ∧ H x = H y))

theorem Collision.mono {H : Bytes → Digest} {inputs inputs' : List Bytes}
    (collision : Collision H inputs) (sub : inputs ⊆ inputs') : Collision H inputs' := by
  obtain ⟨x, hx, y, hy, different, same⟩ := collision
  exact ⟨x, sub hx, y, sub hy, different, same⟩

section Hashing

variable (H : Bytes → Digest)

/-- The root digest of a tree. -/
def HashTree.hash : HashTree Bytes → Digest
  | .leaf entry => H (leafInput entry)
  | .node left right => H (nodeInput left.hash right.hash)

/-- Every value hashed to compute the root digest. -/
def HashTree.inputs : HashTree Bytes → List Bytes
  | .leaf entry => [leafInput entry]
  | .node left right =>
    nodeInput (left.hash H) (right.hash H) :: (left.inputs ++ right.inputs)

/-- The value hashed when a digest joins its sibling; `side` is the side the digest is on. -/
def joinInput (side : Bool) (sibling digest : Digest) : Bytes :=
  if side then nodeInput sibling digest else nodeInput digest sibling

/-- Recompute a root from a digest and its siblings, root side first. -/
def rootFrom : List (Bool × Digest) → Digest → Digest
  | [], digest => digest
  | (side, sibling) :: steps, digest => H (joinInput side sibling (rootFrom steps digest))

/-- The values hashed by `rootFrom`. -/
def rootFromInputs : List (Bool × Digest) → Digest → List Bytes
  | [], _ => []
  | (side, sibling) :: steps, digest =>
    joinInput side sibling (rootFrom H steps digest) :: rootFromInputs steps digest

variable (steps : List (Bool × Digest))

/-- Adding one more step at the leaf end joins the digest first. -/
theorem rootFrom_concat (side : Bool) (sibling digest : Digest) :
    rootFrom H (steps ++ [(side, sibling)]) digest = rootFrom H steps (H (joinInput side sibling digest)) := by
  induction steps with
  | nil => rfl
  | cons step steps ih => simp only [cons_append, rootFrom, ih]

theorem rootFromInputs_concat (side : Bool) (sibling digest : Digest) :
    rootFromInputs H (steps ++ [(side, sibling)]) digest = rootFromInputs H steps (H (joinInput side sibling digest)) ++
        [joinInput side sibling digest] := by
  induction steps with
  | nil => rfl
  | cons step steps ih =>
    simp only [cons_append, rootFromInputs, ih, rootFrom_concat]

/-! ### Climbing retraces the tree, or collides -/

variable {H} {word : List Bool}

theorem HashTree.inputs_follow {t s : HashTree Bytes} (reached : t.follow word = some s) : s.inputs H ⊆ t.inputs H := by
  induction word generalizing t with
  | nil =>
    obtain rfl : t = s := by simpa using reached
    exact Subset.refl _
  | cons side word ih =>
    cases t with
    | leaf entry => simp at reached
    | node left right =>
      cases side with
      | false =>
        exact Subset.trans (ih reached)
          (subset_cons_of_subset _ (subset_append_left _ _))
      | true =>
        exact Subset.trans (ih reached)
          (subset_cons_of_subset _ (subset_append_right _ _))

/-- The value whose digest is the root. -/
def HashTree.rootInput (H : Bytes → Digest) : HashTree Bytes → Bytes
  | .leaf entry => leafInput entry
  | .node left right => nodeInput (left.hash H) (right.hash H)

theorem HashTree.hash_eq (t : HashTree Bytes) : t.hash H = H (t.rootInput H) := by
  cases t <;> rfl

theorem HashTree.rootInput_mem (t : HashTree Bytes) : t.rootInput H ∈ t.inputs H := by
  cases t <;> simp [HashTree.rootInput, HashTree.inputs]

theorem HashTree.rootInput_eq_leafInput {t : HashTree Bytes} {entry : Bytes}
    (same : t.rootInput H = leafInput entry) : t = .leaf entry := by
  cases t with
  | leaf other => rw [leafInput_inj same]
  | node left right => exact absurd same.symm (leafInput_ne_nodeInput _ _ _)

theorem joinInput_node {side : Bool} {sibling digest left right : Digest}
    (same : joinInput side sibling digest = nodeInput left right) : digest = if side then right else left := by
  cases side with
  | false => exact (nodeInput_inj same).1
  | true => exact (nodeInput_inj same).2

theorem leafInput_ne_joinInput (entry : Bytes) (side : Bool) (sibling digest : Digest) :
    leafInput entry ≠ joinInput side sibling digest := by
  cases side <;> exact leafInput_ne_nodeInput _ _ _

/-- A climb that ends at the root of `t` passes through the subtree its word names, unless two of the
values hashed collide.  The induction is on the climb from the root side; each level compares the two
inputs that produced the same digest. -/
theorem rootFrom_sound (digest : Digest) (t : HashTree Bytes)
    (climbed : rootFrom H steps digest = t.hash H) : (∃ s, t.follow (steps.map Prod.fst) = some s ∧ s.hash H = digest) ∨
      Collision H (t.inputs H ++ rootFromInputs H steps digest) := by
  induction steps generalizing t with
  | nil => exact .inl ⟨t, by simp, climbed.symm⟩
  | cons step steps ih =>
    obtain ⟨side, sibling⟩ := step
    cases t with
    | leaf entry =>
      refine .inr ⟨leafInput entry, by simp [HashTree.inputs],
        joinInput side sibling (rootFrom H steps digest), by simp [rootFromInputs],
        leafInput_ne_joinInput _ _ _ _, climbed.symm⟩
    | node left right =>
      by_cases same : joinInput side sibling (rootFrom H steps digest) =
          nodeInput (left.hash H) (right.hash H)
      · have child : rootFrom H steps digest = (if side then right else left).hash H := by
          rw [joinInput_node same]
          cases side <;> rfl
        refine (ih _ child).imp (fun reached => reached) (fun collision => ?_)
        refine collision.mono (append_subset.mpr ⟨?_, ?_⟩)
        · refine Subset.trans (?_ : _ ⊆ left.inputs H ++ right.inputs H)
            (subset_append_of_subset_left _ (subset_cons_self _ _))
          cases side
          · exact subset_append_left _ _
          · exact subset_append_right _ _
        · exact subset_append_of_subset_right _ (subset_cons_self _ _)
      · exact .inr ⟨_, by simp [rootFromInputs], _, by simp [HashTree.inputs], same, climbed⟩

/-- A climb from a leaf digest to the root of `t` proves that the leaf stands in `t` at the climb's
word, unless two of the values hashed collide. -/
theorem rootFrom_leaf_sound (entry : Bytes) (t : HashTree Bytes)
    (climbed : rootFrom H steps (H (leafInput entry)) = t.hash H) : t.follow (steps.map Prod.fst) = some (.leaf entry) ∨
      Collision H (t.inputs H ++ (leafInput entry :: rootFromInputs H steps (H (leafInput entry)))) := by
  rcases rootFrom_sound steps _ t climbed with ⟨s, reached, hashed⟩ | collision
  · by_cases isLeaf : s = .leaf entry
    · exact .inl (isLeaf ▸ reached)
    · -- the subtree has the leaf's digest without being that leaf
      refine .inr ⟨s.rootInput H, mem_append_left _ (HashTree.inputs_follow reached s.rootInput_mem),
        leafInput entry, by simp, fun same => isLeaf (HashTree.rootInput_eq_leafInput same), ?_⟩
      exact (s.hash_eq).symm.trans hashed
  · refine .inr (collision.mono (append_subset.mpr ⟨subset_append_left _ _, ?_⟩))
    exact subset_append_of_subset_right _ (subset_cons_self _ _)

/-! ### The honest climb -/

/-- The sibling digests along a word, root side first. -/
def HashTree.siblings (H : Bytes → Digest) : HashTree Bytes → List Bool → List Digest
  | .node left right, side :: word =>
    (if side then left else right).hash H :: (if side then right else left).siblings H word
  | _, _ => []

theorem HashTree.length_siblings {t s : HashTree Bytes}
    (reached : t.follow word = some s) : (t.siblings H word).length = word.length := by
  induction word generalizing t with
  | nil => cases t <;> rfl
  | cons side word ih =>
    cases t with
    | leaf entry => simp at reached
    | node left right =>
      rw [HashTree.follow_node] at reached
      simp [HashTree.siblings, ih reached]

theorem joinInput_children (side : Bool) (left right : HashTree Bytes) :
    joinInput side ((if side then left else right).hash H) ((if side then right else left).hash H) =
      nodeInput (left.hash H) (right.hash H) := by
  cases side <;> rfl

/-- Climbing from a subtree along its own siblings reaches the root. -/
theorem rootFrom_siblings {t s : HashTree Bytes} (reached : t.follow word = some s) :
    rootFrom H (word.zip (t.siblings H word)) (s.hash H) = t.hash H := by
  induction word generalizing t with
  | nil =>
    obtain rfl : t = s := by simpa using reached
    cases t <;> rfl
  | cons side word ih =>
    cases t with
    | leaf entry => simp at reached
    | node left right =>
      rw [HashTree.follow_node] at reached
      simp only [HashTree.siblings, zip_cons_cons, rootFrom, ih reached, joinInput_children,
        HashTree.hash]

/-- The honest climb hashes nothing that the tree does not hash. -/
theorem rootFromInputs_siblings_subset {t s : HashTree Bytes} (reached : t.follow word = some s) :
    rootFromInputs H (word.zip (t.siblings H word)) (s.hash H) ⊆ t.inputs H := by
  induction word generalizing t with
  | nil => cases t <;> exact nil_subset _
  | cons side word ih =>
    cases t with
    | leaf entry => simp at reached
    | node left right =>
      rw [HashTree.follow_node] at reached
      have below := ih reached
      simp only [HashTree.siblings, zip_cons_cons, rootFromInputs, rootFrom_siblings reached,
        joinInput_children, HashTree.inputs]
      refine cons_subset_cons _ (Subset.trans below ?_)
      cases side
      · exact subset_append_left _ _
      · exact subset_append_right _ _

end Hashing

end MerkleTree
