/-!
# Unfolding a store

Unfolding puts the parts of a node in the places where they are referred to, down to a number of
levels. A part that many nodes refer to is unfolded once and shared.

`tree` says what the outcome is, and `forest` computes it for all nodes of the store together. Where
every node comes after its parts, one pass from the first node to the last is enough. Otherwise the
trees grow level by level from below, until a level leaves nothing to unfold. `getD_forest` says
that `forest` and `tree` agree.
-/

namespace Linkage

structure Unfolding (ν τ : Type) where
  nodes : Array ν
  parts : ν → List Nat
  /-- The tree of a node, given its index and the trees of its parts. -/
  build : Nat → ν → (Nat → τ) → τ
  missing : Nat → τ
  /-- A tree depends on the trees of the parts and on no others. -/
  build_congr : ∀ i node f g, (∀ j ∈ parts node, f j = g j) → build i node f = build i node g

namespace Unfolding

variable {ν τ : Type}

/-- The tree of the node at an index, unfolded to at most `n` levels. -/
def tree (u : Unfolding ν τ) : Nat → Nat → τ
  | 0, i => u.missing i
  | n + 1, i =>
    match u.nodes[i]? with
    | none => u.missing i
    | some node => u.build i node (u.tree n)

/-- Every node comes after its parts. -/
def inOrder (u : Unfolding ν τ) : Bool :=
  u.nodes.toList.zipIdx.all fun (node, i) => (u.parts node).all fun j => decide (j < i)

/-- Add the trees of the nodes that follow those in `trees`, one after the other. -/
def sweep (u : Unfolding ν τ) : List ν → Array τ → Array τ
  | [], trees => trees
  | node :: rest, trees =>
    u.sweep rest (trees.push (u.build trees.size node fun j => trees[j]?.getD (u.missing j)))

def raise (u : Unfolding ν τ) (below : Array τ) : Array τ :=
  u.nodes.mapIdx fun i node => u.build i node fun j => below[j]?.getD (u.missing j)

/-- The nodes whose parts are all settled are settled one level higher. -/
def settle (u : Unfolding ν τ) (settled : Array Bool) : Array Bool :=
  u.nodes.map fun node => (u.parts node).all fun j => settled[j]?.getD true

/-- Add at most `n` levels, and none once all nodes are settled. -/
def grow (u : Unfolding ν τ) : Nat → Array Bool → Array τ → Array τ
  | 0, _, trees => trees
  | n + 1, settled, trees =>
    if settled.all id then trees else u.grow n (u.settle settled) (u.raise trees)

/-- The trees of all nodes, unfolded to as many levels as there are nodes. -/
def forest (u : Unfolding ν τ) : Array τ :=
  if u.inOrder then u.sweep u.nodes.toList #[]
  else u.grow u.nodes.size (u.nodes.map fun _ => false) #[]

theorem tree_of_none (u : Unfolding ν τ) {i : Nat} (h : u.nodes[i]? = none) (n : Nat) :
    u.tree n i = u.missing i := by
  cases n with
  | zero => rfl
  | succ n => simp [tree, h]

/-- Where every node comes after its parts, a tree is no higher than the number of nodes up to its
root. -/
theorem tree_of_inOrder (u : Unfolding ν τ) (h : u.inOrder = true) (i n : Nat) (hn : i < n) :
    u.tree n i = u.tree (i + 1) i := by
  induction i using Nat.strongRecOn generalizing n with
  | ind i ih =>
    cases hnode : u.nodes[i]? with
    | none => rw [u.tree_of_none hnode, u.tree_of_none hnode]
    | some node =>
      obtain ⟨n, rfl⟩ : ∃ k, n = k + 1 := ⟨n - 1, by omega⟩
      simp only [tree, hnode]
      refine u.build_congr i node _ _ fun j hj => ?_
      have hmem : (node, i) ∈ u.nodes.toList.zipIdx := by simpa [List.mem_zipIdx_iff_getElem?] using hnode
      have hparts := List.all_eq_true.1 (List.all_eq_true.1 h _ hmem) j hj
      have hji : j < i := of_decide_eq_true hparts
      rw [ih j hji n (by omega), ih j hji i hji]

theorem size_sweep (u : Unfolding ν τ) (rest : List ν) (trees : Array τ) :
    (u.sweep rest trees).size = trees.size + rest.length := by
  induction rest generalizing trees with
  | nil => rfl
  | cons node rest ih =>
    rw [sweep, ih, Array.size_push, List.length_cons]
    omega

theorem getD_sweep (u : Unfolding ν τ) (h : u.inOrder = true) {done rest : List ν} {trees : Array τ}
    (hnodes : u.nodes.toList = done ++ rest) (hsize : trees.size = done.length)
    (htrees : ∀ j, j < done.length → trees[j]?.getD (u.missing j) = u.tree (j + 1) j) (i : Nat)
    (hi : i < u.nodes.size) :
    (u.sweep rest trees)[i]?.getD (u.missing i) = u.tree (i + 1) i := by
  induction rest generalizing done trees with
  | nil =>
    have hlength := congrArg List.length hnodes
    simp only [Array.length_toList, List.append_nil] at hlength
    exact htrees i (by omega)
  | cons node rest ih =>
    have hnode : u.nodes[done.length]? = some node := by
      rw [← Array.getElem?_toList, hnodes]
      simp
    rw [sweep]
    have hnodes : u.nodes.toList = (done ++ [node]) ++ rest := by simp [hnodes]
    refine ih hnodes (by simp [hsize]) fun j hj => ?_
    rcases Nat.lt_or_eq_of_le (Nat.le_of_lt_succ (by simpa using hj : j < done.length + 1)) with hlt | rfl
    · rw [Array.getElem?_push_lt (by omega), ← htrees j hlt]
      simp [hsize, hlt]
    · rw [← hsize, Array.getElem?_push_size, Option.getD_some, tree]
      rw [hsize, hnode]
      refine u.build_congr _ node _ _ fun j hj => ?_
      have hmem : (node, done.length) ∈ u.nodes.toList.zipIdx := by
        simpa [List.mem_zipIdx_iff_getElem?] using hnode
      have hlt : j < done.length :=
        of_decide_eq_true (List.all_eq_true.1 (List.all_eq_true.1 h _ hmem) j hj)
      rw [htrees j hlt, u.tree_of_inOrder h j done.length hlt]

theorem getD_raise (u : Unfolding ν τ) {below : Array τ} {n : Nat}
    (hbelow : ∀ j, below[j]?.getD (u.missing j) = u.tree n j) (i : Nat) :
    (u.raise below)[i]?.getD (u.missing i) = u.tree (n + 1) i := by
  have hparts : (fun j => below[j]?.getD (u.missing j)) = u.tree n := funext hbelow
  cases h : u.nodes[i]? <;> simp [raise, tree, h, hparts]

theorem tree_of_settle (u : Unfolding ν τ) {settled : Array Bool} {n : Nat}
    (hstable : ∀ j, settled[j]?.getD true = true → ∀ m, n ≤ m → u.tree m j = u.tree n j)
    (i : Nat) (hi : (u.settle settled)[i]?.getD true = true) (m : Nat) (hm : n + 1 ≤ m) :
    u.tree m i = u.tree (n + 1) i := by
  cases h : u.nodes[i]? with
  | none => rw [u.tree_of_none h, u.tree_of_none h]
  | some node =>
    obtain ⟨m, rfl⟩ : ∃ k, m = k + 1 := ⟨m - 1, by omega⟩
    simp only [settle, Array.getElem?_map, h, Option.map_some, Option.getD_some, List.all_eq_true] at hi
    simp only [tree, h]
    exact u.build_congr i node _ _ fun j hj => hstable j (hi j hj) m (by omega)

theorem getD_grow (u : Unfolding ν τ) (k : Nat) {settled : Array Bool} {trees : Array τ} {n : Nat}
    (htrees : ∀ j, trees[j]?.getD (u.missing j) = u.tree n j)
    (hstable : ∀ j, settled[j]?.getD true = true → ∀ m, n ≤ m → u.tree m j = u.tree n j) (i : Nat) :
    (u.grow k settled trees)[i]?.getD (u.missing i) = u.tree (n + k) i := by
  induction k generalizing settled trees n with
  | zero => exact htrees i
  | succ k ih =>
    rw [grow]
    split
    · rename_i hall
      rw [htrees i]
      refine (hstable i ?_ (n + (k + 1)) (by omega)).symm
      cases h : settled[i]? with
      | none => rfl
      | some b =>
        obtain ⟨hlt, rfl⟩ := Array.getElem?_eq_some_iff.1 h
        exact Array.all_eq_true.1 hall i hlt
    · rw [ih (u.getD_raise htrees) (u.tree_of_settle hstable)]
      congr 1
      omega

/-- The forest holds the tree of every node. -/
theorem getD_forest (u : Unfolding ν τ) (i : Nat) :
    u.forest[i]?.getD (u.missing i) = u.tree u.nodes.size i := by
  rw [forest]
  split
  · rename_i h
    by_cases hi : i < u.nodes.size
    · rw [u.tree_of_inOrder h i _ hi]
      have hnodes : u.nodes.toList = [] ++ u.nodes.toList := rfl
      exact u.getD_sweep h hnodes rfl (fun j hj => absurd hj (Nat.not_lt_zero j)) i hi
    · rw [u.tree_of_none (by simpa using hi)]
      have hsize : (u.sweep u.nodes.toList #[]).size = u.nodes.size := by simp [u.size_sweep]
      simp [Nat.le_of_not_lt hi, hsize]
  · have hstable : ∀ j, (u.nodes.map fun _ => false)[j]?.getD true = true →
        ∀ m, 0 ≤ m → u.tree m j = u.tree 0 j := by
      intro j hj m _
      cases hnode : u.nodes[j]? with
      | none => rw [u.tree_of_none hnode, u.tree_of_none hnode]
      | some node => simp [hnode] at hj
    have htrees : ∀ j, (#[] : Array τ)[j]?.getD (u.missing j) = u.tree 0 j := fun j => by simp [tree]
    have h := u.getD_grow u.nodes.size htrees hstable i
    rwa [Nat.zero_add] at h

end Unfolding

end Linkage
