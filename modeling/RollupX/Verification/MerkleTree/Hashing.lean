import RollupX.Library.SparseMerkle
import RollupX.Verification.MerkleTree.Keys

/-! The hashes of the nodes against a plain binary Merkle tree. -/

namespace RollupX.MerkleTree

open SparseMerkle

/-- What the tree holds for a key. -/
abbrev TreeValue := ValueHash × UInt64

abbrev Contents := Key → Option TreeValue

def TreeEntry.treeValue (entry : TreeEntry) : TreeValue :=
  (entry.value, entry.leafIndex)

def HashTree.plain (h : HashTree) : SparseMerkle ValueHash TreeValue where
  leaf v := h.hashLeaf v.1 v.2
  branch := h.hashBranch
  empty := h.emptySubtreeHash
  empty_succ := h.empty_succ

def byBits (m : Contents) : List Bool → Option TreeValue :=
  fun bs => m (keyOfBits bs)

def HashTree.treeHash (h : HashTree) (m : Contents) : ValueHash :=
  h.plain.root treeDepth (byBits m)

/-- The hashes beside the path of a key in the plain tree, the lowest first. -/
def HashTree.keySiblings (h : HashTree) (m : Contents) (key : Key) : List ValueHash :=
  h.plain.siblings 0 (byBits m) (keyBits key)

variable {h : HashTree}

@[simp] theorem plain_branch : h.plain.branch = h.hashBranch := rfl

@[simp] theorem plain_empty : h.plain.empty = h.emptySubtreeHash := rfl

theorem getD_hashOptionalBranch (d : ℕ) (lhs rhs : Option ValueHash) :
    (h.hashOptionalBranch d lhs rhs).getD (h.emptySubtreeHash (d + 1)) =
      h.hashBranch (lhs.getD (h.emptySubtreeHash d)) (rhs.getD (h.emptySubtreeHash d)) := by
  cases lhs <;> cases rhs <;> simp [HashTree.hashOptionalBranch, h.empty_succ]

theorem isSome_hashOptionalBranch (d : ℕ) (lhs rhs : Option ValueHash) :
    (h.hashOptionalBranch d lhs rhs).isSome = (lhs.isSome || rhs.isSome) := by
  cases lhs <;> cases rhs <;> rfl

/-- The hashes of one level of an internal node are those of the subtrees of depth `d`. -/
def LevelHashes (h : HashTree) (w d : ℕ) {n : ℕ} (f : Fin n → Option ValueHash)
    (m : List Bool → Option TreeValue) : Prop :=
  ∀ i, (f i).getD (h.emptySubtreeHash d) = h.plain.root d (below m (bits w i))

theorem bits_two_mul (w n : ℕ) : bits (w + 1) (2 * n) = bits w n ++ [false] := by
  rw [bits, Nat.mul_div_cancel_left n Nat.two_pos]
  simp

theorem bits_two_mul_add_one (w n : ℕ) : bits (w + 1) (2 * n + 1) = bits w n ++ [true] := by
  rw [bits, show (2 * n + 1) / 2 = n by omega]
  simp [Nat.testBit_zero]

theorem LevelHashes.next {w d n : ℕ} {f : Fin (2 * n) → Option ValueHash}
    {m : List Bool → Option TreeValue} (hf : LevelHashes h (w + 1) d f m) :
    LevelHashes h w (d + 1) (nextLevelHashes h d f) m := by
  intro i
  rw [nextLevelHashes, getD_hashOptionalBranch, hf, hf, root_succ, below_below, below_below,
    ← bits_two_mul, ← bits_two_mul_add_one]
  rfl

theorem subtreeDepths {level d : ℕ} (hlevel : level + 4 + d = treeDepth) :
    treeDepth - (level + 4) = d ∧ treeDepth - (level + 3) = d + 1 ∧
      treeDepth - (level + 2) = d + 2 ∧ treeDepth - (level + 1) = d + 3 ∧
      treeDepth - level = d + 4 := by
  simp only [treeDepth] at hlevel ⊢
  omega

section Levels

variable {f : Nibble → Option ValueHash} {level d : ℕ} {m : List Bool → Option TreeValue}

theorem hashInner_levels (hlevel : level + 4 + d = treeDepth) (hf : LevelHashes h 4 d f m) :
    LevelHashes h 3 (d + 1) (InternalNode.hashInner h f level).2.level3 m ∧
      LevelHashes h 2 (d + 2) (InternalNode.hashInner h f level).2.level2 m ∧
      LevelHashes h 1 (d + 3) (InternalNode.hashInner h f level).2.level1 m := by
  obtain ⟨h4, h3, h2, -, -⟩ := subtreeDepths hlevel
  simp only [InternalNode.hashInner, h4, h3, h2]
  have hlevel3 := LevelHashes.next (n := 8) hf
  have hlevel2 := LevelHashes.next (n := 4) hlevel3
  exact ⟨hlevel3, hlevel2, LevelHashes.next (n := 2) hlevel2⟩

/-- An internal node hashes its children as four levels of the plain tree. -/
theorem hashInner_eq (hlevel : level + 4 + d = treeDepth) (hf : LevelHashes h 4 d f m) :
    (InternalNode.hashInner h f level).1 = h.plain.root (d + 4) m := by
  obtain ⟨-, -, hlevel1⟩ := hashInner_levels hlevel hf
  obtain ⟨-, -, -, h1, h0⟩ := subtreeDepths hlevel
  have htop := LevelHashes.next (n := 1) hlevel1 0
  rw [← h1, show treeDepth - (level + 1) + 1 = treeDepth - level by omega] at htop
  rw [← h0]
  exact htop

end Levels

section Cache

variable {n d : ℕ} {f f' : Fin (2 * n) → Option ValueHash} {k : Fin (2 * n)}

theorem ne_of_half_ne {i : Fin n} (hi : i ≠ half k) :
    (⟨2 * i.1, two_mul_lt i⟩ : Fin (2 * n)) ≠ k ∧
      (⟨2 * i.1 + 1, two_mul_add_one_lt i⟩ : Fin (2 * n)) ≠ k := by
  constructor <;> rintro rfl <;> refine hi (Fin.ext ?_) <;> simp only [half] <;> omega

theorem nextLevelHashes_of_ne (hf : ∀ i, i ≠ k → f' i = f i) (i : Fin n) (hi : i ≠ half k) :
    nextLevelHashes h d f' i = nextLevelHashes h d f i := by
  obtain ⟨heven, hodd⟩ := ne_of_half_ne hi
  rw [nextLevelHashes, nextLevelHashes, hf _ heven, hf _ hodd]

theorem update_nextLevelHashes (hf : ∀ i, i ≠ k → f' i = f i) :
    Function.update (nextLevelHashes h d f) (half k) (nextLevelHashes h d f' (half k)) =
      nextLevelHashes h d f' := by
  funext i
  rcases eq_or_ne i (half k) with rfl | hi
  · rw [Function.update_self]
  · rw [Function.update_of_ne hi, nextLevelHashes_of_ne hf i hi]

theorem isSome_nextLevelHashes (hk : (f k).isSome) : (nextLevelHashes h d f (half k)).isSome := by
  rw [nextLevelHashes, isSome_hashOptionalBranch, Bool.or_eq_true]
  rcases Nat.mod_two_eq_zero_or_one k.1 with hmod | hmod
  · left
    rwa [show (⟨2 * (half k).1, two_mul_lt (half k)⟩ : Fin (2 * n)) = k from
      Fin.ext (by simp only [half]; omega)]
  · right
    rwa [show (⟨2 * (half k).1 + 1, two_mul_add_one_lt (half k)⟩ : Fin (2 * n)) = k from
      Fin.ext (by simp only [half]; omega)]

end Cache

theorem isSome_of_half {f : Fin 2 → Option ValueHash} {d : ℕ} {k : Fin 2} (hk : (f k).isSome) :
    (h.hashOptionalBranch d (f 0) (f 1)).isSome := by
  have hnext := isSome_nextLevelHashes (h := h) (d := d) (n := 1) hk
  rwa [Subsingleton.elim (half (n := 1) k) 0] at hnext

theorem updateNibble_eq {f f' : Nibble → Option ValueHash} {nibble : Nibble}
    (hf : ∀ i, i ≠ nibble → f' i = f i) (hsome : (f' nibble).isSome) (level : ℕ) :
    (InternalNode.hashInner h f level).2.updateNibble h f' level nibble =
      some (InternalNode.hashInner h f' level) := by
  have hlevel3 := nextLevelHashes_of_ne (h := h) (n := 8) (d := treeDepth - (level + 4)) hf
  have hlevel2 := nextLevelHashes_of_ne (h := h) (n := 4) (d := treeDepth - (level + 3)) hlevel3
  have htop := isSome_of_half (h := h) (d := treeDepth - (level + 1))
    (isSome_nextLevelHashes (h := h) (n := 2) (d := treeDepth - (level + 2))
      (isSome_nextLevelHashes (h := h) (n := 4) (d := treeDepth - (level + 3))
        (isSome_nextLevelHashes (h := h) (n := 8) (d := treeDepth - (level + 4)) hsome)))
  obtain ⟨hash, hhash⟩ := Option.isSome_iff_exists.mp htop
  simp only [InternalNodeCache.updateNibble, InternalNode.hashInner,
    update_nextLevelHashes (h := h) (n := 8) hf, update_nextLevelHashes (h := h) (n := 4) hlevel3,
    update_nextLevelHashes (h := h) (n := 2) hlevel2, hhash]
  rfl

/-- The path stands for these siblings, the lowest first: those that it leaves out are empty
subtrees. -/
structure MerklePath.Stands (h : HashTree) (path : MerklePath) (sibs : List ValueHash) : Prop where
  level : sibs.length + path.currentLevel = treeDepth
  le : path.hashes.length ≤ sibs.length
  eq : sibs = h.plain.emptySiblings 0 (sibs.length - path.hashes.length) ++ path.hashes

variable {path : MerklePath} {sibs : List ValueHash}

theorem MerklePath.stands_new {level d : ℕ} (hlevel : level + d = treeDepth) :
    (MerklePath.new level).Stands h (h.plain.emptySiblings 0 d) where
  level := by rw [length_emptySiblings, MerklePath.new, Nat.add_comm, hlevel]
  le := Nat.zero_le _
  eq := by simp [MerklePath.new]

theorem MerklePath.Stands.push (hp : path.Stands h sibs) (hlevel : 0 < path.currentLevel)
    (hash : Option ValueHash) :
    (path.push h hash).Stands h (sibs ++ [hash.getD (h.emptySubtreeHash sibs.length)]) := by
  obtain ⟨hcurrent, hle, heq⟩ := hp
  have hdepth : treeDepth - path.currentLevel = sibs.length := by omega
  refine ⟨?_, ?_, ?_⟩
  · simp only [MerklePath.push, List.length_append, List.length_singleton]
    omega
  · cases hash with
    | some x => simpa [MerklePath.push] using hle
    | none =>
      simp only [MerklePath.push]
      split
      · simp
      · simpa using hle
  · cases hash with
    | some x =>
      simp only [MerklePath.push, Option.getD_some, List.length_append, List.length_singleton,
        Nat.add_sub_add_right]
      rw [← List.append_assoc, ← heq]
    | none =>
      simp only [MerklePath.push, Option.getD_none, hdepth]
      split
      · rename_i hnil
        rw [hnil, List.length_nil, Nat.sub_zero, List.append_nil] at heq
        rw [List.length_nil, Nat.sub_zero, List.append_nil, List.length_append,
          List.length_singleton, emptySiblings_succ, ← heq, Nat.zero_add, plain_empty]
      · simp only [List.length_append, List.length_singleton, Nat.add_sub_add_right]
        rw [← List.append_assoc, ← heq]

theorem MerklePath.Stands.iterate_push (hp : path.Stands h sibs) {n : ℕ}
    (hn : n ≤ path.currentLevel) :
    (Nat.iterate (fun path : MerklePath => path.push h none) n path).Stands h
      (sibs ++ h.plain.emptySiblings sibs.length n) := by
  induction n with
  | zero => simpa [emptySiblings] using hp
  | succ n ih =>
    have hstands := ih (by omega)
    have hlevel := hstands.level
    rw [List.length_append, length_emptySiblings] at hlevel
    have hlevel' := hp.level
    have hnext := hstands.push (by omega) none
    rw [Function.iterate_succ_apply']
    rwa [List.append_assoc, Option.getD_none, List.length_append, length_emptySiblings,
      ← plain_empty, ← emptySiblings_succ] at hnext

theorem siblings_bits (d : ℕ) (m : List Bool → Option TreeValue) (w n : ℕ) :
    h.plain.siblings d m (bits (w + 1) n) =
      h.plain.root d (below m (bits w (n / 2) ++ [!n.testBit 0])) ::
        h.plain.siblings (d + 1) m (bits w (n / 2)) := by
  rw [bits, siblings_append]
  simp [siblings, Nat.add_comm]

theorem bits_xor_nibble : ∀ i : Nibble,
    bits 4 (i ^^^ 1).val = bits 3 (i.val / 2) ++ [!i.val.testBit 0] := by
  decide

theorem bits_xor_level3 : ∀ i : Fin 8,
    bits 3 (i ^^^ 1).val = bits 2 (i.val / 2) ++ [!i.val.testBit 0] := by
  decide

theorem bits_xor_level2 : ∀ i : Fin 4,
    bits 2 (i ^^^ 1).val = bits 1 (i.val / 2) ++ [!i.val.testBit 0] := by
  decide

theorem bits_xor_level1 : ∀ i : Fin 2,
    bits 1 (i ^^^ 1).val = bits 0 (i.val / 2) ++ [!i.val.testBit 0] := by
  decide

/-- The cache of a node is right if there is one. -/
def InternalNode.CacheOk (h : HashTree) (node : InternalNode) (level : ℕ) : Prop :=
  ∀ cache, node.cache = some cache → cache = (InternalNode.hashInner h node.childHashes level).2

section Node

variable {node : InternalNode} {level d : ℕ} {m : List Bool → Option TreeValue}

theorem stands_extendMerklePath (hlevel : level + 4 + d = treeDepth)
    (hhashes : LevelHashes h 4 d node.childHashes m) (hcache : node.CacheOk h level)
    (hpath : path.Stands h sibs) (hsibs : sibs.length = d) (nibble : Nibble) :
    (node.extendMerklePath h level nibble path).1.Stands h
      (sibs ++ h.plain.siblings d m (bits 4 nibble)) := by
  have hused : (node.extendMerklePath h level nibble path).1 =
      (InternalNode.hashInner h node.childHashes level).2.extendMerklePath h
        (path.push h (node.childHashes (nibble ^^^ 1))) nibble := by
    rw [InternalNode.extendMerklePath]
    cases hc : node.cache with
    | none => rfl
    | some cache => rw [← hcache cache hc]; rfl
  obtain ⟨hlevel3, hlevel2, hlevel1⟩ := hashInner_levels hlevel hhashes
  have hcurrent := hpath.level
  simp only [treeDepth] at hlevel hcurrent
  have h4 := hpath.push (by omega) (node.childHashes (nibble ^^^ 1))
  have h3 := h4.push (by simp only [MerklePath.push]; omega)
    ((InternalNode.hashInner h node.childHashes level).2.level3 (half (n := 8) nibble ^^^ 1))
  have h2 := h3.push (by simp only [MerklePath.push]; omega)
    ((InternalNode.hashInner h node.childHashes level).2.level2
      (half (n := 4) (half (n := 8) nibble) ^^^ 1))
  have h1 := h2.push (by simp only [MerklePath.push]; omega)
    ((InternalNode.hashInner h node.childHashes level).2.level1
      (half (n := 2) (half (n := 4) (half (n := 8) nibble)) ^^^ 1))
  rw [hused, InternalNodeCache.extendMerklePath]
  convert h1 using 1
  simp only [List.append_assoc, List.length_append, List.length_singleton, hsibs]
  rw [hhashes, hlevel3, hlevel2, hlevel1, siblings_bits, siblings_bits, siblings_bits,
    siblings_bits, bits_xor_nibble, bits_xor_level3, bits_xor_level2, bits_xor_level1]
  rfl

end Node

theorem foldl_hashStep (leaf : LeafNode) (n : ℕ) (x : ValueHash) :
    (List.range n).foldl (leaf.hashStep h) x =
      h.plain.climb ((List.range n).map leaf.fullKey.getLsbD) (h.plain.emptySiblings 0 n) x := by
  induction n with
  | zero => rfl
  | succ n ih =>
    rw [List.range_succ, List.foldl_append, ih, List.map_append, emptySiblings_succ,
      climb_append (by simp), Nat.zero_add]
    rfl

theorem LeafNode.hash_eq (leaf : LeafNode) (level : ℕ) {m : List Bool → Option TreeValue}
    (hleaf : m (bitRange leaf.fullKey level (treeDepth - level)) =
      some (leaf.valueHash, leaf.leafIndex))
    (hm : ∀ bs, bs.length = treeDepth - level →
      bs ≠ bitRange leaf.fullKey level (treeDepth - level) → m bs = none) :
    leaf.hash h level = h.plain.root (treeDepth - level) m := by
  have hroot := root_of_lone (h := h.plain) (p := bitRange leaf.fullKey level (treeDepth - level))
    (m := m) (by simpa using hm)
  rw [length_bitRange, reverse_bitRange, hleaf] at hroot
  rw [hroot, LeafNode.hash, foldl_hashStep]
  rfl

theorem foldl_zipIdx_eq_climb (key : Key) (path : List ValueHash) (n : ℕ) (x : ValueHash) :
    (path.zipIdx n).foldl
        (fun hash step =>
          if key.getLsbD step.2 then h.hashBranch step.1 hash else h.hashBranch hash step.1) x =
      h.plain.climb ((List.range' n path.length).map key.getLsbD) path x := by
  induction path generalizing n x with
  | nil => simp
  | cons s path ih =>
    rw [List.zipIdx_cons, List.foldl_cons, ih, List.length_cons, List.range'_succ, List.map_cons,
      climb_cons]
    rfl

theorem length_extendMerklePath {path : List ValueHash} (hpath : path.length ≤ treeDepth) :
    (h.extendMerklePath path).length = treeDepth := by
  rw [HashTree.extendMerklePath, List.length_append, List.length_map, List.length_range,
    Nat.sub_add_cancel hpath]

theorem foldMerklePath_eq {path : List ValueHash} (hpath : path.length ≤ treeDepth)
    (entry : TreeEntry) :
    h.foldMerklePath path entry =
      h.plain.climb (keyBits entry.key).reverse (h.extendMerklePath path)
        (h.hashLeaf entry.value entry.leafIndex) := by
  have hbits : (keyBits entry.key).reverse = (List.range treeDepth).map entry.key.getLsbD :=
    reverse_bitRange entry.key 0
  rw [HashTree.foldMerklePath, foldl_zipIdx_eq_climb, length_extendMerklePath hpath, hbits,
    List.range_eq_range']

theorem MerklePath.Stands.extendMerklePath (hp : path.Stands h sibs)
    (hlen : sibs.length = treeDepth) :
    h.extendMerklePath path.hashes = sibs ∧ path.hashes.length ≤ treeDepth := by
  refine ⟨?_, hlen ▸ hp.le⟩
  have heq := hp.eq
  rw [hlen] at heq
  rw [heq, HashTree.extendMerklePath, emptySiblings]
  simp

end RollupX.MerkleTree
