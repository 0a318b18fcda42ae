import RollupX.Library.Bytes
import RollupX.Model.MerkleTree.Types

/-! Hashing of the nodes of the Merkle tree and checking of Merkle paths
(`executor/lib/merkle_tree/src/hasher`). -/

namespace RollupX.MerkleTree

/-- The trait `HashTree`, with what `Blake2Hasher` guarantees of the hashes of empty
subtrees. -/
structure HashTree where
  name : String
  hashLeaf : ValueHash → UInt64 → ValueHash
  hashBranch : ValueHash → ValueHash → ValueHash
  emptySubtreeHash : ℕ → ValueHash
  empty_zero : emptySubtreeHash 0 = hashLeaf ValueHash.zero 0
  empty_succ : ∀ depth, emptySubtreeHash (depth + 1) =
    hashBranch (emptySubtreeHash depth) (emptySubtreeHash depth)

namespace Blake2Hasher

def hashLeaf (hashBytes : List UInt8 → ValueHash) (valueHash : ValueHash) (leafIndex : UInt64) :
    ValueHash :=
  hashBytes (Bytes.be 8 leafIndex.toNat ++ valueHash.toList)

def hashBranch (hashBytes : List UInt8 → ValueHash) (lhs rhs : ValueHash) : ValueHash :=
  hashBytes (lhs.toList ++ rhs.toList)

/-- `compute_empty_tree_hashes`, one entry of the table. -/
def emptySubtreeHash (hashBytes : List UInt8 → ValueHash) (depth : ℕ) : ValueHash :=
  Nat.iterate (fun hash => hashBranch hashBytes hash hash) depth
    (hashBytes (List.replicate 40 0))

end Blake2Hasher

/-- `impl HashTree for Blake2Hasher`. The digest is a parameter. -/
def blake2Hasher (hashBytes : List UInt8 → ValueHash) : HashTree where
  name := "blake2s256"
  hashLeaf := Blake2Hasher.hashLeaf hashBytes
  hashBranch := Blake2Hasher.hashBranch hashBytes
  emptySubtreeHash := Blake2Hasher.emptySubtreeHash hashBytes
  empty_zero := rfl
  empty_succ depth := Function.iterate_succ_apply' _ depth _

variable (h : HashTree)

def HashTree.emptyTreeHash : ValueHash :=
  h.emptySubtreeHash treeDepth

def HashTree.hashOptionalBranch (subtreeDepth : ℕ) :
    Option ValueHash → Option ValueHash → Option ValueHash
  | none, none => none
  | some lhs, none => some (h.hashBranch lhs (h.emptySubtreeHash subtreeDepth))
  | none, some rhs => some (h.hashBranch (h.emptySubtreeHash subtreeDepth) rhs)
  | some lhs, some rhs => some (h.hashBranch lhs rhs)

/-! ## Leaves -/

/-- One level up, beside an empty subtree. -/
def LeafNode.hashStep (leaf : LeafNode) (hash : ValueHash) (depth : ℕ) : ValueHash :=
  if leaf.fullKey.getLsbD depth then h.hashBranch (h.emptySubtreeHash depth) hash
  else h.hashBranch hash (h.emptySubtreeHash depth)

/-- The hash of the subtree at `level` in which the leaf is alone. -/
def LeafNode.hash (leaf : LeafNode) (level : ℕ) : ValueHash :=
  (List.range (treeDepth - level)).foldl (leaf.hashStep h)
    (h.hashLeaf leaf.valueHash leaf.leafIndex)

/-! ## Merkle paths under construction -/

structure MerklePath where
  currentLevel : ℕ
  hashes : List ValueHash

def MerklePath.new (level : ℕ) : MerklePath :=
  ⟨level, []⟩

/-- Empty subtrees at the lower end of the path are left out. -/
def MerklePath.push (path : MerklePath) (maybeHash : Option ValueHash) : MerklePath where
  currentLevel := path.currentLevel - 1
  hashes :=
    match maybeHash with
    | some hash => path.hashes ++ [hash]
    | none =>
      if path.hashes = [] then []
      else path.hashes ++ [h.emptySubtreeHash (treeDepth - path.currentLevel)]

/-! ## Internal nodes -/

theorem two_mul_lt {n : ℕ} (i : Fin n) : 2 * i.1 < 2 * n :=
  Nat.mul_lt_mul_of_pos_left i.2 Nat.two_pos

theorem two_mul_add_one_lt {n : ℕ} (i : Fin n) : 2 * i.1 + 1 < 2 * n := by
  have := i.2
  omega

theorem half_lt {n : ℕ} (i : Fin (2 * n)) : i.1 / 2 < n :=
  Nat.div_lt_of_lt_mul i.2

/-- One round of the loop in `hash_inner`: neighbours are hashed in pairs. -/
def nextLevelHashes (subtreeDepth : ℕ) {n : ℕ} (levelHashes : Fin (2 * n) → Option ValueHash) :
    Fin n → Option ValueHash :=
  fun i => h.hashOptionalBranch subtreeDepth (levelHashes ⟨2 * i.1, two_mul_lt i⟩)
    (levelHashes ⟨2 * i.1 + 1, two_mul_add_one_lt i⟩)

def half {n : ℕ} (i : Fin (2 * n)) : Fin n :=
  ⟨i.1 / 2, half_lt i⟩

/-- `InternalNode::hash_inner`: the hash and what it leaves in the cache. -/
def InternalNode.hashInner (levelHashes : Nibble → Option ValueHash) (level : ℕ) :
    ValueHash × InternalNodeCache :=
  let level3 : Fin 8 → Option ValueHash :=
    nextLevelHashes h (treeDepth - (level + 4)) (n := 8) levelHashes
  let level2 : Fin 4 → Option ValueHash :=
    nextLevelHashes h (treeDepth - (level + 3)) (n := 4) level3
  let level1 : Fin 2 → Option ValueHash :=
    nextLevelHashes h (treeDepth - (level + 2)) (n := 2) level2
  let top := h.hashOptionalBranch (treeDepth - (level + 1)) (level1 0) (level1 1)
  (top.getD (h.emptySubtreeHash (treeDepth - level)), ⟨level1, level2, level3⟩)

def InternalNode.hash (node : InternalNode) (level : ℕ) : ValueHash :=
  (InternalNode.hashInner h node.childHashes level).1

/-- Only the hashes above the nibble are computed again. -/
def InternalNodeCache.updateNibble (cache : InternalNodeCache)
    (levelHashes : Nibble → Option ValueHash) (level : ℕ) (nibble : Nibble) :
    Option (ValueHash × InternalNodeCache) := do
  let i3 : Fin 8 := half (n := 8) nibble
  let level3 := Function.update cache.level3 i3
    (nextLevelHashes h (treeDepth - (level + 4)) (n := 8) levelHashes i3)
  let i2 : Fin 4 := half (n := 4) i3
  let level2 := Function.update cache.level2 i2
    (nextLevelHashes h (treeDepth - (level + 3)) (n := 4) level3 i2)
  let i1 : Fin 2 := half (n := 2) i2
  let level1 := Function.update cache.level1 i1
    (nextLevelHashes h (treeDepth - (level + 2)) (n := 2) level2 i1)
  let nodeHash ← h.hashOptionalBranch (treeDepth - (level + 1)) (level1 0) (level1 1)
  pure (nodeHash, ⟨level1, level2, level3⟩)

def InternalNodeCache.extendMerklePath (cache : InternalNodeCache) (path : MerklePath)
    (nibble : Nibble) : MerklePath :=
  let i3 : Fin 8 := half (n := 8) nibble
  let path := path.push h (cache.level3 (i3 ^^^ 1))
  let i2 : Fin 4 := half (n := 4) i3
  let path := path.push h (cache.level2 (i2 ^^^ 1))
  let i1 : Fin 2 := half (n := 2) i2
  path.push h (cache.level1 (i1 ^^^ 1))

namespace InternalNode

/-! `InternalNodeUpdater`: the node, its level and the affected nibble are arguments. -/

def ensureChildRef (node : InternalNode) (nibble : Nibble) (version : ℕ) (isLeaf : Bool) :
    InternalNode :=
  match node.children nibble with
  | some ref => node.insertChildRef nibble { ref with version := version, isLeaf := isLeaf }
  | none =>
    node.insertChildRef nibble
      (if isLeaf then ChildRef.leaf version else ChildRef.internal version)

/-- The new hash of the node, and the node. -/
def updateChildHash (node : InternalNode) (level : ℕ) (nibble : Nibble) (childHash : ValueHash) :
    Option (ValueHash × InternalNode) := do
  let ref ← node.children nibble
  let node := node.insertChildRef nibble { ref with hash := childHash }
  match node.cache with
  | some cache =>
    let (nodeHash, cache) ← cache.updateNibble h node.childHashes level nibble
    pure (nodeHash, { node with cache := some cache })
  | none =>
    let (nodeHash, cache) := hashInner h node.childHashes level
    pure (nodeHash, { node with cache := some cache })

def extendMerklePath (node : InternalNode) (level : ℕ) (nibble : Nibble) (path : MerklePath) :
    MerklePath × InternalNode :=
  let path := path.push h ((node.children (nibble ^^^ 1)).map (·.hash))
  let cache :=
    match node.cache with
    | some cache => cache
    | none => (hashInner h node.childHashes level).2
  (cache.extendMerklePath h path nibble, { node with cache := some cache })

end InternalNode

def Node.hash (node : Node) (level : ℕ) : ValueHash :=
  match node with
  | .internal inner => inner.hash h level
  | .leaf inner => inner.hash h level

def Root.hash : Root → ValueHash
  | .empty => h.emptyTreeHash
  | .filled _ node => node.hash h 0

/-! ## Checking proofs -/

/-- The path is filled up to `TREE_DEPTH` with empty subtrees at its lower end. -/
def HashTree.extendMerklePath (path : List ValueHash) : List ValueHash :=
  (List.range (treeDepth - path.length)).map h.emptySubtreeHash ++ path

def HashTree.foldMerklePath (path : List ValueHash) (entry : TreeEntry) : ValueHash :=
  (h.extendMerklePath path).zipIdx.foldl
    (fun hash step =>
      if entry.key.getLsbD step.2 then h.hashBranch step.1 hash else h.hashBranch hash step.1)
    (h.hashLeaf entry.value entry.leafIndex)

/-- The condition of `verify_proofs` that failed. -/
inductive ProofError where
  | logCount
  | pathLength
  | readRootHash
  | readLog
  | writeLog
  | previousRootHash
  | nextRootHash
deriving DecidableEq

/-- The entry that a log claims was there before. -/
def TreeLogEntry.previousEntry (key : Key) : TreeLogEntry → TreeEntry
  | .inserted | .readMissingKey => TreeEntry.empty key
  | .updated leafIndex value | .read leafIndex value => ⟨key, value, leafIndex⟩

/-- One round of the loop in `verify_proofs`. -/
def verifyLog (rootHash : ValueHash) (op : TreeLogEntryWithProof (List ValueHash))
    (instruction : TreeInstruction) : Except ProofError ValueHash := do
  if treeDepth < op.merklePath.length then throw .pathLength
  match instruction with
  | .read _ =>
    if op.rootHash ≠ rootHash then throw .readRootHash
    if ¬op.base.isRead then throw .readLog
  | .write _ => if op.base.isRead then throw .writeLog
  if h.foldMerklePath op.merklePath (op.base.previousEntry instruction.key) ≠ rootHash then
    throw .previousRootHash
  match instruction with
  | .read _ => pure ()
  | .write entry =>
    if h.foldMerklePath op.merklePath entry ≠ op.rootHash then throw .nextRootHash
  pure op.rootHash

def BlockOutputWithProofs.verifyProofs (output : BlockOutputWithProofs) (oldRootHash : ValueHash)
    (instructions : List TreeInstruction) : Except ProofError Unit := do
  if instructions.length ≠ output.logs.length then throw .logCount
  let _ ← (output.logs.zip instructions).foldlM
    (fun rootHash step => verifyLog h rootHash step.1 step.2) oldRootHash
  pure ()

inductive EntryProofError where
  | missingValue
  | rootHash
deriving DecidableEq

def TreeEntryWithProof.verify (entry : TreeEntryWithProof) (trustedRootHash : ValueHash) :
    Except EntryProofError Unit :=
  if entry.base.leafIndex = 0 ∧ entry.base.value ≠ ValueHash.zero then .error .missingValue
  else if h.foldMerklePath entry.merklePath entry.base ≠ trustedRootHash then .error .rootHash
  else .ok ()

end RollupX.MerkleTree
