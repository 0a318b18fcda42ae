import Mathlib.Data.Fintype.Card
import Mathlib.Data.List.FinRange
import Mathlib.Logic.Function.Basic

/-! Keys, nodes and outputs of the Merkle tree of the executor
(`executor/lib/merkle_tree/src/types`): a radix-16 tree in which a node is addressed by the
nibbles of its path and the version that wrote it. -/

namespace RollupX.MerkleTree

abbrev ValueHash := Vector UInt8 32

abbrev Key := BitVec 256

abbrev treeDepth : ℕ := 256

/-- `2 * KEY_SIZE`, the number of nibbles of a key. -/
abbrev keyNibbles : ℕ := 64

def ValueHash.zero : ValueHash :=
  Vector.replicate 32 0

/-! ## Nibbles -/

abbrev Nibble := Fin 16

/-- A path from the root of the tree. The source keeps a count and 32 bytes of which the unused
ones are zero, so two of them are equal exactly when the nibbles are. -/
abbrev Nibbles := List Nibble

namespace Nibbles

/-- The nibble with index 0 is the most significant one. -/
def nibble (key : Key) (index : ℕ) : Nibble :=
  ⟨key.toNat >>> (4 * (63 - index)) % 16, Nat.mod_lt _ (Nat.succ_pos 15)⟩

def new (key : Key) (nibbleCount : ℕ) : Nibbles :=
  (List.range nibbleCount).map (nibble key)

def splitLast (nibbles : Nibbles) : Option (Nibbles × Nibble) :=
  nibbles.getLast?.map fun last => (nibbles.dropLast, last)

end Nibbles

/-! ## Entries and instructions -/

structure TreeEntry where
  key : Key
  value : ValueHash
  leafIndex : UInt64
deriving DecidableEq

/-- The entry that encodes the lack of a value. -/
def TreeEntry.empty (key : Key) : TreeEntry :=
  ⟨key, ValueHash.zero, 0⟩

inductive TreeInstruction where
  | read (key : Key)
  | write (entry : TreeEntry)
deriving DecidableEq

def TreeInstruction.key : TreeInstruction → Key
  | .read key => key
  | .write entry => entry.key

inductive TreeLogEntry where
  | inserted
  | updated (leafIndex : UInt64) (previousValue : ValueHash)
  | read (leafIndex : UInt64) (value : ValueHash)
  | readMissingKey
deriving DecidableEq

def TreeLogEntry.isRead : TreeLogEntry → Bool
  | .read _ _ | .readMissingKey => true
  | .inserted | .updated _ _ => false

/-- `P` is the type of a Merkle path under construction or of a finished one. -/
structure TreeLogEntryWithProof (P : Type*) where
  base : TreeLogEntry
  merklePath : P
  rootHash : ValueHash

structure BlockOutputWithProofs where
  logs : List (TreeLogEntryWithProof (List ValueHash))
  leafCount : ℕ

/-- The hash of the tree after the last instruction, if there was one. -/
def BlockOutputWithProofs.rootHash (output : BlockOutputWithProofs) : Option ValueHash :=
  output.logs.getLast?.map (·.rootHash)

structure TreeEntryWithProof where
  base : TreeEntry
  merklePath : List ValueHash

/-! ## Nodes -/

structure LeafNode where
  fullKey : Key
  valueHash : ValueHash
  leafIndex : UInt64
deriving DecidableEq

def LeafNode.new (entry : TreeEntry) : LeafNode :=
  ⟨entry.key, entry.value, entry.leafIndex⟩

def LeafNode.updateFrom (leaf : LeafNode) (entry : TreeEntry) : LeafNode :=
  { leaf with valueHash := entry.value, leafIndex := entry.leafIndex }

def LeafNode.toEntry (leaf : LeafNode) : TreeEntry :=
  ⟨leaf.fullKey, leaf.valueHash, leaf.leafIndex⟩

structure ChildRef where
  hash : ValueHash
  version : ℕ
  isLeaf : Bool
deriving DecidableEq

def ChildRef.leaf (version : ℕ) : ChildRef :=
  ⟨ValueHash.zero, version, true⟩

def ChildRef.internal (version : ℕ) : ChildRef :=
  ⟨ValueHash.zero, version, false⟩

/-- The hashes of an internal node between its children and itself; `none` stands for an empty
subtree. -/
structure InternalNodeCache where
  level1 : Fin 2 → Option ValueHash
  level2 : Fin 4 → Option ValueHash
  level3 : Fin 8 → Option ValueHash

structure InternalNode where
  children : Nibble → Option ChildRef := fun _ => none
  cache : Option InternalNodeCache := none

namespace InternalNode

def default : InternalNode := {}

/-- `Clone::clone`: the cache is dropped. -/
def clone (node : InternalNode) : InternalNode :=
  { node with cache := none }

def childCount (node : InternalNode) : ℕ :=
  (List.finRange 16).countP fun nibble => (node.children nibble).isSome

def childHashes (node : InternalNode) : Nibble → Option ValueHash :=
  fun nibble => (node.children nibble).map (·.hash)

def insertChildRef (node : InternalNode) (nibble : Nibble) (ref : ChildRef) : InternalNode :=
  { node with children := Function.update node.children nibble (some ref) }

end InternalNode

inductive Node where
  | internal (inner : InternalNode)
  | leaf (inner : LeafNode)

def Node.isLeaf : Node → Bool
  | .internal _ => false
  | .leaf _ => true

def Node.clone : Node → Node
  | .internal inner => .internal inner.clone
  | .leaf inner => .leaf inner

inductive Root where
  | empty
  | filled (leafCount : ℕ) (node : Node)

/-- `Root::new`. It panics without leaves. -/
def Root.new (leafCount : ℕ) (node : Node) : Option Root :=
  if leafCount = 0 then none else some (.filled leafCount node)

def Root.leafCount : Root → ℕ
  | .empty => 0
  | .filled leafCount _ => leafCount

def Root.clone : Root → Root
  | .empty => .empty
  | .filled leafCount node => .filled leafCount node.clone

/-! ## The manifest -/

structure TreeTags where
  architecture : String
  depth : ℕ
  hasher : String
  isRecovering : Bool
  custom : List (String × String)
deriving DecidableEq

def TreeTags.new (hasher : String) : TreeTags :=
  ⟨"AR16MT", treeDepth, hasher, false, []⟩

inductive TagsError where
  | architecture
  | depth
  | hasher
  | notRecovering
  | recovering
deriving DecidableEq

def TreeTags.ensureConsistency (tags : TreeTags) (hasher : String) (expectingRecovery : Bool) :
    Except TagsError Unit :=
  if tags.architecture ≠ "AR16MT" then .error .architecture
  else if tags.depth ≠ treeDepth then .error .depth
  else if hasher ≠ tags.hasher then .error .hasher
  else if expectingRecovery then
    if tags.isRecovering then .ok () else .error .notRecovering
  else if tags.isRecovering then .error .recovering
  else .ok ()

structure Manifest where
  versionCount : ℕ := 0
  tags : Option TreeTags := none
deriving DecidableEq

end RollupX.MerkleTree
