import Mathlib.Data.List.MinMax
import RollupX.Model.MerkleTree.Patch

/-! Creating a new version of the tree with a Merkle proof for every instruction, and reading a
version (`executor/lib/merkle_tree/src/storage/mod.rs`, `storage/proofs.rs`, `utils.rs`,
`getters.rs` and `lib.rs`). -/

namespace RollupX.MerkleTree

/-- Of the metrics, only the number of new leaves is used. -/
structure TreeUpdater where
  patchSet : WorkingPatchSet
  newLeaves : ℕ := 0

/-- The new or updated leaf, and the leaf that was moved down the tree for it. -/
structure NewLeafData where
  nibbles : Nibbles
  leaf : LeafNode
  adjacentLeaf : Option (Nibbles × LeafNode) := none

/-! ## Insertion -/

namespace TreeUpdater

def insertNode (updater : TreeUpdater) (nibbles : Nibbles) (node : Node) (isNew : Bool) :
    TreeUpdater where
  patchSet := updater.patchSet.insert nibbles node
  newLeaves := if node.isLeaf && isNew then updater.newLeaves + 1 else updater.newLeaves

def updateMovedLeafRef (patch : WorkingPatchSet) (leafNibbles : Nibbles) : Option WorkingPatchSet :=
  match Nibbles.splitLast leafNibbles with
  | some (parentNibbles, lastNibble) =>
    patch.modifyChildRef parentNibbles lastNibble fun ref => { ref with isLeaf := false }
  | none => some patch

/-- The loop that puts internal nodes where the key of a leaf and the new key agree, and at the
nibble at which they part, whose index is returned. -/
def insertPath (movedKey key : Key) : ℕ → ℕ → TreeUpdater → Option (ℕ × TreeUpdater)
  | 0, _, _ => none
  | fuel + 1, nibbleIdx, updater =>
    let version := updater.patchSet.rootVersion
    let movedLeafNibble := Nibbles.nibble movedKey nibbleIdx
    let newLeafNibble := Nibbles.nibble key nibbleIdx
    if movedLeafNibble = newLeafNibble then
      let node := InternalNode.default.insertChildRef newLeafNibble (ChildRef.internal version)
      insertPath movedKey key fuel (nibbleIdx + 1)
        (updater.insertNode (Nibbles.new key nibbleIdx) (.internal node) true)
    else
      let node := (InternalNode.default.insertChildRef newLeafNibble
        (ChildRef.leaf version)).insertChildRef movedLeafNibble (ChildRef.leaf version)
      some (nibbleIdx, updater.insertNode (Nibbles.new key nibbleIdx) (.internal node) true)

/-- The part of `insert` that depends on where the traversal ended. -/
def insertAt (updater : TreeUpdater) (entry : TreeEntry) :
    TraverseOutcome → Option (TreeLogEntry × NewLeafData × TreeUpdater)
  | .leafMatch nibbles leaf =>
    let newLeaf := leaf.updateFrom entry
    some (.updated leaf.leafIndex leaf.valueHash, { nibbles, leaf := newLeaf },
      { updater with patchSet := updater.patchSet.insert nibbles (.leaf newLeaf) })
  | .leafMismatch nibbles leaf => do
      let patch ← updateMovedLeafRef updater.patchSet nibbles
      let (nibbleIdx, updater) ← insertPath leaf.fullKey entry.key (keyNibbles - nibbles.length)
        nibbles.length { updater with patchSet := patch }
      pure (.inserted,
        { nibbles := Nibbles.new entry.key (nibbleIdx + 1)
          leaf := LeafNode.new entry
          adjacentLeaf := some (Nibbles.new leaf.fullKey (nibbleIdx + 1), leaf) }, updater)
  | .missingChild nibbles =>
    match Nibbles.splitLast nibbles with
    | none =>
      let leaf := LeafNode.new entry
      some (.inserted, { nibbles := [], leaf },
        { updater with patchSet := updater.patchSet.insert [] (.leaf leaf) })
    | some (parentNibbles, lastNibble) =>
      match updater.patchSet.get parentNibbles with
      | some (.internal parent) =>
        let parent := parent.insertChildRef lastNibble
          (ChildRef.leaf updater.patchSet.rootVersion)
        some (.inserted, { nibbles, leaf := LeafNode.new entry },
          { updater with
            patchSet := updater.patchSet.insert parentNibbles (.internal parent) })
      | _ => none

/-- The references above a position (last nibble first) get the new version. -/
def updateVersions (version : ℕ) : List Nibble → WorkingPatchSet → Option WorkingPatchSet
  | [], patch => some patch
  | lastNibble :: rest, patch => do
      let patch ← patch.modifyChildRef rest.reverse lastNibble fun ref =>
        { ref with version := max ref.version version }
      updateVersions version rest patch

def insert (updater : TreeUpdater) (entry : TreeEntry) (parentNibbles : Nibbles) :
    Option (TreeLogEntry × NewLeafData × TreeUpdater) := do
  let version := updater.patchSet.rootVersion
  let outcome ← updater.patchSet.traverse entry.key parentNibbles
  let (log, leafData, updater) ← updater.insertAt entry outcome
  let updater :=
    if log = .inserted then updater.insertNode leafData.nibbles (.leaf leafData.leaf) true
    else updater
  let updater :=
    match leafData.adjacentLeaf with
    | some (nibbles, leaf) => updater.insertNode nibbles (.leaf leaf) false
    | none => updater
  let patch ← updateVersions version outcome.position.reverse updater.patchSet
  pure (log, leafData, { updater with patchSet := patch })

/-! ## Proofs for the instructions of one subtree -/

variable (h : HashTree)

/-- The loop of `update_node_hashes`, from the path of a node (last nibble first) with the hash
of that node. It ends below the root. -/
def updateHashesUp :
    List Nibble → ValueHash → MerklePath → WorkingPatchSet →
      Option (ValueHash × MerklePath × WorkingPatchSet)
  | [], nodeHash, path, patch => some (nodeHash, path, patch)
  | lastNibble :: rest, nodeHash, path, patch =>
    if rest.length = 0 then some (nodeHash, path, patch)
    else
      match patch.get rest.reverse with
      | some (.internal parent) => do
          let (nodeHash, parent) ←
            parent.updateChildHash h (rest.length * 4) lastNibble nodeHash
          let (path, parent) := parent.extendMerklePath h (rest.length * 4) lastNibble path
          updateHashesUp rest nodeHash path (patch.insert rest.reverse (.internal parent))
      | _ => none

def updateNodeHashes (patch : WorkingPatchSet) (leafData : NewLeafData) :
    Option (ValueHash × MerklePath × WorkingPatchSet) := do
  let patch ←
    match leafData.adjacentLeaf with
    | some (nibbles, leaf) => do
        let (parentNibbles, lastNibble) ← Nibbles.splitLast nibbles
        patch.modifyChildRef parentNibbles lastNibble fun ref =>
          { ref with hash := leaf.hash h (nibbles.length * 4) }
    | none => some patch
  let leafLevel := leafData.nibbles.length * 4
  updateHashesUp h leafData.nibbles.reverse (leafData.leaf.hash h leafLevel)
    (MerklePath.new leafLevel) patch

def prove (updater : TreeUpdater) (key : Key) (parentNibbles : Nibbles) :
    Option (TreeLogEntry × MerklePath × TreeUpdater) := do
  let (leaf, path, patch) ← updater.patchSet.createProof h key parentNibbles 1
  let log := match leaf with
    | some leaf => .read leaf.leafIndex leaf.valueHash
    | none => .readMissingKey
  pure (log, path, { updater with patchSet := patch })

end TreeUpdater

structure InstructionWithPrecomputes where
  index : ℕ
  instruction : TreeInstruction
  parentNibbles : Nibbles

/-- The instructions of the subtree with this first nibble. -/
def InstructionWithPrecomputes.split (instructions : List TreeInstruction)
    (parentNibbles : List Nibbles) (firstNibble : Nibble) : List InstructionWithPrecomputes :=
  ((instructions.zip parentNibbles).zipIdx.map fun item =>
    (⟨item.2, item.1.1, item.1.2⟩ : InstructionWithPrecomputes)).filter fun item =>
      Nibbles.nibble item.instruction.key 0 = firstNibble

namespace TreeUpdater

variable (h : HashTree)

/-- One round of `extend_precomputed`. The root hash is that of the subtree. -/
def extendStep (updater : TreeUpdater) (rootHash : ValueHash)
    (instruction : TreeInstruction) (parentNibbles : Nibbles) :
    Option (TreeLogEntryWithProof MerklePath × TreeUpdater) :=
  match instruction with
  | .write entry => do
      let (log, leafData, updater) ← updater.insert entry parentNibbles
      let (newRootHash, path, patch) ← updateNodeHashes h updater.patchSet leafData
      pure (⟨log, path, newRootHash⟩, { updater with patchSet := patch })
  | .read key => do
      let (log, path, updater) ← updater.prove h key parentNibbles
      pure (⟨log, path, rootHash⟩, updater)

def extendLoop :
    List InstructionWithPrecomputes → TreeUpdater → ValueHash →
      Option (List (ℕ × TreeLogEntryWithProof MerklePath) × TreeUpdater)
  | [], updater, _ => some ([], updater)
  | item :: items, updater, rootHash => do
      let (log, updater) ← updater.extendStep h rootHash item.instruction item.parentNibbles
      let (logs, updater) ← extendLoop items updater log.rootHash
      pure ((item.index, log) :: logs, updater)

/-- For a subtree that is not in the patch the loop starts with the hash of an empty subtree of
depth `SUBTREE_ROOT_LEVEL`. -/
def extendPrecomputed (updater : TreeUpdater) (firstNibble : Nibble)
    (instructions : List InstructionWithPrecomputes) :
    Option (List (ℕ × TreeLogEntryWithProof MerklePath) × TreeUpdater) :=
  let rootHash :=
    ((updater.patchSet.get [firstNibble]).map (·.hash h 4)).getD (h.emptySubtreeHash 4)
  extendLoop h instructions updater rootHash

def split (updater : TreeUpdater) (firstNibble : Nibble) : TreeUpdater where
  patchSet := updater.patchSet.split firstNibble

def merge (updater other : TreeUpdater) : TreeUpdater where
  patchSet := updater.patchSet.merge other.patchSet
  newLeaves := updater.newLeaves + other.newLeaves

end TreeUpdater

/-! ## Merging the subtrees -/

section

variable {T : Type*}

/-- The part whose first item has the smallest index. -/
def nextPart (parts : Nibble → List (ℕ × T)) : Option Nibble :=
  (((List.finRange 16).filterMap fun part =>
    (parts part).head?.map fun item => (item.1, part)).argmin (·.1)).map (·.2)

/-- `MergingIter`, for as many items as there are. -/
def mergeItems : ℕ → (Nibble → List (ℕ × T)) → List (Nibble × T)
  | 0, _ => []
  | count + 1, parts =>
    match nextPart parts with
    | none => []
    | some part =>
      match parts part with
      | [] => []
      | item :: rest => (part, item.2) :: mergeItems count (Function.update parts part rest)

def mergeByIndex (parts : Nibble → List (ℕ × T)) : List (Nibble × T) :=
  mergeItems ((List.finRange 16).map fun part => (parts part).length).sum parts

/-- The outcomes of the parallel parts. A panic in one of them is a panic of all. -/
def allParts (parts : Nibble → Option T) : Option (Nibble → T) :=
  if hall : ∀ part, (parts part).isSome then some fun part => (parts part).get (hall part)
  else none

end

namespace TreeUpdater

variable (h : HashTree)

/-- The loop of `finalize_logs`: the root node takes in the root hashes of the subtrees one
after another. -/
def finalizeLogsLoop (version : ℕ) (isLeafBySubtree : Nibble → Bool) :
    List (Nibble × TreeLogEntryWithProof MerklePath) → InternalNode → ValueHash →
      Option (List (TreeLogEntryWithProof (List ValueHash)) × InternalNode)
  | [], root, _ => some ([], root)
  | (nibble, log) :: logs, root, rootHash => do
      let (rootHash, root) ←
        if log.base.isRead then some (rootHash, root)
        else
          (root.ensureChildRef nibble version (isLeafBySubtree nibble)).updateChildHash h 0 nibble
            log.rootHash
      let (path, root) := root.extendMerklePath h 0 nibble log.merklePath
      let (logs, root) ← finalizeLogsLoop version isLeafBySubtree logs root rootHash
      pure (⟨log.base, path.hashes, rootHash⟩ :: logs, root)

def finalizeLogs (updater : TreeUpdater) (root : InternalNode)
    (logs : List (Nibble × TreeLogEntryWithProof MerklePath)) :
    Option (List (TreeLogEntryWithProof (List ValueHash)) × TreeUpdater) := do
  let isLeafBySubtree : Nibble → Bool := fun nibble =>
    ((updater.patchSet.get [nibble]).map Node.isLeaf).getD false
  let (logs, root) ← finalizeLogsLoop h updater.patchSet.rootVersion isLeafBySubtree logs root
    (root.hash h 0)
  let patch :=
    if root.childCount = 0 then updater.patchSet.takeRoot
    else updater.patchSet.insert [] (.internal root)
  pure (logs, { updater with patchSet := patch })

end TreeUpdater

/-! ## The tree -/

/-- A new version that `Storage` prepares. -/
structure Storage where
  manifest : Manifest
  leafCount : ℕ
  updater : TreeUpdater

/-- `Storage::new` with `create_new_version`. -/
def Storage.new (h : HashTree) (db : Database) (version : ℕ) : Storage :=
  let manifest := db.manifest.getD {}
  let root := ((checkedPred version).bind db.root).getD .empty
  { manifest :=
      { versionCount := version + 1, tags := some (manifest.tags.getD (TreeTags.new h.name)) }
    leafCount := root.leafCount
    updater := { patchSet := WorkingPatchSet.new version root } }

theorem firstPart_lt : 0 < 16 := by decide

/-- The part into which the others are merged. -/
def firstPart : Nibble := ⟨0, firstPart_lt⟩

def Storage.extendWithProofs (h : HashTree) (db : Database) (storage : Storage)
    (instructions : List TreeInstruction) : Option (BlockOutputWithProofs × PatchSet) := do
  let (parentNibbles, patch) ←
    storage.updater.patchSet.loadAncestors (instructions.map (·.key)) db
  let (initialRoot, patch) := patch.ensureInternalRootNode
  let updater : TreeUpdater := { storage.updater with patchSet := patch }
  let parts ← allParts fun firstNibble =>
    (updater.split firstNibble).extendPrecomputed h firstNibble
      (InstructionWithPrecomputes.split instructions parentNibbles firstNibble)
  let updater := (List.finRange 16).tail.foldl (fun merged i => merged.merge (parts i).2)
    (parts firstPart).2
  let logs := mergeByIndex fun i => (parts i).1
  let leafCount := storage.leafCount + updater.newLeaves
  let (logs, updater) ← updater.finalizeLogs h initialRoot logs
  let patch ← updater.patchSet.finalizeWithoutHashing storage.manifest leafCount
  pure (⟨logs, leafCount⟩, patch)

namespace Tree

variable (h : HashTree)

def withHasher (db : Database) : Except TagsError Database :=
  match db.manifest.bind (·.tags) with
  | some tags => (tags.ensureConsistency h.name false).map fun _ => db
  | none => .ok db

def rootHash (db : Database) (version : ℕ) : Option ValueHash :=
  (db.root version).map (Root.hash h)

def latestVersion (db : Database) : Option ℕ :=
  db.manifest.bind fun manifest => checkedPred manifest.versionCount

def latestRootHash (db : Database) : ValueHash :=
  ((latestVersion db).bind (rootHash h db)).getD h.emptyTreeHash

def extendWithProofs (db : Database) (instructions : List TreeInstruction) :
    Option (BlockOutputWithProofs × Database) := do
  let nextVersion := (db.manifest.getD {}).versionCount
  let (output, patch) ←
    (Storage.new h db nextVersion).extendWithProofs h db instructions
  pure (output, db.applyPatch patch)

/-! ### Reading -/

structure NoVersionError where
  missingVersion : ℕ
  versionCount : ℕ
deriving DecidableEq

/-- `load_and_transform_entries` up to the transformation of the entries. -/
def loadEntries (db : Database) (version : ℕ) (leafKeys : List Key) :
    Except NoVersionError (Option (List Nibbles × WorkingPatchSet)) :=
  match db.root version with
  | none => .error ⟨version, (db.manifest.getD {}).versionCount⟩
  | some root => .ok ((WorkingPatchSet.new version root).loadAncestors leafKeys db)

def extractEntry (patch : WorkingPatchSet) (leafKey : Key) (longestPrefix : Nibbles) : TreeEntry :=
  match patch.get longestPrefix with
  | some (.leaf leaf) => if leaf.fullKey = leafKey then leaf.toEntry else TreeEntry.empty leafKey
  | _ => TreeEntry.empty leafKey

def entries (db : Database) (version : ℕ) (leafKeys : List Key) :
    Except NoVersionError (Option (List TreeEntry)) :=
  (loadEntries db version leafKeys).map fun loaded =>
    loaded.map fun (prefixes, patch) =>
      (leafKeys.zip prefixes).map fun item => extractEntry patch item.1 item.2

/-- The entries are read one after another, each with the caches the former ones left. -/
def proveEntries : List (Key × Nibbles) → WorkingPatchSet → Option (List TreeEntryWithProof)
  | [], _ => some []
  | (leafKey, longestPrefix) :: items, patch => do
      let (leaf, path, patch) ← patch.createProof h leafKey longestPrefix 0
      let entry : TreeEntry :=
        ⟨leafKey, (leaf.map (·.valueHash)).getD ValueHash.zero,
          (leaf.map (·.leafIndex)).getD 0⟩
      let entries ← proveEntries items patch
      pure (⟨entry, path.hashes⟩ :: entries)

def entriesWithProofs (db : Database) (version : ℕ) (leafKeys : List Key) :
    Except NoVersionError (Option (List TreeEntryWithProof)) :=
  (loadEntries db version leafKeys).map fun loaded =>
    loaded.bind fun (prefixes, patch) => proveEntries h (leafKeys.zip prefixes) patch

end Tree

end RollupX.MerkleTree
