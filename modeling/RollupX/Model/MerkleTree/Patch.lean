import Mathlib.Data.Nat.Size
import RollupX.Model.MerkleTree.Hasher

/-! The changes that make up a new version of the tree
(`executor/lib/merkle_tree/src/storage/patch.rs` and `database.rs`). A panic of the source is
`none`. -/

namespace RollupX.MerkleTree

def checkedPred (n : ℕ) : Option ℕ :=
  if n = 0 then none else some (n - 1)

/-! ## The database -/

/-- The nodes written for one version, by version and path. A stale key is the path of a node
that this version replaces, with the version of the replaced node. -/
structure PatchSet where
  manifest : Manifest
  version : ℕ
  root : Root
  nodes : ℕ → Nibbles → Option Node
  staleKeys : Nibbles → Option ℕ

/-- What the trait `Database` reads. Nodes are addressed by version and path. -/
structure Database where
  manifest : Option Manifest
  root : ℕ → Option Root
  treeNode : ℕ → Nibbles → Bool → Option Node
  staleKeys : ℕ → Nibbles → Option ℕ

namespace Database

/-- A database in a directory that has just been created. -/
def empty : Database where
  manifest := none
  root _ := none
  treeNode _ _ _ := none
  staleKeys _ _ := none

/-- `apply_patch` for a version that the database does not have yet, of which nothing older is
left. A node cannot be read as one of the other kind. -/
def applyPatch (db : Database) (patch : PatchSet) : Database where
  manifest := some patch.manifest
  root := Function.update db.root patch.version (some patch.root.clone)
  treeNode version nibbles isLeaf :=
    match patch.nodes version nibbles with
    | some node => if node.isLeaf = isLeaf then some node.clone else none
    | none => if version = patch.version then none else db.treeNode version nibbles isLeaf
  staleKeys := Function.update db.staleKeys patch.version patch.staleKeys

end Database

/-! ## Working patch sets -/

structure WorkingNode where
  inner : Node
  /-- The version of the node that was loaded from the database. -/
  prevVersion : Option ℕ

/-- The changed nodes by path, the latest first. The source groups them by the length of their
paths. -/
structure WorkingPatchSet where
  rootVersion : ℕ
  entries : List (Nibbles × WorkingNode)

inductive TraverseOutcome where
  | leafMatch (nibbles : Nibbles) (leaf : LeafNode)
  | leafMismatch (nibbles : Nibbles) (leaf : LeafNode)
  | missingChild (nibbles : Nibbles)

def TraverseOutcome.position : TraverseOutcome → Nibbles
  | .leafMatch nibbles _ | .leafMismatch nibbles _ | .missingChild nibbles => nibbles

def findDivergingBit (lhs rhs : Key) : ℕ :=
  256 - (lhs ^^^ rhs).toNat.size

namespace WorkingPatchSet

def new (rootVersion : ℕ) (root : Root) : WorkingPatchSet where
  rootVersion := rootVersion
  entries :=
    match root with
    | .filled _ node => [([], ⟨node, checkedPred rootVersion⟩)]
    | .empty => []

def changes (patch : WorkingPatchSet) (nibbles : Nibbles) : Option WorkingNode :=
  patch.entries.lookup nibbles

def get (patch : WorkingPatchSet) (nibbles : Nibbles) : Option Node :=
  (patch.changes nibbles).map (·.inner)

/-- The previous version of a node that is already there is kept. The same happens to a node
that is changed through `get_mut`. -/
def insert (patch : WorkingPatchSet) (nibbles : Nibbles) (node : Node) : WorkingPatchSet where
  rootVersion := patch.rootVersion
  entries := (nibbles, ⟨node, (patch.changes nibbles).bind (·.prevVersion)⟩) :: patch.entries

def childRef (patch : WorkingPatchSet) (nibbles : Nibbles) (childNibble : Nibble) :
    Option ChildRef :=
  match patch.get nibbles with
  | some (.internal parent) => parent.children childNibble
  | _ => none

/-- A change through `child_ref_mut(..).unwrap()`. -/
def modifyChildRef (patch : WorkingPatchSet) (nibbles : Nibbles) (childNibble : Nibble)
    (f : ChildRef → ChildRef) : Option WorkingPatchSet :=
  match patch.get nibbles with
  | some (.internal parent) =>
    (parent.children childNibble).map fun ref =>
      patch.insert nibbles (.internal (parent.insertChildRef childNibble (f ref)))
  | _ => none

def ensureInternalRootNode (patch : WorkingPatchSet) : InternalNode × WorkingPatchSet :=
  match patch.get [] with
  | some (.internal node) => (node.clone, patch)
  | some (.leaf leaf) =>
    let node := InternalNode.default.insertChildRef (Nibbles.nibble leaf.fullKey 0)
      (ChildRef.leaf patch.rootVersion)
    (node, (patch.insert [] (.internal node)).insert (Nibbles.new leaf.fullKey 1) (.leaf leaf))
  | none => (InternalNode.default, patch.insert [] (.internal InternalNode.default))

/-! ### Parts -/

/-- The part for a first nibble. Every part has a copy of the root. -/
def split (patch : WorkingPatchSet) (firstNibble : Nibble) : WorkingPatchSet where
  rootVersion := patch.rootVersion
  entries := patch.entries.filter fun entry => entry.1.head?.all (· = firstNibble)

def merge (patch other : WorkingPatchSet) : WorkingPatchSet where
  rootVersion := patch.rootVersion
  entries := other.entries.filter (fun entry => entry.1 ≠ []) ++ patch.entries

def takeRoot (patch : WorkingPatchSet) : WorkingPatchSet where
  rootVersion := patch.rootVersion
  entries := patch.entries.filter fun entry => entry.1 ≠ []

/-! ### Finalization -/

/-- The reference of the parent to a node that is not the root. -/
def selfRef (patch : WorkingPatchSet) (nibbles : Nibbles) : Option ChildRef := do
  let (parentNibbles, lastNibble) ← Nibbles.splitLast nibbles
  patch.childRef parentNibbles lastNibble

/-- A node is written with the version in the reference of its parent, when that is later than
the version it was loaded with. -/
def replaced (patch : WorkingPatchSet) (nibbles : Nibbles) : Option (WorkingNode × ℕ) := do
  let node ← patch.changes nibbles
  let ref ← patch.selfRef nibbles
  if node.prevVersion.all (· < ref.version) then pure (node, ref.version) else none

/-- `finalize_without_hashing`. It panics when a changed node has no parent among the changes
that refers to it. -/
def finalizeWithoutHashing (patch : WorkingPatchSet) (manifest : Manifest) (leafCount : ℕ) :
    Option PatchSet :=
  if patch.entries.isEmpty then
    some
      { manifest
        version := patch.rootVersion
        root := .empty
        nodes := fun _ _ => none
        staleKeys := Function.update (fun _ => none) [] (checkedPred patch.rootVersion) }
  else if patch.entries.all fun entry => entry.1 = [] || (patch.selfRef entry.1).isSome then do
    let rootNode ← patch.changes []
    let root ← Root.new leafCount rootNode.inner
    pure
      { manifest
        version := patch.rootVersion
        root
        nodes := fun version nibbles =>
          ((patch.replaced nibbles).filter (·.2 = version)).map (·.1.inner)
        staleKeys := fun nibbles =>
          if nibbles = [] then rootNode.prevVersion
          else (patch.replaced nibbles).bind (·.1.prevVersion) }
  else none

/-! ### Loading -/

/-- The round of `load_ancestors` for one key: its longest prefix in the tree, or the node to
be loaded next. -/
def ancestorRequest (patch : WorkingPatchSet) (nibbleCount : ℕ) (key : Key) :
    Nibbles ⊕ Nibbles × ChildRef :=
  if keyNibbles < nibbleCount then .inl (Nibbles.new key keyNibbles)
  else
    match patch.childRef (Nibbles.new key (nibbleCount - 1))
        (Nibbles.nibble key (nibbleCount - 1)) with
    | none => .inl (Nibbles.new key (nibbleCount - 1))
    | some ref => .inr (Nibbles.new key nibbleCount, ref)

def loadNode (db : Database) (patch : WorkingPatchSet) (request : Nibbles × ChildRef) :
    Option WorkingPatchSet := do
  let node ← db.treeNode request.2.version request.1 request.2.isLeaf
  pure
    { patch with
      entries := (request.1, ⟨node, some request.2.version⟩) :: patch.entries }

/-- The loop of `load_ancestors`. A key is paired with its longest prefix once that is known.
The source asks for a node once where several keys need it. -/
def loadLevels (db : Database) :
    ℕ → ℕ → WorkingPatchSet → List (Key × Option Nibbles) →
      Option (List (Key × Option Nibbles) × WorkingPatchSet)
  | 0, _, _, _ => none
  | fuel + 1, nibbleCount, patch, keys =>
    let requested := keys.filterMap fun entry =>
      if entry.2.isSome then none else (patch.ancestorRequest nibbleCount entry.1).getRight?
    let keys := keys.map fun entry =>
      (entry.1, entry.2.or (patch.ancestorRequest nibbleCount entry.1).getLeft?)
    if requested = [] then some (keys, patch)
    else do
      let patch ← requested.foldlM (loadNode db) patch
      loadLevels db fuel (nibbleCount + 1) patch keys

/-- The longest prefixes of the keys, and the patch with all nodes on their paths. -/
def loadAncestors (patch : WorkingPatchSet) (keys : List Key) (db : Database) :
    Option (List Nibbles × WorkingPatchSet) :=
  match patch.get [] with
  | some (.internal _) => do
      let (prefixes, patch) ←
        loadLevels db (keyNibbles + 1) 1 patch (keys.map fun key => (key, none))
      let prefixes ← prefixes.mapM (·.2)
      pure (prefixes, patch)
  | _ => some (keys.map fun _ => [], patch)

/-! ### Traversal and proofs -/

def traverseFrom (patch : WorkingPatchSet) (key : Key) : ℕ → ℕ → Option TraverseOutcome
  | 0, _ => none
  | fuel + 1, nibbleIdx =>
    let nibbles := Nibbles.new key nibbleIdx
    match patch.get nibbles with
    | some (.internal _) => traverseFrom patch key fuel (nibbleIdx + 1)
    | some (.leaf leaf) =>
      if leaf.fullKey = key then some (.leafMatch nibbles leaf)
      else some (.leafMismatch nibbles leaf)
    | none => some (.missingChild nibbles)

def traverse (patch : WorkingPatchSet) (key : Key) (parentNibbles : Nibbles) :
    Option TraverseOutcome :=
  patch.traverseFrom key (keyNibbles + 1 - parentNibbles.length) parentNibbles.length

variable (h : HashTree)

/-- The loop of `create_proof`, from a path (last nibble first) up to the given level. -/
def extendPathUp (rootNibbleCount : ℕ) :
    List Nibble → WorkingPatchSet → MerklePath → Option (MerklePath × WorkingPatchSet)
  | [], patch, path => some (path, patch)
  | lastNibble :: rest, patch, path =>
    if rest.length < rootNibbleCount then some (path, patch)
    else
      match patch.get rest.reverse with
      | some (.internal parent) =>
        let (path, parent) := parent.extendMerklePath h (rest.length * 4) lastNibble path
        extendPathUp rootNibbleCount rest (patch.insert rest.reverse (.internal parent)) path
      | _ => none

/-- The lower end of a Merkle path: where another leaf stands in the way of the key, its hash
at the level at which the two keys part. -/
def startPath (key : Key) : TraverseOutcome → MerklePath
  | .leafMatch nibbles _ | .missingChild nibbles => MerklePath.new (nibbles.length * 4)
  | .leafMismatch nibbles leaf =>
    let divergingLevel := findDivergingBit key leaf.fullKey + 1
    let path := (MerklePath.new divergingLevel).push h (some (leaf.hash h divergingLevel))
    Nat.iterate (fun path => path.push h none) (divergingLevel - (4 * nibbles.length + 1)) path

def createProof (patch : WorkingPatchSet) (key : Key) (parentNibbles : Nibbles)
    (rootNibbleCount : ℕ) : Option (Option LeafNode × MerklePath × WorkingPatchSet) := do
  let outcome ← patch.traverse key parentNibbles
  let (path, patch) ←
    extendPathUp h rootNibbleCount outcome.position.reverse patch (startPath h key outcome)
  match outcome with
  | .leafMatch _ leaf => pure (some leaf, path, patch)
  | .leafMismatch _ _ | .missingChild _ => pure (none, path, patch)

end WorkingPatchSet

end RollupX.MerkleTree
