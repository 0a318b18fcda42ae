import Std.Data.ExtTreeMap
import Mathlib.Data.Fintype.Card
import Mathlib.Logic.Function.Basic
import RollupX.Model.Executor.Types

/-! The account stores of the executor (`executor/src/state.rs` and
`executor/src/merkle.rs`): the `StateManager` trait and its two implementations. -/

namespace RollupX.Executor

/-- The trait `StateManager`. A failed write returns the store as it was left. -/
structure StateManager (S : Type*) where
  getAccount : S → Address → Account
  setAccount : S → Address → Account → Except (ExecutorError × S) (StateDiff × S)
  currentRoot : S → Hash
  resetToGenesis : S → Except (ExecutorError × S) S

/-! ## The in-memory store -/

abbrev AccountMap := Std.ExtTreeMap Address Account

instance : Std.TransOrd Address := Vector.instTransOrd

/-- `Box<dyn MerkleTree>`. -/
structure MerkleTree where
  root : AccountMap → Hash
  proveAccount : AccountMap → Address → List Hash

def leafHash (sha256 : List UInt8 → Hash) (entry : Address × Account) : Hash :=
  sha256 (entry.1.toList ++ Bytes.be 8 entry.2.balance.toNat ++ Bytes.be 8 entry.2.nonce.toNat)

/-- One level of the tree: neighbours are hashed in pairs, a last odd node with itself. -/
def nextLevel (sha256 : List UInt8 → Hash) : List Hash → List Hash
  | [] => []
  | [left] => [sha256 (left.toList ++ left.toList)]
  | left :: right :: rest => sha256 (left.toList ++ right.toList) :: nextLevel sha256 rest

theorem length_nextLevel (sha256 : List UInt8 → Hash) (level : List Hash) :
    (nextLevel sha256 level).length = (level.length + 1) / 2 := by
  induction level using nextLevel.induct with
  | case1 => simp [nextLevel]
  | case2 left => simp [nextLevel]
  | case3 left right rest ih =>
    simp only [nextLevel, List.length_cons, ih]
    omega

/-- The `while` loop of `compute_root`: levels are built until one hash is left. -/
def foldLevels (sha256 : List UInt8 → Hash) (level : List Hash) : List Hash :=
  if 1 < level.length then foldLevels sha256 (nextLevel sha256 level) else level
termination_by level.length
decreasing_by
  rw [length_nextLevel]
  omega

def computeRoot (sha256 : List UInt8 → Hash) (accounts : AccountMap) : Hash :=
  (foldLevels sha256 (accounts.toList.map (leafHash sha256))).headD (Vector.replicate 32 0)

def sha256SparseMerkle (sha256 : List UInt8 → Hash) : MerkleTree where
  root := computeRoot sha256
  proveAccount accounts address :=
    [sha256 ((computeRoot sha256 accounts).toList ++ address.toList)]

structure InMemoryStateManager where
  accounts : AccountMap
  tree : MerkleTree

namespace InMemoryStateManager

def default (sha256 : List UInt8 → Hash) : InMemoryStateManager :=
  ⟨∅, sha256SparseMerkle sha256⟩

def seedAccount (s : InMemoryStateManager) (address : Address) (account : Account) :
    InMemoryStateManager :=
  { s with accounts := s.accounts.insert address account }

def getAccount (s : InMemoryStateManager) (address : Address) : Account :=
  s.accounts[address]?.getD Inhabited.default

def setAccount (s : InMemoryStateManager) (address : Address) (account : Account) :
    StateDiff × InMemoryStateManager :=
  let old := s.getAccount address
  let accounts := s.accounts.insert address account
  ({ account := address
     oldBalance := old.balance
     newBalance := account.balance
     oldNonce := old.nonce
     newNonce := account.nonce
     merkleProof := s.tree.proveAccount accounts address
     witnessPath := []
     leafEncoding := "" },
    { s with accounts := accounts })

def stateManager (sha256 : List UInt8 → Hash) : StateManager InMemoryStateManager where
  getAccount := getAccount
  setAccount s address account := .ok (s.setAccount address account)
  currentRoot s := s.tree.root s.accounts
  resetToGenesis _ := .ok (default sha256)

end InMemoryStateManager

/-! ## The RocksDB store

RocksDB is a map from byte strings to byte strings that does not fail. The Jellyfish
Merkle tree of `zksync_merkle_tree` is a parameter. -/

abbrev KvStore := List UInt8 → Option (List UInt8)

def KvStore.put (db : KvStore) (key value : List UInt8) : KvStore :=
  Function.update db key (some value)

/-- `TreeInstruction::write`. -/
structure TreeWrite where
  key : ℕ
  leafIndex : UInt64
  value : Hash

/-- The tree operations the executor calls. `extendWithProofs` gives the Merkle path of
the single write (empty when the tree returns no log) and the new tree. -/
structure JmtTree (J : Type*) where
  extendWithProofs : J → TreeWrite → Except (String × J) (List Hash × J)
  latestRootHash : J → Hash

structure RocksDbStateManager (J : Type*) where
  jmt : J
  accountDb : KvStore

namespace RocksDbStateManager

def accountKey (address : Address) : List UInt8 :=
  utf8 "acct:" ++ address.toList

def leafIndexKey (address : Address) : List UInt8 :=
  utf8 "leafidx:" ++ address.toList

def nextLeafIndexKey : List UInt8 :=
  utf8 "meta:next_leaf_index"

def readIndex (bytes : List UInt8) : UInt64 :=
  UInt64.ofNat (Bytes.ofBe bytes)

def loadNextLeafIndex (db : KvStore) : Except ExecutorError UInt64 :=
  match db nextLeafIndexKey with
  | some bytes =>
    if bytes.length ≠ 8 then .error (.state "corrupt next leaf index bytes")
    else .ok (readIndex bytes)
  | none => .ok 1

def getOrAssignLeafIndex (db : KvStore) (address : Address) :
    Except ExecutorError (UInt64 × KvStore) :=
  match db (leafIndexKey address) with
  | some bytes =>
    if bytes.length ≠ 8 then .error (.state "corrupt leaf index bytes")
    else .ok (readIndex bytes, db)
  | none => do
      let idx ← loadNextLeafIndex db
      let db := db.put (leafIndexKey address) (Bytes.be 8 idx.toNat)
      let db := db.put nextLeafIndexKey (Bytes.be 8 (Bytes.saturatingAdd idx 1).toNat)
      pure (idx, db)

def persistAccountBlob (db : KvStore) (address : Address) (account : Account) : KvStore :=
  db.put (accountKey address) (Bincode.account account)

def accountValueHash (account : Account) : Hash :=
  ⟨(Bytes.be 8 account.balance.toNat ++ Bytes.be 8 account.nonce.toNat ++
    List.replicate 16 0).toArray, by simp⟩

def keyFromAddress (address : Address) : ℕ :=
  Bytes.ofBe address.toList

variable {J : Type*} (jmtTree : JmtTree J)

def getAccount (s : RocksDbStateManager J) (address : Address) : Account :=
  match s.accountDb (accountKey address) with
  | some v => (Bincode.readAccount v).getD Inhabited.default
  | none => Inhabited.default

def setAccount (s : RocksDbStateManager J) (address : Address) (account : Account) :
    Except (ExecutorError × RocksDbStateManager J) (StateDiff × RocksDbStateManager J) :=
  let old := s.getAccount address
  match getOrAssignLeafIndex s.accountDb address with
  | .error e => .error (e, s)
  | .ok (leafIndex, db) =>
    match jmtTree.extendWithProofs s.jmt
        ⟨keyFromAddress address, leafIndex, accountValueHash account⟩ with
    | .error (e, jmt) => .error (.state ("jmt extend_with_proofs: " ++ e), ⟨jmt, db⟩)
    | .ok (path, jmt) =>
      .ok
        ({ account := address
           oldBalance := old.balance
           newBalance := account.balance
           oldNonce := old.nonce
           newNonce := account.nonce
           merkleProof := if path = [] then [jmtTree.latestRootHash jmt] else path
           witnessPath := []
           leafEncoding := "jmt_valuehash_v1" },
          ⟨jmt, persistAccountBlob db address account⟩)

/-- `emptyTree` is the tree found in a directory that has just been created. -/
def stateManager (emptyTree : J) : StateManager (RocksDbStateManager J) where
  getAccount := getAccount
  setAccount := setAccount jmtTree
  currentRoot s := jmtTree.latestRootHash s.jmt
  resetToGenesis _ := .ok ⟨emptyTree, fun _ => none⟩

end RocksDbStateManager

end RollupX.Executor
