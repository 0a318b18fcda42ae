import RollupX.Model.Executor.State
import RollupX.Model.MerkleTree.Storage

/-! The RocksDB store of the executor over the Merkle tree it uses (`executor/src/state.rs`). -/

namespace RollupX.Executor.RocksDbStateManager

open RollupX.MerkleTree (Database HashTree)

/-- `JmtTree<RocksDBWrapper>`. A panic of the tree ends the process; it is an error here. -/
def zksyncTree (h : HashTree) : JmtTree Database where
  extendWithProofs db write :=
    match RollupX.MerkleTree.Tree.extendWithProofs h db
        [.write ⟨BitVec.ofNat 256 write.key, write.value, write.leafIndex⟩] with
    | some (output, db) => .ok ((output.logs.head?.map (·.merklePath)).getD [], db)
    | none => .error ("panic", db)
  latestRootHash := RollupX.MerkleTree.Tree.latestRootHash h

/-- The store in the directory that `open` has just created is `fresh`. -/
def rocksDb (h : HashTree) : StateManager (RocksDbStateManager Database) :=
  stateManager (zksyncTree h) Database.empty

def fresh : RocksDbStateManager Database :=
  ⟨Database.empty, fun _ => none⟩

end RollupX.Executor.RocksDbStateManager
