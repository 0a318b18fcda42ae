import RollupX.Model.Executor.TxEngine

/-! The RocksDB store with its failures (`executor/src/state.rs`), and the engine's loop on it
(`executor/src/tx_engine.rs`).

In `RollupX.Model.Executor.State` the databases do not fail. Here every operation on them may,
and which ones do is an input. A failed operation changes nothing. -/

namespace RollupX.Executor.Faulty

open RocksDbStateManager (accountKey leafIndexKey nextLeafIndexKey readIndex
  persistAccountBlob accountValueHash keyFromAddress)

/-- The error text with which an operation fails, if it does. -/
abbrev Fault := Option String

/-- How a call ends that does not return a result. -/
inductive Failure where
  | error (e : ExecutorError)
  | panicked
  deriving DecidableEq, Repr

/-- An operation without a result: `what` starts the message of its error. -/
def attempt (what : String) : Fault → Except ExecutorError Unit
  | none => .ok ()
  | some e => .error (.state (what ++ e))

/-! ## Accounts and leaf indices -/

structure LeafIndexFaults where
  readLeafIndex : Fault := none
  readNextLeafIndex : Fault := none
  writeLeafIndex : Fault := none
  writeNextLeafIndex : Fault := none
  deriving DecidableEq, Repr

def loadNextLeafIndex (read : Fault) (db : KvStore) : Except ExecutorError UInt64 :=
  match read with
  | some e => .error (.state ("read next leaf index: " ++ e))
  | none => RocksDbStateManager.loadNextLeafIndex db

/-- The record of the address and the counter are two writes. -/
def getOrAssignLeafIndex (faults : LeafIndexFaults) (db : KvStore) (address : Address) :
    Except (ExecutorError × KvStore) (UInt64 × KvStore) :=
  match faults.readLeafIndex with
  | some e => .error (.state ("read leaf index: " ++ e), db)
  | none =>
    match db (leafIndexKey address) with
    | some bytes =>
      if bytes.length ≠ 8 then .error (.state "corrupt leaf index bytes", db)
      else .ok (readIndex bytes, db)
    | none =>
      match loadNextLeafIndex faults.readNextLeafIndex db with
      | .error e => .error (e, db)
      | .ok idx =>
        match attempt "write leaf index: " faults.writeLeafIndex with
        | .error e => .error (e, db)
        | .ok () =>
          let db := db.put (leafIndexKey address) (Bytes.be 8 idx.toNat)
          match attempt "write next leaf index: " faults.writeNextLeafIndex with
          | .error e => .error (e, db)
          | .ok () =>
            .ok (idx, db.put nextLeafIndexKey
              (Bytes.be 8 (Bytes.saturatingAdd idx 1).toNat))

variable {J : Type*} (jmtTree : JmtTree J)

/-- `get_account` gives the default account when the read fails. -/
def getAccount (readFails : Bool) (s : RocksDbStateManager J) (address : Address) : Account :=
  if readFails then default else s.getAccount address

/-- The operations that fail. The tree panics when a read of its database fails
(`expect("Failed reading from RocksDB")`), and writes its update as one batch. It is asked for
its root when the path of the update is empty. -/
structure SetAccountFaults where
  readOld : Bool := false
  leafIndex : LeafIndexFaults := {}
  readTree : Bool := false
  writeTree : Bool := false
  readRoot : Bool := false
  writeAccount : Fault := none
  deriving DecidableEq, Repr

def extendWithProofs (faults : SetAccountFaults) (jmt : J) (write : TreeWrite) :
    Except (Failure × J) (List Hash × J) :=
  if faults.readTree then .error (.panicked, jmt)
  else
    match jmtTree.extendWithProofs jmt write with
    | .error (e, jmt) => .error (.error (.state ("jmt extend_with_proofs: " ++ e)), jmt)
    | .ok (path, extended) =>
      if faults.writeTree then
        .error (.error (.state "jmt extend_with_proofs: Failed writing a batch to RocksDB"), jmt)
      else .ok (path, extended)

def setAccount (faults : SetAccountFaults) (s : RocksDbStateManager J) (address : Address)
    (account : Account) :
    Except (Failure × RocksDbStateManager J) (StateDiff × RocksDbStateManager J) :=
  let old := getAccount faults.readOld s address
  match getOrAssignLeafIndex faults.leafIndex s.accountDb address with
  | .error (e, db) => .error (.error e, ⟨s.jmt, db⟩)
  | .ok (leafIndex, db) =>
    match extendWithProofs jmtTree faults s.jmt
        ⟨keyFromAddress address, leafIndex, accountValueHash account⟩ with
    | .error (failure, jmt) => .error (failure, ⟨jmt, db⟩)
    | .ok (path, jmt) =>
      if path = [] ∧ faults.readRoot = true then .error (.panicked, ⟨jmt, db⟩)
      else
        match attempt "write account blob: " faults.writeAccount with
        | .error e => .error (.error e, ⟨jmt, db⟩)
        | .ok () =>
          .ok
            ({ account := address
               oldBalance := old.balance
               newBalance := account.balance
               oldNonce := old.nonce
               newNonce := account.nonce
               merkleProof := if path = [] then [jmtTree.latestRootHash jmt] else path
               witnessPath := []
               leafEncoding := "jmt_valuehash_v1" },
              ⟨jmt, persistAccountBlob db address account⟩)

/-! ## The handles of the databases -/

/-- The struct of the source. A reset takes both handles out. -/
structure Handles (J : Type*) where
  jmt : Option J
  accountDb : Option KvStore

def Handles.ofOpen (s : RocksDbStateManager J) : Handles J :=
  ⟨some s.jmt, some s.accountDb⟩

/-- The open store behind the handles. Without it, `unwrap` panics. -/
def Handles.opened (h : Handles J) : Option (RocksDbStateManager J) :=
  match h.jmt, h.accountDb with
  | some jmt, some db => some ⟨jmt, db⟩
  | _, _ => none

/-- `None` is a panic. -/
def Handles.getAccount (h : Handles J) (address : Address) : Option Account :=
  match h.accountDb with
  | none => none
  | some db =>
    match db (accountKey address) with
    | some v => some ((Bincode.readAccount v).getD default)
    | none => some default

def Handles.currentRoot (h : Handles J) : Option Hash :=
  h.jmt.map jmtTree.latestRootHash

/-- The handles and the result of `set_account`, unless it panics. -/
def Handles.setAccount (faults : SetAccountFaults) (h : Handles J) (address : Address)
    (account : Account) : Option (Handles J × Except ExecutorError StateDiff) :=
  match h.opened with
  | none => none
  | some s =>
    match Faulty.setAccount jmtTree faults s address account with
    | .error (.error e, s') => some (.ofOpen s', .error e)
    | .error (.panicked, _) => none
    | .ok (diff, s') => some (.ofOpen s', .ok diff)

structure OpenFaults where
  mkdirBase : Fault := none
  mkdirJmt : Fault := none
  mkdirAccounts : Fault := none
  openJmt : Fault := none
  initJmt : Fault := none
  openAccounts : Fault := none
  deriving DecidableEq, Repr

/-- The steps of `RocksDbStateManager::open`, in order. -/
def openSteps (faults : OpenFaults) : Except ExecutorError Unit := do
  attempt "mkdir state base: " faults.mkdirBase
  attempt "mkdir jmt db: " faults.mkdirJmt
  attempt "mkdir account db: " faults.mkdirAccounts
  attempt "open jmt rocksdb: " faults.openJmt
  attempt "init jmt: " faults.initJmt
  attempt "open account rocksdb: " faults.openAccounts

/-- `RocksDbStateManager::open`, for directories that hold `found`. -/
def openAt (faults : OpenFaults) (found : RocksDbStateManager J) :
    Except ExecutorError (RocksDbStateManager J) :=
  match openSteps faults with
  | .error e => .error e
  | .ok () => .ok found

structure ResetFaults where
  baseExists : Bool := true
  deleteDir : Fault := none
  reopen : OpenFaults := {}
  deriving DecidableEq, Repr

/-- `reset_to_genesis`. Both databases are dropped before anything that can fail, and they come
back only at the end. -/
def Handles.resetToGenesis (emptyTree : J) (faults : ResetFaults) (_h : Handles J) :
    Handles J × Except ExecutorError Unit :=
  let h : Handles J := ⟨none, none⟩
  match if faults.baseExists then attempt "reset delete dir: " faults.deleteDir else .ok () with
  | .error e => (h, .error e)
  | .ok () =>
    match openAt faults.reopen ⟨emptyTree, fun _ => none⟩ with
    | .error e => (h, .error e)
    | .ok s => (.ofOpen s, .ok ())

/-! ## The engine -/

/-- The faults that strike one transaction: in the two reads at its start, and in its writes. -/
structure TxFaults where
  readSender : Bool := false
  readReceiver : Bool := false
  setSender : SetAccountFaults := {}
  setReceiver : SetAccountFaults := {}
  deriving DecidableEq, Repr

def executeTx (rt : Runtime) (batchId : String) (l : BatchLoop (RocksDbStateManager J))
    (item : Transaction × TxFaults) :
    Except (Failure × RocksDbStateManager J) (BatchLoop (RocksDbStateManager J)) :=
  executeTxUsing rt batchId (getAccount item.2.readSender l.state item.1.sender)
    (getAccount item.2.readReceiver l.state item.1.receiver)
    (setAccount jmtTree item.2.setSender) (setAccount jmtTree item.2.setReceiver) l item.1

/-- `execute_batch` on a store that fails as given for each transaction. The root at the start
comes from the tree, which panics when it cannot be read. -/
def executeBatch (rt : Runtime) (s : RocksDbStateManager J) (batchId : String) (readRoot : Bool)
    (items : List (Transaction × TxFaults)) :
    RocksDbStateManager J × Except Failure ExecutionTraceV1 :=
  if readRoot then (s, .error .panicked)
  else
    let initialRoot := jmtTree.latestRootHash s.jmt
    match items.foldlM (executeTx jmtTree rt batchId) ⟨s, initialRoot, [], [], []⟩ with
    | .error (failure, s') => (s', .error failure)
    | .ok l => (l.state, .ok (buildTrace rt batchId initialRoot l))

end RollupX.Executor.Faulty
