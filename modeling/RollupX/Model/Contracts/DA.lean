import RollupX.Model.Contracts.Bridge

/-! The data availability providers (`contracts/contracts/da/CalldataDA.sol`, `BlobDA.sol` and
`OffChainDA.sol`, and `contracts/contracts/test/TestBlobDA.sol`, which the deployment scripts
register for blobs). -/

namespace RollupX.Contracts

/-- Why a provider reverts. -/
inductive DaRevert where
  | noBlobAttached
  | blobHashMismatch
  | invalidCommitment
  | message (text : String)
  | empty
  deriving DecidableEq, Repr

/-! ## Calldata -/

namespace CalldataDA

def computeCommitment (keccak256 : List UInt8 → Bytes32) (batchData : List UInt8)
    (_daMeta : List UInt8) : Except DaRevert Bytes32 :=
  .ok (keccak256 batchData)

def validateDA (_commitment : Bytes32) (_daMeta : List UInt8) : Except DaRevert Unit :=
  .ok ()

def mode : UInt8 := 0

end CalldataDA

/-! ## Blobs -/

namespace BlobDA

/-- `abi.decode(daMeta, (bytes32, uint8))`, which allows more bytes after the two words. -/
def decodeMeta (daMeta : List UInt8) : Except DaRevert (Bytes32 × UInt8) :=
  let blobIndex := Bytes.ofBe ((daMeta.drop 32).take 32)
  if 64 ≤ daMeta.length ∧ blobIndex < 256 then
    .ok (BitVec.ofNat 256 (Bytes.ofBe (daMeta.take 32)), UInt8.ofNat blobIndex)
  else .error .empty

def computeCommitment (_batchData : List UInt8) (daMeta : List UInt8) :
    Except DaRevert Bytes32 := do
  let (expectedVersionedHash, _) ← decodeMeta daMeta
  pure expectedVersionedHash

/-- `getBlobHash` is the virtual `_getBlobHash`. -/
def validateDA (getBlobHash : UInt8 → Bytes32) (commitment : Bytes32) (daMeta : List UInt8) :
    Except DaRevert Unit := do
  let (expectedVersionedHash, blobIndex) ← decodeMeta daMeta
  if expectedVersionedHash = 0 then throw .invalidCommitment
  if commitment ≠ expectedVersionedHash then throw .invalidCommitment
  let actual := getBlobHash blobIndex
  if actual = 0 then throw .noBlobAttached
  if actual ≠ expectedVersionedHash then throw .blobHashMismatch

/-- The opcode `blobhash`, for a transaction with these blobs. -/
def blobhash (blobs : List Bytes32) (index : UInt8) : Bytes32 :=
  blobs.getD index.toNat 0

def mode : UInt8 := 1

end BlobDA

def TestBlobDA.getBlobHash (mockBlobHashes : UInt8 → Bytes32) (blobs : List Bytes32)
    (index : UInt8) : Bytes32 :=
  if mockBlobHashes index ≠ 0 then mockBlobHashes index else BlobDA.blobhash blobs index

/-! ## Off chain -/

namespace OffChainDA

def computeCommitment (_batchData : List UInt8) (daMeta : List UInt8) :
    Except DaRevert Bytes32 :=
  if daMeta.length = 32 then .ok (BitVec.ofNat 256 (Bytes.ofBe daMeta))
  else .error (.message "Invalid DA Meta length for OffChain")

def validateDA (_commitment : Bytes32) (_daMeta : List UInt8) : Except DaRevert Unit :=
  .ok ()

def mode : UInt8 := 2

end OffChainDA

/-! ## The interface -/

/-- `IDAProvider`. -/
inductive DaProvider where
  | calldata
  | blob (getBlobHash : UInt8 → Bytes32)
  | offChain

namespace DaProvider

def computeCommitment (keccak256 : List UInt8 → Bytes32) (batchData daMeta : List UInt8) :
    DaProvider → Except DaRevert Bytes32
  | .calldata => CalldataDA.computeCommitment keccak256 batchData daMeta
  | .blob _ => BlobDA.computeCommitment batchData daMeta
  | .offChain => OffChainDA.computeCommitment batchData daMeta

def validateDA (commitment : Bytes32) (daMeta : List UInt8) : DaProvider → Except DaRevert Unit
  | .calldata => CalldataDA.validateDA commitment daMeta
  | .blob getBlobHash => BlobDA.validateDA getBlobHash commitment daMeta
  | .offChain => OffChainDA.validateDA commitment daMeta

def mode : DaProvider → UInt8
  | .calldata => CalldataDA.mode
  | .blob _ => BlobDA.mode
  | .offChain => OffChainDA.mode

end DaProvider

/-- The contract at an address is this provider. -/
structure External.Hosts (ext : External) (keccak256 : List UInt8 → Bytes32)
    (address : EthAddress) (provider : DaProvider) : Prop where
  computeCommitment : ∀ batchData daMeta, ext.computeCommitment address batchData daMeta =
    (provider.computeCommitment keccak256 batchData daMeta).toOption
  validateDA : ∀ commitment daMeta, ext.validateDA address commitment daMeta =
    (provider.validateDA commitment daMeta).toBool
  mode : ext.mode address = some provider.mode

end RollupX.Contracts
