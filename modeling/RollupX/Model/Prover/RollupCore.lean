import RollupX.Model.Executor.Types

/-! The verifier that the guest program runs (`risc0_prover/rollup_core/src/lib.rs` and
`risc0_prover/host/guest/src/main.rs`), and the executor's conversion of a trace for it
(`executor/src/proof.rs`). -/

namespace RollupX.Prover

open Executor (Hash Address)

structure StateDiff where
  account : Address
  oldBalance : UInt64
  newBalance : UInt64
  oldNonce : UInt64
  newNonce : UInt64
  merkleProof : List Hash
  deriving DecidableEq, Repr

structure BlockTrace where
  batchId : String
  initialRoot : Hash
  finalRoot : Hash
  stateDiffs : List StateDiff
  deriving DecidableEq, Repr

inductive VerifyError where
  | invalidOldBalance
  | invalidOldNonce
  | invalidDebit
  | invalidWitness
  deriving DecidableEq, Repr

structure LightweightSMT where
  root : Hash
  deriving DecidableEq, Repr

def foldDiff (sha256 : List UInt8 → Hash) (prevRoot : Hash) (diff : StateDiff) : Hash :=
  sha256 (prevRoot.toList ++ Executor.foldDiffBytes diff.account diff.oldBalance
    diff.newBalance diff.oldNonce diff.newNonce)

/-- `LightweightSMT::apply_diff`. The error `invalidOldBalance` is never raised. -/
def applyDiff (sha256 : List UInt8 → Hash) (smt : LightweightSMT) (diff : StateDiff) :
    Except VerifyError LightweightSMT :=
  if diff.newNonce < diff.oldNonce then .error .invalidOldNonce
  else if diff.newNonce > diff.oldNonce ∧ diff.newBalance > diff.oldBalance then
    .error .invalidDebit
  else
    match diff.merkleProof.head? with
    | some expected =>
      if expected ≠ smt.root then .error .invalidWitness
      else .ok ⟨foldDiff sha256 smt.root diff⟩
    | none => .error .invalidWitness

/-- How the guest program stops without a journal. -/
inductive GuestPanic where
  | invalidStateTransition (error : VerifyError)
  | rootMismatch (computed expected : Hash)
  deriving DecidableEq, Repr

/-- `main` of the guest: the journal it commits. -/
def guestMain (sha256 : List UInt8 → Hash) (trace : BlockTrace) :
    Except GuestPanic (Hash × Hash) :=
  match trace.stateDiffs.foldlM (applyDiff sha256) ⟨trace.initialRoot⟩ with
  | .error e => .error (.invalidStateTransition e)
  | .ok state =>
    if state.root = trace.finalRoot then .ok (trace.initialRoot, trace.finalRoot)
    else .error (.rootMismatch state.root trace.finalRoot)

def toRollupCoreDiff (d : Executor.StateDiff) : StateDiff :=
  ⟨d.account, d.oldBalance, d.newBalance, d.oldNonce, d.newNonce, d.merkleProof⟩

def toRollupCoreTrace (trace : Executor.ExecutionTraceV1) : BlockTrace where
  batchId := trace.batchId
  initialRoot := trace.publicInputs.initialRoot
  finalRoot := trace.publicInputs.finalRoot
  stateDiffs := trace.stateDiffs.map toRollupCoreDiff

end RollupX.Prover
