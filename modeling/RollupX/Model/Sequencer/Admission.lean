import Mathlib.Logic.Function.Iterate
import RollupX.Library.TaskPool
import RollupX.Model.Sequencer.Types

/-! Submission of transactions (`sequencer/src/api/server.rs`,
`sequencer/src/validation/validator.rs`, `sequencer/src/state/cache.rs`).

The JSON-RPC and the REST handler make the same calls in the same order. Each access to the
cache or the pool takes a lock of its own, so a handler is a task with one atomic step per
access. -/

namespace RollupX.Sequencer

open Machine
open Executor (Hash Address)

/-! ## The state cache -/

abbrev StateCache := Address → Option AccountState

namespace StateCache

def getOrInitAccount (cache : StateCache) (address : Address) : AccountState :=
  (cache address).getD ⟨address, 0, 0⟩

/-- The nonce wraps, as `+=` does in the release build. -/
def incrementNonce (cache : StateCache) (address : Address) : StateCache :=
  match cache address with
  | some account =>
    Function.update cache address (some { account with nonce := account.nonce + 1 })
  | none => Function.update cache address (some ⟨address, 0, 1⟩)

def deductBalance (cache : StateCache) (address : Address) (amount : U256) : StateCache :=
  match cache address with
  | some account =>
    Function.update cache address
      (some { account with balance := account.balance.saturatingSub amount })
  | none => cache

end StateCache

/-! ## Validation -/

/-- What admission takes from outside the repository: Keccak-256 and ECDSA recovery. -/
structure Crypto where
  keccak256 : List UInt8 → Hash
  recover : Signature → Hash → Option Address

def verifySignature (crypto : Crypto) (tx : UserTransaction) : Except ValidationError Unit :=
  match crypto.recover tx.signature (crypto.keccak256 tx.hashPreimage) with
  | none => .error .invalidSignature
  | some recovered => if recovered ≠ tx.sender then .error .invalidSignature else .ok ()

def checkNonce (cache : StateCache) (tx : UserTransaction) : Except ValidationError Unit :=
  let expected := (cache.getOrInitAccount tx.sender).nonce
  if tx.nonce ≠ expected then .error (.invalidNonce expected tx.nonce) else .ok ()

/-- `value + gas_price * gas_limit`, or `none` where the arithmetic panics. -/
def totalCost (tx : UserTransaction) : Option U256 :=
  match U256.mul tx.gasPrice (U256.ofU64 tx.gasLimit) with
  | none => none
  | some gasCost => U256.add tx.value gasCost

/-- `none` where the arithmetic panics. -/
def checkBalance (cache : StateCache) (tx : UserTransaction) :
    Option (Except ValidationError Unit) :=
  let account := cache.getOrInitAccount tx.sender
  match totalCost tx with
  | none => none
  | some required =>
    if account.balance < required then
      some (.error (.insufficientBalance required account.balance))
    else some (.ok ())

/-! ## Handlers -/

/-- How far a handler has come. The last three are final. -/
inductive Phase where
  | received
  | nonceChecked
  | balanceChecked
  | deducted
  | incremented
  | accepted
  | rejected (error : ValidationError)
  | panicked
  deriving DecidableEq, Repr

structure Handler where
  tx : UserTransaction
  phase : Phase
  deriving DecidableEq, Repr

structure Shared where
  cache : StateCache
  pool : List UserTransaction

def Handler.receive (tx : UserTransaction) : Handler :=
  ⟨tx, .received⟩

/-- One atomic step of `handle_send_transaction` or `handle_rest_tx`. -/
def Handler.run (crypto : Crypto) (s : Shared) (h : Handler) : Option (Shared × Handler) :=
  match h.phase with
  | .received =>
    match verifySignature crypto h.tx with
    | .error e => some (s, { h with phase := .rejected e })
    | .ok () =>
      match checkNonce s.cache h.tx with
      | .error e => some (s, { h with phase := .rejected e })
      | .ok () => some (s, { h with phase := .nonceChecked })
  | .nonceChecked =>
    match checkBalance s.cache h.tx with
    | none => some (s, { h with phase := .panicked })
    | some (.error e) => some (s, { h with phase := .rejected e })
    | some (.ok ()) => some (s, { h with phase := .balanceChecked })
  | .balanceChecked =>
    match totalCost h.tx with
    | none => some (s, { h with phase := .panicked })
    | some cost =>
      some ({ s with cache := s.cache.deductBalance h.tx.sender cost },
        { h with phase := .deducted })
  | .deducted =>
    some ({ s with cache := s.cache.incrementNonce h.tx.sender },
      { h with phase := .incremented })
  | .incremented => some ({ s with pool := s.pool ++ [h.tx] }, { h with phase := .accepted })
  | .accepted => none
  | .rejected _ => none
  | .panicked => none

/-- `handle_rest_tx` from the first check to the answer, which takes at most five accesses, if
no other handler runs in between. -/
def handleRestTx (crypto : Crypto) (s : Shared) (tx : UserTransaction) : Shared × Handler :=
  (fun p => (Handler.run crypto p.1 p.2).getD p)^[5] (s, Handler.receive tx)

/-- The API server: its shared state, and a handler for each submission so far. -/
abbrev Server := TaskPool Shared Handler

def Server.start (cache : StateCache) : Server :=
  ⟨⟨cache, []⟩, []⟩

def ServerStep (crypto : Crypto) : Server → TaskEvent UserTransaction → Server → Prop :=
  TaskPool.Step Handler.receive (Handler.run crypto)

def Server.accepted (p : Server) : List UserTransaction :=
  (p.tasks.filter fun h => h.phase = .accepted).map Handler.tx

end RollupX.Sequencer
