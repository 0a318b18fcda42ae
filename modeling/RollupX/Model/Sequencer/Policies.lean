import Mathlib.Data.List.Sort
import RollupX.Model.Sequencer.Orchestrator

/-! The scheduling policies (`sequencer/src/scheduler/policies.rs`).

Three of them group the transactions by sender in a `HashMap` and take the best head again
and again. The order in which the map is iterated decides between equal heads. It is that of
the hashes of the keys, and each map has hash keys of its own, so the hash is a parameter. -/

namespace RollupX.Sequencer

open Executor (Address)

/-! ## Groups -/

/-- The map `grouped` as it is iterated. -/
abbrev Grouped := List (Address × List PooledTransaction)

def groupBySender (hash : Address → ℕ) (transactions : List PooledTransaction) : Grouped :=
  let senders := (transactions.map (·.tx.sender)).dedup
  (senders.insertionSort (fun a b => hash a ≤ hash b)).map fun sender =>
    (sender, (transactions.filter (·.tx.sender = sender)).insertionSort
      (fun a b => a.tx.nonce ≤ b.tx.nonce))

/-- A comparison of the next transaction with the best so far. One that panics is `none`. -/
abbrev Better := PooledTransaction → PooledTransaction → Option Bool

/-- The loop that looks for `best_sender`. -/
def bestSender (better : Better) (grouped : Grouped) :
    Option (Option (Address × PooledTransaction)) :=
  grouped.foldlM (fun best (sender, queue) =>
    match queue, best with
    | [], _ => some best
    | next :: _, none => some (some (sender, next))
    | next :: _, some (_, bestTx) =>
      (better next bestTx).map fun nextIsBetter =>
        if nextIsBetter then some (sender, next) else best) none

/-- The first transaction of the sender is removed, and the sender with the last one. -/
def removeFirst (sender : Address) (grouped : Grouped) : Grouped :=
  grouped.filterMap fun (s, queue) =>
    if s = sender then
      match queue.tail with
      | [] => none
      | rest => some (s, rest)
    else some (s, queue)

/-- The loop `while !grouped.is_empty()`. Each round removes one transaction. -/
def orderGrouped (better : Better) : ℕ → Grouped → Option (List PooledTransaction)
  | 0, _ => some []
  | fuel + 1, grouped =>
    match bestSender better grouped with
    | none => none
    | some none => some []
    | some (some (sender, tx)) =>
      (orderGrouped better fuel (removeFirst sender grouped)).map (tx :: ·)

def orderBySender (hash : List PooledTransaction → Address → ℕ) (better : Better)
    (transactions : List PooledTransaction) : Option (List PooledTransaction) :=
  orderGrouped better transactions.length (groupBySender (hash transactions) transactions)

/-! ## Policies -/

def FcfsPolicy.orderTransactions (transactions : List PooledTransaction) :
    Option (List PooledTransaction) :=
  some transactions

def FeePriorityPolicy.better : Better := fun next best =>
  match compare next.tx.gasPrice.toNat best.tx.gasPrice.toNat with
  | .gt => some true
  | .eq => some (next.tx.timestamp < best.tx.timestamp)
  | .lt => some false

/-- The division by the window panics when the window is zero. -/
def TimeBoostPolicy.better (timeWindowMs : UInt64) : Better := fun next best =>
  if timeWindowMs = 0 then none
  else
    let windowNext := next.tx.timestamp / timeWindowMs
    let windowBest := best.tx.timestamp / timeWindowMs
    match compare windowNext windowBest with
    | .lt => some true
    | .gt => some false
    | .eq =>
      let boostNext := next.tx.boostBid.getD 0
      let boostBest := best.tx.boostBid.getD 0
      match compare boostNext.toNat boostBest.toNat with
      | .gt => some true
      | .lt => some false
      | .eq => FeePriorityPolicy.better next best

/-- By timestamp. The sort is stable. -/
def FairBftPolicy.orderTransactions (transactions : List PooledTransaction) :
    Option (List PooledTransaction) :=
  some (transactions.insertionSort fun a b => a.tx.timestamp ≤ b.tx.timestamp)

def BlobPackingPolicy.better : Better := fun next best =>
  match compare next.estimatedEncodedBytes best.estimatedEncodedBytes with
  | .gt => some true
  | .lt => some false
  | .eq => FeePriorityPolicy.better next best

inductive SchedulingPolicyType where
  | fcfs
  | feePriority
  | timeBoost (timeWindowMs : UInt64)
  | fairBft
  | blobPacking
  deriving DecidableEq, Repr

def createPolicy (hash : List PooledTransaction → Address → ℕ) :
    SchedulingPolicyType → SchedulingPolicy
  | .fcfs => ⟨"FCFS", FcfsPolicy.orderTransactions⟩
  | .feePriority => ⟨"FeePriority", orderBySender hash FeePriorityPolicy.better⟩
  | .timeBoost timeWindowMs =>
    ⟨"TimeBoost", orderBySender hash (TimeBoostPolicy.better timeWindowMs)⟩
  | .fairBft => ⟨"FairBFT", FairBftPolicy.orderTransactions⟩
  | .blobPacking => ⟨"BlobPacking", orderBySender hash BlobPackingPolicy.better⟩

/-- The section `[scheduling]` of the configuration file (`sequencer/src/config.rs`). -/
structure SchedulingConfig where
  policyType : String
  timeWindowMs : UInt64 := 5000
  deriving DecidableEq, Repr

/-- A name that is none of the five panics. The window is passed on as it is. -/
def SchedulingConfig.toPolicyType (config : SchedulingConfig) : Option SchedulingPolicyType :=
  match config.policyType with
  | "FCFS" => some .fcfs
  | "FeePriority" => some .feePriority
  | "TimeBoost" => some (.timeBoost config.timeWindowMs)
  | "FairBFT" => some .fairBft
  | "BlobPacking" => some .blobPacking
  | _ => none

end RollupX.Sequencer
