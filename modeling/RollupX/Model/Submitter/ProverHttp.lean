import RollupX.Library.Locks

/-! The client of the prover service with its circuit breaker
(`submitter/src/infrastructure/prover_http.rs`). A call is code that takes the locks of the
breaker; times are nanoseconds of a monotonic clock. Logs and metrics are left out. -/

namespace RollupX.Submitter

open Locks Locks.Code

/-! ## Requests -/

/-- `DomainError::Prover`, the only kind of error here. -/
structure ProverError where
  message : String
  deriving DecidableEq, Repr

structure ProofResponse where
  proof : String
  proofGenerationMs : Option UInt64
  witnessSize : Option UInt64
  deriving DecidableEq, Repr

/-- What one request to the prover service comes to. -/
inductive ProverReply where
  | sendFailed (error : String)
  | badStatus (status : String)
  | badBody (error : String)
  | answered (body : ProofResponse)
  deriving DecidableEq, Repr

/-- `backoff::Error`. -/
inductive BackoffError where
  | transient (e : ProverError)
  | permanent (e : ProverError)
  deriving DecidableEq, Repr

def operation : ProverReply → Except BackoffError ProofResponse
  | .sendFailed e => .error (.transient ⟨e⟩)
  | .badStatus status => .error (.transient ⟨"Status: " ++ status⟩)
  | .badBody e => .error (.permanent ⟨"Parse error: " ++ e⟩)
  | .answered body => .ok body

/-- `retry`, with the further attempts that the backoff leaves time for. -/
def retry (attempt : ProverReply) (further : List ProverReply) : Except ProverError ProofResponse :=
  match operation attempt, further with
  | .ok body, _ => .ok body
  | .error (.permanent e), _ => .error e
  | .error (.transient e), [] => .error e
  | .error (.transient _), next :: further => retry next further

/-! ## The breaker -/

inductive CircuitState where
  | closed
  | opened
  | halfOpen
  deriving DecidableEq, Repr

/-- What the calls share. Each field has a lock of its own. -/
structure Breaker where
  circuitState : CircuitState
  failureCount : UInt32
  lastFailure : ℕ
  deriving DecidableEq, Repr

inductive BreakerLock where
  | circuitState
  | failureCount
  | lastFailure
  deriving DecidableEq, Repr

/-- The settings of the provider, and whether the build checks for overflow. -/
structure HttpProofProvider where
  failureThreshold : UInt32
  overflowChecks : Bool
  deriving DecidableEq, Repr

def openPeriod : ℕ := 30 * 10 ^ 9

def Breaker.new (now : ℕ) : Breaker :=
  ⟨.closed, 0, now⟩

def checkCircuit (now : ℕ) : Code BreakerLock Breaker (Except ProverError Unit) := do
  acquire .circuitState
  match (← fetch).circuitState with
  | .closed =>
    release .circuitState
    return .ok ()
  | .opened =>
    acquire .lastFailure
    let last := (← fetch).lastFailure
    release .lastFailure
    if openPeriod < now - last then
      update fun b => { b with circuitState := .halfOpen }
      release .circuitState
      return .ok ()
    else
      release .circuitState
      return .error ⟨"Circuit Breaker is OPEN"⟩
  | .halfOpen =>
    release .circuitState
    return .ok ()

def recordSuccess : Code BreakerLock Breaker Unit := do
  acquire .circuitState
  if (← fetch).circuitState ≠ .closed then
    update fun b => { b with circuitState := .closed }
    acquire .failureCount
    update fun b => { b with failureCount := 0 }
    release .failureCount
    release .circuitState
  else
    release .circuitState

/-- `false` is a panic. It unwinds the call, which drops the guard it holds. -/
def recordFailure (p : HttpProofProvider) (now : ℕ) : Code BreakerLock Breaker Bool := do
  acquire .failureCount
  if p.overflowChecks ∧ (← fetch).failureCount = 0xffffffff then
    release .failureCount
    return false
  else
    update fun b => { b with failureCount := b.failureCount + 1 }
    acquire .lastFailure
    update fun b => { b with lastFailure := now }
    release .lastFailure
    if p.failureThreshold ≤ (← fetch).failureCount then
      acquire .circuitState
      update fun b => { b with circuitState := .opened }
      release .circuitState
      release .failureCount
      return true
    else
      release .failureCount
      return true

/-! ## Calls -/

/-- What a call meets: when it checks the circuit, how its requests end and how long they take,
and when it records a failure. -/
structure ProofCall where
  checkedAt : ℕ
  attempt : ProverReply
  further : List ProverReply
  rttMs : UInt64
  failedAt : ℕ
  deriving DecidableEq, Repr

/-- How a call ends: the open circuit refuses it, its requests are completed, or it panics. -/
inductive CallResult where
  | refused (e : ProverError)
  | completed (result : Except ProverError ProofResponse)
  | panicked

def getProof (p : HttpProofProvider) (call : ProofCall) : Code BreakerLock Breaker CallResult := do
  match ← checkCircuit call.checkedAt with
  | .error e => return .refused e
  | .ok () =>
    match retry call.attempt call.further with
    | .ok proof =>
      recordSuccess
      return .completed
        (.ok { proof with
          proofGenerationMs := proof.proofGenerationMs.or (some call.rttMs) })
    | .error e =>
      if ← recordFailure p call.failedAt then
        return .completed (.error e)
      else
        return .panicked

end RollupX.Submitter
