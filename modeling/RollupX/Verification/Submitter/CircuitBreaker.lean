import Mathlib.Data.List.Induction
import Mathlib.Data.List.TakeWhile
import RollupX.Model.Submitter.ProverHttp

/-! When the circuit opens. The failures are counted from the time the circuit was last closed,
and a success in between does not set them back. -/

namespace RollupX.Submitter

open Locks Machine

variable {p : HttpProofProvider} {b b' : Breaker} {call : ProofCall} {result : CallResult}

def callProver (p : HttpProofProvider) (b : Breaker) (call : ProofCall) : Breaker × CallResult :=
  (getProof p call).eval b

def CircuitState.passed : CircuitState → CircuitState
  | .closed => .closed
  | .opened => .halfOpen
  | .halfOpen => .halfOpen

theorem eval_checkCircuit (b : Breaker) (now : ℕ) :
    (checkCircuit now).eval b =
      if b.circuitState = .opened ∧ ¬openPeriod < now - b.lastFailure then
        (b, .error ⟨"Circuit Breaker is OPEN"⟩)
      else ({ b with circuitState := b.circuitState.passed }, .ok ()) := by
  obtain ⟨state, count, last⟩ := b
  cases state with
  | closed | halfOpen => simp [checkCircuit, CircuitState.passed]
  | opened =>
    by_cases h : openPeriod < now - last
    · simp [checkCircuit, h, CircuitState.passed]
    · simp [checkCircuit, h]

theorem eval_recordSuccess (b : Breaker) :
    (recordSuccess.eval b).1 =
      if b.circuitState = .closed then b
      else { b with circuitState := .closed, failureCount := 0 } := by
  obtain ⟨state, count, last⟩ := b
  cases state with
  | closed | opened | halfOpen => simp [recordSuccess]

theorem eval_recordFailure (b : Breaker) (now : ℕ) :
    (recordFailure p now).eval b =
      if p.overflowChecks ∧ b.failureCount = 0xffffffff then (b, false)
      else
        ({ circuitState :=
            if p.failureThreshold ≤ b.failureCount + 1 then .opened else b.circuitState
           failureCount := b.failureCount + 1
           lastFailure := now }, true) := by
  by_cases hpanic : p.overflowChecks ∧ b.failureCount = 0xffffffff
  · simp [recordFailure, hpanic]
  · by_cases htrip : p.failureThreshold ≤ b.failureCount + 1
    · simp [recordFailure, hpanic, htrip]
    · simp [recordFailure, hpanic, htrip]

/-- What a call can do. -/
inductive CallEffect (p : HttpProofProvider) (b : Breaker) : Breaker → CallResult → Prop where
  | refused {e : ProverError} (hstate : b.circuitState = .opened) :
      CallEffect p b b (.refused e)
  | succeeded {r : ProofResponse} (hstate : b.circuitState = .closed) :
      CallEffect p b b (.completed (.ok r))
  | recovered {r : ProofResponse} (hstate : b.circuitState ≠ .closed) :
      CallEffect p b { b with circuitState := .closed, failureCount := 0 } (.completed (.ok r))
  | failed {e : ProverError} {now : ℕ} (hbelow : ¬p.failureThreshold ≤ b.failureCount + 1) :
      CallEffect p b ⟨b.circuitState.passed, b.failureCount + 1, now⟩ (.completed (.error e))
  | tripped {e : ProverError} {now : ℕ} (hreached : p.failureThreshold ≤ b.failureCount + 1) :
      CallEffect p b ⟨.opened, b.failureCount + 1, now⟩ (.completed (.error e))
  | panicked (hmax : b.failureCount = 0xffffffff) :
      CallEffect p b { b with circuitState := b.circuitState.passed } .panicked

theorem passed_eq_closed_iff {state : CircuitState} :
    state.passed = .closed ↔ state = .closed := by
  cases state <;> decide

theorem callProver_effect (p : HttpProofProvider) (b : Breaker) (call : ProofCall) :
    CallEffect p b (callProver p b call).1 (callProver p b call).2 := by
  rw [callProver, getProof, Code.eval_bind, eval_checkCircuit]
  by_cases hrefused : b.circuitState = .opened ∧ ¬openPeriod < call.checkedAt - b.lastFailure
  · rw [if_pos hrefused]
    exact .refused hrefused.1
  · rw [if_neg hrefused]
    simp only
    cases retry call.attempt call.further with
    | ok proof =>
      simp only [Code.eval_bind, Code.eval_pure, eval_recordSuccess, passed_eq_closed_iff]
      by_cases hclosed : b.circuitState = .closed
      · obtain ⟨state, count, last⟩ := b
        cases hclosed
        exact .succeeded rfl
      · rw [if_neg hclosed]
        exact .recovered hclosed
    | error e =>
      simp only [Code.eval_bind, eval_recordFailure]
      by_cases hpanic : p.overflowChecks ∧ b.failureCount = 0xffffffff
      · simp only [if_pos hpanic]
        exact .panicked hpanic.2
      · simp only [if_neg hpanic]
        by_cases hreached : p.failureThreshold ≤ b.failureCount + 1
        · simp only [if_pos hreached]
          exact .tripped hreached
        · simp only [if_neg hreached]
          exact .failed hreached

def CallResult.outcome : CallResult → Option Bool
  | .completed (.ok _) => some true
  | .completed (.error _) => some false
  | _ => none

/-- The breaker after some calls, the outcomes of all completed requests, and those since the
circuit was last closed. -/
structure CallHistory where
  breaker : Breaker
  completed : List Bool
  sinceClosed : List Bool
  deriving DecidableEq, Repr

namespace CallHistory

def start (now : ℕ) : CallHistory :=
  ⟨Breaker.new now, [], []⟩

def next (p : HttpProofProvider) (h : CallHistory) (call : ProofCall) : CallHistory :=
  let (b, result) := callProver p h.breaker call
  { breaker := b
    completed := h.completed ++ result.outcome.toList
    sinceClosed :=
      if h.breaker.circuitState ≠ .closed ∧ b.circuitState = .closed then []
      else h.sinceClosed ++ result.outcome.toList }

def after (p : HttpProofProvider) (now : ℕ) (calls : List ProofCall) : CallHistory :=
  calls.foldl (next p) (start now)

theorem after_concat (p : HttpProofProvider) (now : ℕ) (calls : List ProofCall)
    (call : ProofCall) : after p now (calls ++ [call]) = (after p now calls).next p call := by
  rw [after, List.foldl_append]
  rfl

/-- While the circuit is closed, the count is that of the failures since it was, and short of
the threshold. -/
structure Counted (p : HttpProofProvider) (h : CallHistory) : Prop where
  suffix : h.sinceClosed <:+ h.completed
  count : h.breaker.circuitState = .closed →
    h.breaker.failureCount.toNat = h.sinceClosed.count false ∧
      h.breaker.failureCount < p.failureThreshold

theorem threshold_pos (hthreshold : 1 ≤ p.failureThreshold) : 0 < p.failureThreshold :=
  UInt32.lt_iff_toNat_lt.mpr (UInt32.le_iff_toNat_le.mp hthreshold)

theorem counted_start (hthreshold : 1 ≤ p.failureThreshold) (now : ℕ) :
    (start now).Counted p :=
  ⟨List.suffix_rfl, fun _ => ⟨rfl, threshold_pos hthreshold⟩⟩

theorem toNat_succ_of_lt {count threshold : UInt32} (h : count < threshold) :
    (count + 1).toNat = count.toNat + 1 := by
  have hlt := UInt32.lt_iff_toNat_lt.mp h
  have hmax := threshold.toNat_lt
  have hone : (1 : UInt32).toNat = 1 := rfl
  rw [UInt32.toNat_add, hone]
  omega

theorem Counted.next (hthreshold : 1 ≤ p.failureThreshold) {h : CallHistory} (hc : h.Counted p)
    (call : ProofCall) : (h.next p call).Counted p := by
  have heffect := callProver_effect p h.breaker call
  unfold CallHistory.next
  generalize callProver p h.breaker call = ended at heffect ⊢
  obtain ⟨b, result⟩ := ended
  refine ⟨?_, ?_⟩
  · simp only
    split
    · exact List.nil_suffix
    · obtain ⟨before, hbefore⟩ := hc.suffix
      exact ⟨before, by rw [← hbefore, List.append_assoc]⟩
  · intro hclosed
    cases heffect with
    | refused hstate => cases hstate.symm.trans hclosed
    | succeeded hstate => simpa [hstate, CallResult.outcome] using hc.count hstate
    | recovered hstate => simpa [hstate] using threshold_pos hthreshold
    | failed hbelow =>
      have hstate := passed_eq_closed_iff.mp hclosed
      obtain ⟨hcount, hlt⟩ := hc.count hstate
      refine ⟨?_, UInt32.not_le.mp hbelow⟩
      rw [toNat_succ_of_lt hlt, hcount]
      simp [hstate, CallResult.outcome]
    | tripped hreached => cases hclosed
    | panicked hmax =>
      obtain ⟨-, hlt⟩ := hc.count (passed_eq_closed_iff.mp hclosed)
      have hbound := p.failureThreshold.toNat_lt
      rw [UInt32.lt_iff_toNat_lt, hmax] at hlt
      simp at hlt
      omega

theorem counted_after (hthreshold : 1 ≤ p.failureThreshold) (now : ℕ) (calls : List ProofCall) :
    (after p now calls).Counted p := by
  induction calls using List.reverseRecOn with
  | nil => exact counted_start hthreshold now
  | append_singleton calls call ih =>
    rw [after_concat]
    exact ih.next hthreshold call

/-- The call that opens the circuit brings the failures since it was closed to the threshold. -/
theorem Counted.trips {h : CallHistory} (hc : h.Counted p)
    (hclosed : h.breaker.circuitState = .closed)
    (hopened : (h.next p call).breaker.circuitState = .opened) :
    (h.next p call).sinceClosed.count false = p.failureThreshold.toNat := by
  obtain ⟨hcount, hlt⟩ := hc.count hclosed
  have heffect := callProver_effect p h.breaker call
  unfold CallHistory.next at hopened ⊢
  generalize callProver p h.breaker call = ended at heffect hopened ⊢
  obtain ⟨b, result⟩ := ended
  cases heffect with
  | refused hstate => cases hstate.symm.trans hclosed
  | succeeded hstate => cases hstate.symm.trans hopened
  | recovered hstate => exact absurd hclosed hstate
  | failed hbelow | panicked hmax =>
    simp only [hclosed] at hopened
    cases hopened
  | tripped hreached =>
    rw [UInt32.le_iff_toNat_le, toNat_succ_of_lt hlt, hcount] at hreached
    rw [UInt32.lt_iff_toNat_lt, hcount] at hlt
    have hnow : (h.sinceClosed ++ [false]).count false = h.sinceClosed.count false + 1 := by
      rw [List.count_append, List.count_singleton_self]
    simp only [hclosed, CallResult.outcome, ne_eq, not_true, false_and, if_false,
      Option.toList_some, hnow]
    omega

end CallHistory

theorem replicate_suffix_iff {outcomes completed : List Bool} (hsuffix : outcomes <:+ completed)
    {n : ℕ} (hcount : outcomes.count false = n) :
    List.replicate n false <:+ completed ↔
      ∀ outcome ∈ outcomes.dropWhile id, outcome = false := by
  constructor
  · intro hlast
    have hlength : (List.replicate n false).length ≤ outcomes.length := by
      rw [List.length_replicate, ← hcount]
      exact List.count_le_length
    obtain ⟨before, rfl⟩ := List.suffix_of_suffix_length_le hlast hsuffix hlength
    have hbefore : ∀ outcome ∈ before, id outcome = true := by
      have hzero : before.count false = 0 := by simpa using hcount
      intro outcome houtcome
      cases outcome with
      | true => rfl
      | false => exact absurd houtcome (List.count_eq_zero.mp hzero)
    intro outcome houtcome
    rw [List.dropWhile_append_of_pos hbefore] at houtcome
    exact List.eq_of_mem_replicate ((List.dropWhile_suffix id).subset houtcome)
  · intro hfailed
    have hreplicate := List.eq_replicate_of_mem hfailed
    have htake : (outcomes.takeWhile id).count false = 0 :=
      List.count_eq_zero.mpr fun hmem => by simpa using List.mem_takeWhile_imp hmem
    have hn : (outcomes.dropWhile id).length = n := by
      rw [← List.takeWhile_append_dropWhile (p := id) (l := outcomes), List.count_append, htake,
        Nat.zero_add, hreplicate, List.count_replicate_self] at hcount
      exact hcount
    rw [hn] at hreplicate
    rw [← hreplicate]
    exact (List.dropWhile_suffix id).trans hsuffix

/-- Whenever a call takes the circuit from closed to open, the last requests up to the threshold
have failed if and only if, since the circuit was last closed, none has succeeded after the first
failure. -/
theorem opens_consecutive_iff (p : HttpProofProvider) (hthreshold : 1 ≤ p.failureThreshold)
    (now : ℕ) (calls : List ProofCall) (call : ProofCall)
    (hclosed : (CallHistory.after p now calls).breaker.circuitState = .closed)
    (hopened : (CallHistory.after p now (calls ++ [call])).breaker.circuitState = .opened) :
    List.replicate p.failureThreshold.toNat false <:+
        (CallHistory.after p now (calls ++ [call])).completed ↔
      ∀ outcome ∈ (CallHistory.after p now (calls ++ [call])).sinceClosed.dropWhile id,
        outcome = false := by
  have hcounted := CallHistory.counted_after hthreshold now
  refine replicate_suffix_iff (hcounted (calls ++ [call])).suffix ?_
  rw [CallHistory.after_concat] at hopened ⊢
  exact (hcounted calls).trips hclosed hopened

def callAt (now : ℕ) (succeeds : Bool) : ProofCall where
  checkedAt := now
  attempt := if succeeds then .answered ⟨"0x01", none, none⟩
    else .badStatus "500 Internal Server Error"
  further := []
  rttMs := 5
  failedAt := now

theorem opens_consecutive_afterSuccess :
    List.replicate 2 false <:+
      (CallHistory.after ⟨2, false⟩ 0 [callAt 1 true, callAt 2 false, callAt 3 false]).completed :=
  (opens_consecutive_iff ⟨2, false⟩ (by decide) 0 [callAt 1 true, callAt 2 false]
    (callAt 3 false) (by decide) (by decide)).mpr (by decide)

/-- With a threshold of two, a failure before and a failure after a success open the circuit. -/
theorem opens_notConsecutive :
    (CallHistory.after ⟨2, false⟩ 0 [callAt 1 false, callAt 2 true]).breaker.circuitState =
        .closed ∧
      (CallHistory.after ⟨2, false⟩ 0
        [callAt 1 false, callAt 2 true, callAt 3 false]).breaker.circuitState = .opened ∧
      (CallHistory.after ⟨2, false⟩ 0
        [callAt 1 false, callAt 2 true, callAt 3 false]).completed = [false, true, false] ∧
      ¬List.replicate 2 false <:+ [false, true, false] := by
  decide

end RollupX.Submitter
