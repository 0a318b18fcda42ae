import Mathlib.Data.List.Chain
import RollupX.Verification.Executor.Engine

/-! How the roots of successive batches relate. Within a batch the root in the trace is a hash chain
over the state diffs. The next batch starts from the root of the store's tree. -/

namespace RollupX.Executor

open Machine

variable {S : Type*} {rt : Runtime} {mgr : StateManager S} {batchId : String}

/-- Each trace starts from the root the trace before it ends with. -/
def RootsChain (traces : List ExecutionTraceV1) : Prop :=
  traces.IsChain fun t t' => t'.publicInputs.initialRoot = t.publicInputs.finalRoot

instance (traces : List ExecutionTraceV1) : Decidable (RootsChain traces) :=
  inferInstanceAs (Decidable (traces.IsChain fun t t' =>
    t'.publicInputs.initialRoot = t.publicInputs.finalRoot))

def Runtime.hashedBy (rt : Runtime) (sha256 : List UInt8 → Hash) : Runtime :=
  { rt with sha256 := sha256 }

/-- The store with its root computed from the account contents by `rootOf`. -/
def StateManager.rootedBy (mgr : StateManager S) (rootOf : (Address → Account) → Hash) :
    StateManager S :=
  { mgr with currentRoot := fun s => rootOf (mgr.getAccount s) }

section Rehash

variable (sha256 : List UInt8 → Hash) (rootOf : (Address → Account) → Hash)

theorem admitted_rehash_iff {l k : BatchLoop S} {tx : Transaction} (hs : k.state = l.state)
    (he : k.executed = l.executed) :
    Admitted (rt.hashedBy sha256) (mgr.rootedBy rootOf) batchId k tx ↔
      Admitted rt mgr batchId l tx := by
  unfold Admitted
  rw [hs, he]
  rfl

theorem TxStep.rehash {l l' k : BatchLoop S} {tx : Transaction}
    (hstep : TxStep rt mgr batchId l tx l') (hs : k.state = l.state)
    (he : k.executed = l.executed) :
    ∃ k', TxStep (rt.hashedBy sha256) (mgr.rootedBy rootOf) batchId k tx k' ∧
      k'.state = l'.state ∧ k'.executed = l'.executed := by
  by_cases hadm : Admitted rt mgr batchId l tx
  · obtain ⟨d₁, s₁, d₂, s₂, h₁, h₂, rfl⟩ := executeTx_of_admitted hadm hstep
    rw [← hs] at h₁ h₂
    have hadm' := (admitted_rehash_iff sha256 rootOf hs he).mpr hadm
    refine ⟨_, txStep_push hadm' h₁ h₂, rfl, ?_⟩
    change k.executed ++ [tx] = l.executed ++ [tx]
    rw [he]
  · have hadm' := mt (admitted_rehash_iff sha256 rootOf hs he).mp hadm
    obtain ⟨why, hk⟩ := executeTx_of_not_admitted hadm'
    obtain ⟨hs', -, he', -⟩ := hstep.frame hadm
    exact ⟨_, hk, hs.trans hs'.symm, he.trans he'.symm⟩

theorem run_rehash {l l' k : BatchLoop S} {txs : List Transaction}
    (hr : Run (TxStep rt mgr batchId) l txs l') (hs : k.state = l.state)
    (he : k.executed = l.executed) :
    ∃ k', Run (TxStep (rt.hashedBy sha256) (mgr.rootedBy rootOf) batchId) k txs k' ∧
      k'.state = l'.state := by
  induction hr generalizing k with
  | nil l => exact ⟨k, .nil k, hs⟩
  | cons hstep _ ih =>
    obtain ⟨k₁, hk₁, hs₁, he₁⟩ := hstep.rehash sha256 rootOf hs he
    obtain ⟨k', hk', hs'⟩ := ih hs₁ he₁
    exact ⟨k', .cons hk₁ hk', hs'⟩

theorem exists_run_rehash {e e' d : Session S} {calls : List (String × List Transaction)}
    (hr : Run (CallStep rt mgr) e calls e') (hs : d.state = e.state) :
    ∃ d', Run (CallStep (rt.hashedBy sha256) (mgr.rootedBy rootOf)) d calls d' := by
  induction hr generalizing d with
  | nil e => exact ⟨d, .nil d⟩
  | cons hcall _ ih =>
    obtain ⟨l, hl, rfl⟩ := callStep_iff.mp hcall
    obtain ⟨k, hk, hks⟩ := run_rehash sha256 rootOf
      (k := BatchLoop.start (mgr.rootedBy rootOf) d.state) hl hs rfl
    obtain ⟨d', hd'⟩ := ih (d := ⟨k.state, d.traces ++ [buildTrace (rt.hashedBy sha256) _
      ((mgr.rootedBy rootOf).currentRoot d.state) k]⟩) hks
    exact ⟨d', .cons (callStep_iff.mpr ⟨k, hk, rfl⟩) hd'⟩

end Rehash

theorem CallStep.frame {e e' : Session S} {call : String × List Transaction}
    (hcall : CallStep rt mgr e call e')
    (h : AllRejected rt (mgr.getAccount e.state) call) :
    e'.state = e.state ∧ ∃ trace, e'.traces = e.traces ++ [trace] ∧
      trace.publicInputs.initialRoot = mgr.currentRoot e.state ∧
      trace.publicInputs.finalRoot = mgr.currentRoot e.state := by
  obtain ⟨l, hr, rfl⟩ := callStep_iff.mp hcall
  obtain ⟨hs, hp⟩ := frame_of_executed_nil hr ((executed_eq_nil_iff hr rfl).mpr h)
  exact ⟨hs, _, rfl, rfl, hp⟩

/-- The chain holds, and can be continued from the store's root. -/
def ChainsTo (mgr : StateManager S) (e : Session S) : Prop :=
  RootsChain e.traces ∧
    ∀ t ∈ e.traces.getLast?, t.publicInputs.finalRoot = mgr.currentRoot e.state

theorem CallStep.rootsChain {e e' : Session S} {call : String × List Transaction}
    (hcall : CallStep rt mgr e call e') (h : ChainsTo mgr e) : RootsChain e'.traces := by
  obtain ⟨l, hr, rfl⟩ := callStep_iff.mp hcall
  refine List.isChain_append.mpr ⟨h.1, List.isChain_singleton _, ?_⟩
  intro t ht t' ht'
  obtain rfl : _ = t' := by simpa using ht'
  exact (h.2 t ht).symm

theorem CallStep.chainsTo {e e' : Session S} {call : String × List Transaction}
    (hcall : CallStep rt mgr e call e') (h : ChainsTo mgr e)
    (hrej : AllRejected rt (mgr.getAccount e.state) call) : ChainsTo mgr e' := by
  refine ⟨hcall.rootsChain h, ?_⟩
  obtain ⟨hs, trace, htraces, -, hfinal⟩ := hcall.frame hrej
  intro t ht
  rw [htraces, List.getLast?_concat] at ht
  rw [← Option.mem_some.mp ht, hs]
  exact hfinal

theorem rootsChain_of_allRejected {e e' : Session S}
    {calls : List (String × List Transaction)} (hr : Run (CallStep rt mgr) e calls e')
    (hchain : ChainsTo mgr e)
    (h : ∀ call ∈ calls.dropLast, AllRejected rt (mgr.getAccount e.state) call) :
    RootsChain e'.traces := by
  induction hr with
  | nil e => exact hchain.1
  | @cons e call d calls e' hcall hrest ih =>
    cases calls with
    | nil =>
      rw [← run_nil_iff.mp hrest]
      exact hcall.rootsChain hchain
    | cons next rest =>
      have hrej := h call (by simp)
      obtain ⟨hs, -⟩ := hcall.frame hrej
      apply ih (hcall.chainsTo hchain hrej)
      rw [hs]
      intro c hc
      apply h c
      simp [List.dropLast_cons_of_ne_nil, hc]

section ConstantHash

variable {c r : Hash}

theorem TxStep.proverRoot_const {l l' : BatchLoop S} {tx : Transaction}
    (hstep : TxStep (rt.hashedBy fun _ => c) mgr batchId l tx l')
    (h : l.executed ≠ [] → l.proverRoot = c) : l'.executed ≠ [] → l'.proverRoot = c := by
  intro hne
  by_cases hadm : Admitted (rt.hashedBy fun _ => c) mgr batchId l tx
  · obtain ⟨d₁, s₁, d₂, s₂, -, -, rfl⟩ := executeTx_of_admitted hadm hstep
    rfl
  · obtain ⟨-, hp, he, -⟩ := hstep.frame hadm
    rw [he] at hne
    rw [hp]
    exact h hne

theorem traces_append {e e' : Session S} {calls : List (String × List Transaction)}
    (hr : Run (CallStep rt mgr) e calls e') : ∃ later, e'.traces = e.traces ++ later := by
  refine hr.invariant_of_step (I := fun d => ∃ later, d.traces = e.traces ++ later) ?_
    ⟨[], (List.append_nil _).symm⟩
  intro d call d' hd hcall
  obtain ⟨later, hlater⟩ := hd
  obtain ⟨l, -, rfl⟩ := callStep_iff.mp hcall
  exact ⟨later ++ [_], by rw [hlater, List.append_assoc]⟩

theorem allRejected_of_link {e e₁ e₂ : Session S} {call next : String × List Transaction}
    (hne : c ≠ r)
    (h₁ : CallStep (rt.hashedBy fun _ => c) (mgr.rootedBy fun _ => r) e call e₁)
    (h₂ : CallStep (rt.hashedBy fun _ => c) (mgr.rootedBy fun _ => r) e₁ next e₂)
    (hchain : RootsChain e₂.traces) : AllRejected rt (mgr.getAccount e.state) call := by
  obtain ⟨l, hl, rfl⟩ := callStep_iff.mp h₁
  obtain ⟨k, -, rfl⟩ := callStep_iff.mp h₂
  have hlink : r = l.proverRoot := by
    obtain ⟨-, -, hlast⟩ := List.isChain_append.mp hchain
    exact hlast _ (by rw [List.getLast?_concat]; rfl) _ rfl
  have hnil : l.executed = [] := by
    by_contra hexec
    have hc := hl.invariant_of_step (I := fun m => m.executed ≠ [] → m.proverRoot = c)
      (fun _ _ _ hm hstep => hstep.proverRoot_const hm) (fun h => absurd rfl h) hexec
    exact hne (hc.symm.trans hlink.symm)
  exact (executed_eq_nil_iff hl rfl).mp hnil

theorem allRejected_of_rootsChain {e e' : Session S}
    {calls : List (String × List Transaction)} (hne : c ≠ r)
    (hr : Run (CallStep (rt.hashedBy fun _ => c) (mgr.rootedBy fun _ => r)) e calls e')
    (hchain : RootsChain e'.traces) :
    ∀ call ∈ calls.dropLast, AllRejected rt (mgr.getAccount e.state) call := by
  induction hr with
  | nil e => simp
  | @cons e call d calls e' hcall hrest ih =>
    cases hrest with
    | nil => simp
    | @cons _ next d₂ rest _ hnext hrest' =>
      have hlink : RootsChain d₂.traces := by
        obtain ⟨later, hlater⟩ := traces_append hrest'
        rw [hlater] at hchain
        exact (List.isChain_append.mp hchain).1
      have hrej := allRejected_of_link hne hcall hnext hlink
      obtain ⟨hs, -⟩ := hcall.frame hrej
      have hlater := ih hchain
      rw [hs] at hlater
      intro c hc
      rw [List.dropLast_cons_of_ne_nil (List.cons_ne_nil _ _)] at hc
      rcases List.mem_cons.mp hc with rfl | hc
      · exact hrej
      · exact hlater c hc

end ConstantHash

/-- Over calls that all return, the roots chain for every hash function and every root of
the account contents exactly when each call but the last has only transactions that the
checks reject against the initial accounts. -/
theorem rootsChain_iff (rt : Runtime) (mgr : StateManager S) (s : S)
    (calls : List (String × List Transaction))
    (hok : ∃ e, Run (CallStep rt mgr) (Session.start s) calls e) :
    (∀ sha256 rootOf e,
        Run (CallStep (rt.hashedBy sha256) (mgr.rootedBy rootOf)) (Session.start s) calls e →
          RootsChain e.traces) ↔
      ∀ call ∈ calls.dropLast, AllRejected rt (mgr.getAccount s) call := by
  constructor
  · intro h
    obtain ⟨e, hr⟩ := hok
    obtain ⟨d, hd⟩ := exists_run_rehash (fun _ => Vector.replicate 32 1)
      (fun _ => Vector.replicate 32 0) (d := Session.start s) hr rfl
    exact allRejected_of_rootsChain (by decide) hd (h _ _ d hd)
  · intro h sha256 rootOf e hr
    exact rootsChain_of_allRejected hr ⟨List.isChain_nil, by simp [Session.start]⟩ h

theorem rootsChain_rejectedFirst :
    (∃ e, Run (CallStep localRuntime (InMemoryStateManager.stateManager Sha256.hash))
        (Session.start aliceStore)
        [("b1", [payment alice bob 10 7]), ("b2", [payment alice bob 10 0])] e) ∧
      ∀ sha256 rootOf e,
        Run (CallStep (localRuntime.hashedBy sha256)
            ((InMemoryStateManager.stateManager Sha256.hash).rootedBy rootOf))
          (Session.start aliceStore)
          [("b1", [payment alice bob 10 7]), ("b2", [payment alice bob 10 0])] e →
        RootsChain e.traces := by
  obtain ⟨e, hr, -⟩ := exists_run_of_map localRuntime
    (InMemoryStateManager.stateManager Sha256.hash) aliceStore
    [("b1", [payment alice bob 10 7]), ("b2", [payment alice bob 10 0])]
    Session.included (b := [payment alice bob 10 0]) (by decide +kernel)
  refine ⟨⟨e, hr⟩, (rootsChain_iff localRuntime (InMemoryStateManager.stateManager Sha256.hash)
    aliceStore _ ⟨e, hr⟩).mpr ?_⟩
  unfold AllRejected
  decide +kernel

/-- After a batch with one payment, the next batch starts from another root. Here the
root is that of the in-memory store's own tree. -/
theorem roots_not_chain :
    ∃ e, Run (CallStep localRuntime (InMemoryStateManager.stateManager Sha256.hash))
        (Session.start aliceStore) [("b1", [payment alice bob 10 0]), ("b2", [])] e ∧
      ¬RootsChain e.traces := by
  obtain ⟨e, hr, he⟩ := exists_run_of_map localRuntime
    (InMemoryStateManager.stateManager Sha256.hash) aliceStore
    [("b1", [payment alice bob 10 0]), ("b2", [])]
    (fun e => decide (RootsChain e.traces)) (b := false) (by decide +kernel)
  exact ⟨e, hr, of_decide_eq_false he⟩

end RollupX.Executor
