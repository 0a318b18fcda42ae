import RollupX.Library.Reservation
import RollupX.Verification.Executor.Conservation
import RollupX.Verification.Sequencer.Admission
import RollupX.Verification.Sequencer.Signing

/-! Pessimistic tracking of balances: the cache of the sequencer against the executor's store. -/

namespace RollupX.Sequencer

open Machine Fallible Reservation
open Executor (Address StateManager Runtime BatchLoop Session TxStep CallStep Admitted
  normalizeTransaction normalizeTransactions maxIncluded executeCall callStep_iff
  rejection_eq_none_iff InMemoryStateManager memory)

/-- What `handle_rest_tx` can do. -/
inductive RestEffect (crypto : Crypto) (s : Shared) (tx : UserTransaction) :
    Shared × Handler → Prop where
  | refuses {phase : Phase} (hphase : phase ≠ .accepted) :
      RestEffect crypto s tx (s, ⟨tx, phase⟩)
  | accepts {cost : U256} (hsig : verifySignature crypto tx = .ok ())
      (hnonce : tx.nonce.toNat = s.cache.nonceOf tx.sender) (hcost : totalCost tx = some cost)
      (hbalance : cost.toNat ≤ s.cache.balanceOf tx.sender) :
      RestEffect crypto s tx
        (⟨(s.cache.deductBalance tx.sender cost).incrementNonce tx.sender, s.pool ++ [tx]⟩,
          ⟨tx, .accepted⟩)

theorem nonce_eq_of_checkNonce {cache : StateCache} {tx : UserTransaction}
    (h : checkNonce cache tx = .ok ()) : tx.nonce.toNat = cache.nonceOf tx.sender := by
  unfold checkNonce at h
  by_cases hne : tx.nonce = (cache.getOrInitAccount tx.sender).nonce
  · rw [hne, StateCache.nonceOf]
  · simp [hne] at h

theorem cost_le_of_checkBalance {cache : StateCache} {tx : UserTransaction} {cost : U256}
    (hcost : totalCost tx = some cost) (h : checkBalance cache tx = some (.ok ())) :
    cost.toNat ≤ cache.balanceOf tx.sender := by
  unfold checkBalance at h
  by_cases hlt : (cache.getOrInitAccount tx.sender).balance < cost
  · simp [hcost, hlt] at h
  · exact BitVec.not_lt.mp hlt

theorem totalCost_ne_none_of_checkBalance {cache : StateCache} {tx : UserTransaction}
    {result : Except ValidationError Unit} (h : checkBalance cache tx = some result) :
    ∃ cost, totalCost tx = some cost := by
  unfold checkBalance at h
  cases hcost : totalCost tx with
  | none => simp [hcost] at h
  | some cost => exact ⟨cost, rfl⟩

theorem RestEffect.of_refused {crypto : Crypto} {s : Shared} {tx : UserTransaction} {p : Phase}
    (h : handleRestTx crypto s tx = (s, ⟨tx, p⟩)) (hp : p ≠ .accepted) :
    RestEffect crypto s tx (handleRestTx crypto s tx) := by
  rw [h]
  exact .refuses hp

theorem handleRestTx_effect (crypto : Crypto) (s : Shared) (tx : UserTransaction) :
    RestEffect crypto s tx (handleRestTx crypto s tx) := by
  cases hsig : verifySignature crypto tx with
  | error e =>
    exact RestEffect.of_refused (p := .rejected e)
      (by simp [handleRestTx, Handler.run, Handler.receive, hsig]) (by simp)
  | ok _ =>
    cases hnonce : checkNonce s.cache tx with
    | error e =>
      exact RestEffect.of_refused (p := .rejected e)
        (by simp [handleRestTx, Handler.run, Handler.receive, hsig, hnonce]) (by simp)
    | ok _ =>
      cases hbalance : checkBalance s.cache tx with
      | none =>
        exact RestEffect.of_refused (p := .panicked)
          (by simp [handleRestTx, Handler.run, Handler.receive, hsig, hnonce, hbalance])
          (by simp)
      | some result =>
        cases result with
        | error e =>
          exact RestEffect.of_refused (p := .rejected e)
            (by simp [handleRestTx, Handler.run, Handler.receive, hsig, hnonce,
              hbalance]) (by simp)
        | ok _ =>
          obtain ⟨cost, hcost⟩ := totalCost_ne_none_of_checkBalance hbalance
          have he := RestEffect.accepts hsig (nonce_eq_of_checkNonce hnonce) hcost
            (cost_le_of_checkBalance hcost hbalance)
          simpa [handleRestTx, Handler.run, Handler.receive, hsig, hnonce, hbalance,
            hcost] using he

variable {S : Type*} {crypto : Crypto} {rt : Runtime} {mgr : StateManager S}

/-- The transaction as it is put into a batch. The times of the pool are not sent. -/
def UserTransaction.pooled (tx : UserTransaction) : Transaction :=
  .normal ⟨tx, 0, 0, 0⟩

/-- A sequencer that answers one submission at a time, and the executor behind it. The pool
holds what was accepted and is still to be executed, in the order of acceptance. -/
structure Pipeline (S : Type*) where
  server : Shared
  executor : Session S
  accepted : List UserTransaction
  handed : List UserTransaction

def Pipeline.start (cache : StateCache) (s : S) : Pipeline S :=
  ⟨⟨cache, []⟩, Session.start s, [], []⟩

/-- A submission, or a batch with a decimal id of the `n` oldest transactions in the pool. -/
inductive PipelineEvent where
  | submit (tx : UserTransaction)
  | execute (batchId : ℕ) (n : UInt64)

/-- `none` where the executor refuses the batch or a write of its store fails. -/
def Pipeline.step (crypto : Crypto) (rt : Runtime) (mgr : StateManager S) (p : Pipeline S) :
    PipelineEvent → Option (Pipeline S)
  | .submit tx =>
    let (server, handler) := handleRestTx crypto p.server tx
    let accepted := if handler.phase = .accepted then p.accepted ++ [tx] else p.accepted
    some { p with server, accepted }
  | .execute batchId n =>
    let batch := p.server.pool.take n.toNat
    match normalizeTransactions (batch.map fun tx => tx.pooled.toSequencer) with
    | .error _ => none
    | .ok txs =>
      match executeCall rt mgr p.executor (toString batchId, txs) with
      | .error _ => none
      | .ok executor =>
        some { p with
          server := { p.server with pool := p.server.pool.drop n.toNat }
          executor
          handed := p.handed ++ batch }

def PipelineStep (crypto : Crypto) (rt : Runtime) (mgr : StateManager S) (p : Pipeline S)
    (event : PipelineEvent) (p' : Pipeline S) : Prop :=
  p.step crypto rt mgr event = some p'

def Normalizes (tx : UserTransaction) (out : Executor.Transaction) : Prop :=
  normalizeTransaction tx.pooled.toSequencer = .ok out

theorem Normalizes.converts {tx : UserTransaction} {out : Executor.Transaction}
    (h : Normalizes tx out) : Converts ⟨tx, 0, 0, 0⟩ out :=
  converts_of_normalizeTransaction h

theorem normalizeTransactions_ok_iff (batch : List UserTransaction)
    (txs : List Executor.Transaction) :
    normalizeTransactions (batch.map fun tx => tx.pooled.toSequencer) = .ok txs ↔
      List.Forall₂ Normalizes batch txs := by
  rw [normalizeTransactions, mapM_ok_iff, List.forall₂_map_left_iff]
  rfl

theorem pipelineStep_execute_iff {p p' : Pipeline S} {batchId : ℕ} {n : UInt64} :
    PipelineStep crypto rt mgr p (.execute batchId n) p' ↔
      ∃ txs executor, List.Forall₂ Normalizes (p.server.pool.take n.toNat) txs ∧
        CallStep rt mgr p.executor (toString batchId, txs) executor ∧
        p' = { p with
          server := { p.server with pool := p.server.pool.drop n.toNat }
          executor
          handed := p.handed ++ p.server.pool.take n.toNat } := by
  simp only [PipelineStep, Pipeline.step, ← normalizeTransactions_ok_iff, CallStep]
  generalize toString batchId = id
  cases normalizeTransactions ((p.server.pool.take n.toNat).map
      fun tx => tx.pooled.toSequencer) with
  | error e => simp
  | ok txs =>
    cases hcall : executeCall rt mgr p.executor (id, txs) with
    | error e => simp [hcall]
    | ok executor => simp [hcall, eq_comm]

theorem maxIncluded_toString (n : ℕ) : maxIncluded (toString n) = 18446744073709551615 := by
  have hletter : ∀ cs, ¬ 'l' :: cs <+: Nat.toDigits 10 n := by
    intro cs hprefix
    have hmem := hprefix.subset List.mem_cons_self
    exact absurd (Nat.isDigit_of_mem_toDigits (by decide) (by decide) hmem) (by decide)
  simp [maxIncluded, hletter]

def UserTransaction.reservation (tx : UserTransaction) : Reservation Address :=
  ⟨tx.sender, tx.value.toNat, tx.nonce.toNat⟩

/-- Sender and receiver differ, the amounts fit in 64 bits, and the nonce is not the last. -/
def UserTransaction.Trackable (tx : UserTransaction) : Prop :=
  tx.sender ≠ tx.receiver ∧ tx.pooled.FitsU64 ∧ tx.nonce.toNat < 2 ^ 64 - 1

/-- The store covers what is left in the cache and the given transactions. -/
def CoveredBy (mgr : StateManager S) (cache : StateCache) (s : S)
    (pending : List UserTransaction) : Prop :=
  Covered cache.balanceOf cache.nonceOf (mgr.ledger s).balance (mgr.ledger s).nonce
    (pending.map UserTransaction.reservation)

theorem CoveredBy.accept {cache : StateCache} {s : S} {pending : List UserTransaction}
    {tx : UserTransaction} {cost : U256} (h : CoveredBy mgr cache s pending)
    (hnonce : tx.nonce.toNat = cache.nonceOf tx.sender) (hcost : totalCost tx = some cost)
    (hbalance : cost.toNat ≤ cache.balanceOf tx.sender) (hmax : tx.nonce.toNat < 2 ^ 64 - 1) :
    CoveredBy mgr ((cache.deductBalance tx.sender cost).incrementNonce tx.sender) s
      (pending ++ [tx]) := by
  have hvalue : tx.value.toNat ≤ cost.toNat := by
    rw [toNat_totalCost hcost]
    exact Nat.le_add_right _ _
  have hnext : (cache.deductBalance tx.sender cost).nonceOf tx.sender < 2 ^ 64 - 1 := by
    rw [StateCache.nonceOf_deductBalance, ← hnonce]
    exact hmax
  rw [CoveredBy, StateCache.balanceOf_incrementNonce, StateCache.balanceOf_deductBalance,
    StateCache.nonceOf_incrementNonce hnext, StateCache.nonceOf_deductBalance, List.map_append]
  exact Covered.reserve h (r := tx.reservation) hnonce hvalue hbalance

theorem CoveredBy.admitted {cache : StateCache} {l : BatchLoop S} {batchId : String}
    {pending : List UserTransaction} {tx : UserTransaction} {out : Executor.Transaction}
    (h : CoveredBy mgr cache l.state (tx :: pending)) (hout : Normalizes tx out)
    (hsig : Executor.verifySignature rt out = true)
    (hroom : l.executed.length < maxIncluded batchId) : Admitted rt mgr batchId l out := by
  obtain ⟨hnumber, hamount⟩ := Covered.head h
  have hconv := hout.converts
  refine ⟨(rejection_eq_none_iff _ _).mpr ⟨hsig, ?_, ?_⟩, hroom⟩
  · rw [← UInt64.toNat_inj, hconv.nonce, hconv.sender]
    exact hnumber.symm
  · rw [UInt64.le_iff_toNat_le, hconv.amount, hconv.sender]
    exact hamount

theorem CoveredBy.execute {cache : StateCache} {l l' : BatchLoop S} {batchId : String}
    {pending : List UserTransaction} {tx : UserTransaction} {out : Executor.Transaction}
    (hm : mgr.Lawful) (h : CoveredBy mgr cache l.state (tx :: pending))
    (hout : Normalizes tx out) (htx : tx.Trackable) (hstep : TxStep rt mgr batchId l out l')
    (hadm : Admitted rt mgr batchId l out) : CoveredBy mgr cache l'.state pending := by
  obtain ⟨hne, -, hmax⟩ := htx
  have hconv := hout.converts
  have hne' : out.sender ≠ out.receiver := by
    rw [hconv.sender, hconv.receiver]
    exact hne
  have hroom : (mgr.getAccount l.state out.sender).nonce.toNat < 2 ^ 64 - 1 := by
    rw [hadm.nonce_eq, hconv.nonce]
    exact hmax
  have hnonce : (mgr.ledger l'.state).nonce = Function.update (mgr.ledger l.state).nonce
      tx.reservation.owner ((mgr.ledger l.state).nonce tx.reservation.owner + 1) := by
    rw [hstep.nonce_eq_transfer hm hadm hne' hroom, Ledger.transfer, hconv.sender]
    rfl
  rw [CoveredBy, hnonce]
  refine Covered.settle h ?_ fun b hb => ?_
  · have hdebit := hstep.balance_sender hm hadm hne'
    rw [hconv.sender, hconv.amount] at hdebit
    exact hdebit.ge
  · refine hstep.balance_le_of_ne hm hadm ?_
    rw [hconv.sender]
    exact hb

/-- Both sides come to the same answer about the signature of a transaction. -/
def SharedSignatures (crypto : Crypto) (rt : Runtime) : Prop :=
  ∀ tx out, Normalizes tx out →
    (verifySignature crypto tx = .ok () ↔ Executor.verifySignature rt out = true)

/-- A batch of covered transactions is included as a whole. -/
theorem CoveredBy.run {cache : StateCache} {l l' : BatchLoop S} {batchId : String}
    {batch rest : List UserTransaction} {txs : List Executor.Transaction} (hm : mgr.Lawful)
    (hshared : SharedSignatures crypto rt) (hr : Run (TxStep rt mgr batchId) l txs l')
    (htxs : List.Forall₂ Normalizes batch txs)
    (hbatch : ∀ tx ∈ batch, verifySignature crypto tx = .ok () ∧ tx.Trackable)
    (hroom : l.executed.length + txs.length ≤ maxIncluded batchId)
    (h : CoveredBy mgr cache l.state (batch ++ rest)) :
    l'.executed = l.executed ++ txs ∧ CoveredBy mgr cache l'.state rest := by
  induction hr generalizing batch with
  | nil l =>
    cases htxs
    exact ⟨(List.append_nil _).symm, h⟩
  | @cons l out k txs l' hstep _ ih =>
    cases htxs with
    | @cons tx _ batch _ hout htxs =>
      obtain ⟨⟨hsig, htrack⟩, hbatch⟩ := List.forall_mem_cons.mp hbatch
      rw [List.length_cons] at hroom
      have hadm := h.admitted hout ((hshared tx out hout).mp hsig)
        (by omega : l.executed.length < maxIncluded batchId)
      have hexecuted := hstep.executed hadm
      have hroom' : k.executed.length + txs.length ≤ maxIncluded batchId := by
        rw [hexecuted, List.length_append, List.length_singleton]
        omega
      obtain ⟨hall, hcovered⟩ :=
        ih htxs hbatch hroom' (h.execute hm hout htrack hstep hadm)
      refine ⟨?_, hcovered⟩
      rw [hall, hexecuted, List.append_assoc, List.singleton_append]

/-- The accepted transactions are those handed to the executor, all of which it included, and
those in the pool, which the store covers. -/
structure Tracks (crypto : Crypto) (mgr : StateManager S) (p : Pipeline S) : Prop where
  accepted : p.accepted = p.handed ++ p.server.pool
  included : List.Forall₂ Normalizes p.handed p.executor.included
  signed : ∀ tx ∈ p.server.pool, verifySignature crypto tx = .ok ()
  covered : CoveredBy mgr p.server.cache p.executor.state p.server.pool

theorem tracks_start {cache : StateCache} {s : S}
    (hbalance : ∀ a, cache.balanceOf a = (mgr.getAccount s a).balance.toNat)
    (hnonce : ∀ a, cache.nonceOf a = (mgr.getAccount s a).nonce.toNat) :
    Tracks crypto mgr (Pipeline.start cache s) where
  accepted := rfl
  included := .nil
  signed := by simp [Pipeline.start]
  covered := covered_nil (fun a => (hbalance a).le) (funext hnonce)

theorem Tracks.submit {p p' : Pipeline S} {tx : UserTransaction} (h : Tracks crypto mgr p)
    (hstep : PipelineStep crypto rt mgr p (.submit tx) p')
    (htrack : ∀ tx ∈ p'.accepted, tx.Trackable) : Tracks crypto mgr p' := by
  have heffect := handleRestTx_effect crypto p.server tx
  simp only [PipelineStep, Pipeline.step, Option.some.injEq] at hstep
  subst hstep
  cases hresult : handleRestTx crypto p.server tx with
  | mk server handler =>
    rw [hresult] at heffect
    simp only [hresult] at htrack ⊢
    cases heffect with
    | refuses hphase => 
      simp only [hphase, if_false]
      exact ⟨h.accepted, h.included, h.signed, h.covered⟩
    | accepts hsig hnonce hcost hbalance =>
      simp only [if_true] at htrack ⊢
      have hmax := (htrack tx (by simp)).2.2
      refine ⟨?_, h.included, ?_, h.covered.accept hnonce hcost hbalance hmax⟩
      · simp [h.accepted]
      · simpa [or_imp, forall_and, hsig] using h.signed

theorem Tracks.execute {p p' : Pipeline S} {batchId : ℕ} {n : UInt64} (hm : mgr.Lawful)
    (hshared : SharedSignatures crypto rt) (h : Tracks crypto mgr p)
    (hstep : PipelineStep crypto rt mgr p (.execute batchId n) p')
    (htrack : ∀ tx ∈ p'.accepted, tx.Trackable) : Tracks crypto mgr p' := by
  obtain ⟨txs, executor, htxs, hcall, rfl⟩ := pipelineStep_execute_iff.mp hstep
  obtain ⟨l, hr, rfl⟩ := callStep_iff.mp hcall
  have hbatch : ∀ tx ∈ p.server.pool.take n.toNat,
      verifySignature crypto tx = .ok () ∧ tx.Trackable := by
    intro tx htx
    have hpool := List.mem_of_mem_take htx
    refine ⟨h.signed tx hpool, htrack tx ?_⟩
    simp [h.accepted, hpool]
  have hroom : (BatchLoop.start mgr p.executor.state).executed.length + txs.length ≤
      maxIncluded (toString batchId) := by
    have hn := n.toNat_lt
    have hlength := htxs.length_eq
    rw [List.length_take] at hlength
    rw [maxIncluded_toString]
    simp only [BatchLoop.start, List.length_nil]
    omega
  have hcovered := h.covered
  rw [← List.take_append_drop n.toNat p.server.pool] at hcovered
  obtain ⟨hall, hrest⟩ := CoveredBy.run hm hshared hr htxs hbatch hroom hcovered
  refine ⟨?_, ?_, fun tx htx => h.signed tx (List.mem_of_mem_drop htx), hrest⟩
  · simp [h.accepted]
  · have hincluded : Session.included ⟨l.state, p.executor.traces ++
        [Executor.buildTrace rt (toString batchId) (mgr.currentRoot p.executor.state) l]⟩ =
        p.executor.included ++ txs := by
      simp [Session.included, Executor.buildTrace, hall, BatchLoop.start]
    rw [hincluded]
    exact List.rel_append h.included htxs

theorem accepted_subset {p p' : Pipeline S} {event : PipelineEvent}
    (hstep : PipelineStep crypto rt mgr p event p') : p.accepted ⊆ p'.accepted := by
  cases event with
  | submit tx =>
    simp only [PipelineStep, Pipeline.step, Option.some.injEq] at hstep
    subst hstep
    dsimp only
    split
    · exact List.subset_append_left _ _
    · exact List.Subset.refl _
  | execute batchId n =>
    obtain ⟨txs, executor, -, -, rfl⟩ := pipelineStep_execute_iff.mp hstep
    exact List.Subset.refl _

theorem Tracks.step {p p' : Pipeline S} {event : PipelineEvent} (hm : mgr.Lawful)
    (hshared : SharedSignatures crypto rt) (h : Tracks crypto mgr p)
    (hstep : PipelineStep crypto rt mgr p event p')
    (htrack : ∀ tx ∈ p'.accepted, tx.Trackable) : Tracks crypto mgr p' := by
  cases event with
  | submit tx => exact h.submit hstep htrack
  | execute batchId n => exact h.execute hm hshared hstep htrack

theorem Tracks.exists_execute {p : Pipeline S} (h : Tracks crypto mgr p)
    (hset : ∀ s a acc, ∃ r, mgr.setAccount s a acc = .ok r)
    (htrack : ∀ tx ∈ p.accepted, tx.Trackable) (batchId : ℕ) (n : UInt64) :
    ∃ p', PipelineStep crypto rt mgr p (.execute batchId n) p' := by
  have hfits : ∀ tx ∈ p.server.pool.take n.toNat,
      ∃ out, normalizeTransaction tx.pooled.toSequencer = .ok out := by
    intro tx htx
    rw [exists_normalizeTransaction_iff]
    refine (htrack tx ?_).2.1
    simp [h.accepted, List.mem_of_mem_take htx]
  obtain ⟨txs, htxs⟩ := (exists_mapM_ok_iff normalizeTransaction
    ((p.server.pool.take n.toNat).map fun tx => tx.pooled.toSequencer)).mpr
    (by simpa only [List.forall_mem_map] using hfits)
  have hsucceeds : Executor.Succeeds rt mgr p.executor.state (toString batchId) txs :=
    Executor.succeeds_of_setAccount hset p.executor.state txs
  obtain ⟨l, hl⟩ := Executor.succeeds_iff.mp hsucceeds
  exact ⟨_, pipelineStep_execute_iff.mpr
    ⟨txs, _, (normalizeTransactions_ok_iff _ _).mp htxs, callStep_iff.mpr ⟨l, hl, rfl⟩, rfl⟩⟩

/-- If cache and store agree at the start, every accepted transaction that is executed is
included, however submissions and batches follow each other, and if the writes of the store
do not fail, the next batch can always be executed. -/
theorem pessimisticTracking_sound (crypto : Crypto) (rt : Runtime)
    (hshared : SharedSignatures crypto rt) (hm : mgr.Lawful) (cache : StateCache) (s : S)
    (hbalance : ∀ a, cache.balanceOf a = (mgr.getAccount s a).balance.toNat)
    (hnonce : ∀ a, cache.nonceOf a = (mgr.getAccount s a).nonce.toNat)
    (events : List PipelineEvent) (p : Pipeline S)
    (hr : Run (PipelineStep crypto rt mgr) (Pipeline.start cache s) events p)
    (htrack : ∀ tx ∈ p.accepted, tx.Trackable) :
    p.accepted = p.handed ++ p.server.pool ∧
      List.Forall₂ Normalizes p.handed p.executor.included ∧
      ((∀ s a acc, ∃ r, mgr.setAccount s a acc = .ok r) →
        ∀ batchId n, ∃ p', PipelineStep crypto rt mgr p (.execute batchId n) p') := by
  have htracks : Tracks crypto mgr p := by
    refine hr.invariant_of_step
      (I := fun p => (∀ tx ∈ p.accepted, tx.Trackable) → Tracks crypto mgr p)
      (fun p event p' h hstep htrack => ?_) (fun _ => tracks_start hbalance hnonce) htrack
    have hbefore := h fun tx htx => htrack tx (accepted_subset hstep htx)
    exact hbefore.step hm hshared hstep htrack
  exact ⟨htracks.accepted, htracks.included, fun hset => htracks.exists_execute hset htrack⟩

/-! A sequencer that recovers the signer as the executor does, and a sender with 100. -/

def alikeCrypto (rt : Runtime) : Crypto where
  keccak256 := rt.keccak256
  recover sig hash := (executorRecoveryId sig.v).bind fun id =>
    (rt.recoverKey hash (sig.r.toBigEndian ++ sig.s.toBigEndian) id).map
      (addressOfKey rt.keccak256)

theorem sharedSignatures_alike (rt : Runtime) : SharedSignatures (alikeCrypto rt) rt := by
  intro tx out hout
  rw [hout.converts.verifySignature_eq_true_iff, verifySignature]
  cases hid : executorRecoveryId tx.signature.v with
  | none => simp [alikeCrypto, hid]
  | some id =>
    cases hkey : rt.recoverKey (rt.keccak256 tx.hashPreimage)
        (tx.signature.r.toBigEndian ++ tx.signature.s.toBigEndian) id with
    | none => simp [alikeCrypto, hid, hkey]
    | some pubkey =>
      by_cases hsender : addressOfKey rt.keccak256 pubkey = tx.sender <;>
        simp [alikeCrypto, hid, hkey, hsender]

def carolRuntime : Runtime :=
  runtimeOnly carol false

def carolStore : InMemoryStateManager :=
  (InMemoryStateManager.default Sha256.hash).seedAccount carol ⟨100, 0⟩

theorem carolCache_agrees (a : Address) :
    carolCache.balanceOf a = (memory.getAccount carolStore a).balance.toNat ∧
      carolCache.nonceOf a = (memory.getAccount carolStore a).nonce.toNat := by
  have hget : memory.getAccount carolStore = Function.update (fun _ => default) carol ⟨100, 0⟩ :=
    InMemoryStateManager.getAccount_setAccount (InMemoryStateManager.default Sha256.hash) carol
      ⟨100, 0⟩
  rw [hget]
  by_cases ha : a = carol
  · subst ha
    rw [Function.update_self]
    decide
  · rw [Function.update_of_ne ha]
    simp [StateCache.balanceOf, StateCache.nonceOf, StateCache.getOrInitAccount, carolCache, ha,
      default]

def interleaved : List PipelineEvent :=
  [.submit (transfer 50 0), .execute 1 1, .submit (transfer 20 1), .submit (transfer 80 2),
    .execute 2 5]

theorem pessimisticTracking_interleaved :
    ∃ p, Run (PipelineStep (alikeCrypto carolRuntime) carolRuntime memory)
        (Pipeline.start carolCache carolStore) interleaved p ∧
      p.accepted = [transfer 50 0, transfer 20 1] ∧ p.server.pool = [] ∧
      List.Forall₂ Normalizes [transfer 50 0, transfer 20 1] p.executor.included := by
  obtain ⟨p, hr, hview⟩ := exists_run_of_foldlM
    (Pipeline.step (alikeCrypto carolRuntime) carolRuntime memory)
    (Pipeline.start carolCache carolStore) interleaved
    (fun p => (p.accepted, p.handed, p.server.pool))
    (b := ([transfer 50 0, transfer 20 1], [transfer 50 0, transfer 20 1], []))
    (by decide +kernel)
  obtain ⟨haccepted, hview⟩ := Prod.mk.inj hview
  obtain ⟨hhanded, hpool⟩ := Prod.mk.inj hview
  have htrack : ∀ tx ∈ p.accepted, tx.Trackable := by
    have hne : carol ≠ Vector.replicate 20 4 := by decide
    rw [haccepted]
    simp [UserTransaction.Trackable, UserTransaction.pooled, Transaction.FitsU64, transfer, hne]
  have hsound := pessimisticTracking_sound (alikeCrypto carolRuntime) carolRuntime
    (sharedSignatures_alike carolRuntime) (InMemoryStateManager.lawful Sha256.hash) carolCache
    carolStore (fun a => (carolCache_agrees a).1) (fun a => (carolCache_agrees a).2) interleaved
    p hr htrack
  exact ⟨p, hr, haccepted, hpool, hhanded ▸ hsound.2.1⟩

end RollupX.Sequencer
