import Mathlib.Algebra.BigOperators.Group.List.Basic
import RollupX.Library.Ledger
import RollupX.Model.Sequencer.Admission

/-! Concurrent submissions. The checks and the updates of a handler are separate steps, and other
handlers of the same sender may run between them. -/

namespace RollupX.Sequencer

open Machine
open Executor (Address)

variable {crypto : Crypto}

def UserTransaction.cost (tx : UserTransaction) : ℕ :=
  tx.value.toNat + tx.gasPrice.toNat * tx.gasLimit.toNat

theorem toNat_totalCost {tx : UserTransaction} {c : U256} (h : totalCost tx = some c) :
    c.toNat = tx.cost := by
  unfold totalCost at h
  cases hgas : U256.mul tx.gasPrice (U256.ofU64 tx.gasLimit) with
  | none => simp [hgas] at h
  | some gas =>
    simp only [hgas] at h
    rw [U256.toNat_add_some h, U256.toNat_mul_some hgas, U256.toNat_ofU64,
      UserTransaction.cost]

namespace StateCache

def balanceOf (cache : StateCache) (address : Address) : ℕ :=
  (cache.getOrInitAccount address).balance.toNat

def nonceOf (cache : StateCache) (address : Address) : ℕ :=
  (cache.getOrInitAccount address).nonce.toNat

theorem balanceOf_deductBalance (cache : StateCache) (address : Address) (amount : U256) :
    (cache.deductBalance address amount).balanceOf =
      Function.update cache.balanceOf address (cache.balanceOf address - amount.toNat) := by
  funext other
  cases hget : cache address with
  | none =>
    by_cases ho : other = address
    · subst ho
      simp [deductBalance, balanceOf, getOrInitAccount, hget]
    · simp [deductBalance, hget, ho]
  | some account =>
    by_cases ho : other = address
    · subst ho
      simp [deductBalance, balanceOf, getOrInitAccount, hget, U256.toNat_saturatingSub]
    · simp [deductBalance, balanceOf, getOrInitAccount, hget, ho]

theorem nonceOf_deductBalance (cache : StateCache) (address : Address) (amount : U256) :
    (cache.deductBalance address amount).nonceOf = cache.nonceOf := by
  funext other
  cases hget : cache address with
  | none => simp [deductBalance, hget]
  | some account =>
    by_cases ho : other = address
    · subst ho
      simp [deductBalance, nonceOf, getOrInitAccount, hget]
    · simp [deductBalance, nonceOf, getOrInitAccount, hget, ho]

theorem balanceOf_incrementNonce (cache : StateCache) (address : Address) :
    (cache.incrementNonce address).balanceOf = cache.balanceOf := by
  funext other
  cases hget : cache address with
  | none | some account =>
    by_cases ho : other = address
    · subst ho
      simp [incrementNonce, balanceOf, getOrInitAccount, hget]
    · simp [incrementNonce, balanceOf, getOrInitAccount, hget, ho]

theorem nonceOf_incrementNonce {cache : StateCache} {address : Address}
    (h : cache.nonceOf address < 2 ^ 64 - 1) :
    (cache.incrementNonce address).nonceOf =
      Function.update cache.nonceOf address (cache.nonceOf address + 1) := by
  funext other
  by_cases ho : other = address
  · subst ho
    cases hget : cache other with
    | none => simp [incrementNonce, nonceOf, getOrInitAccount, hget]
    | some account =>
      have hlt : account.nonce.toNat < 2 ^ 64 - 1 := by
        simpa [nonceOf, getOrInitAccount, hget] using h
      have hone : (1 : UInt64).toNat = 1 := rfl
      have hadd : (account.nonce + 1).toNat = account.nonce.toNat + 1 := by
        rw [UInt64.toNat_add, hone]
        omega
      simp [incrementNonce, nonceOf, getOrInitAccount, hget, hadd]
  · cases hget : cache address with
    | none | some account => simp [incrementNonce, nonceOf, getOrInitAccount, hget, ho]

end StateCache

def Phase.charged : Phase → Bool
  | .deducted | .incremented | .accepted => true
  | _ => false

def Phase.advanced : Phase → Bool
  | .incremented | .accepted => true
  | _ => false

def UserTransaction.key (tx : UserTransaction) : Address × ℕ :=
  (tx.sender, tx.nonce.toNat)

def Handler.chargeTo (address : Address) (h : Handler) : ℕ :=
  if h.phase.charged ∧ h.tx.sender = address then h.tx.cost else 0

def Handler.usedKey (h : Handler) : Option (Address × ℕ) :=
  if h.phase.advanced then some h.tx.key else none

theorem Handler.keeps_taken {s s₁ s' : Shared} {h h' : Handler} {p p' : Phase} {Q : Prop}
    (he : some (s₁, { h with phase := p' }) = some (s', h')) (hcache : s₁.cache = s.cache)
    (hcharged : p'.charged = p.charged) (hadvanced : p'.advanced = p.advanced) :
    h'.tx = h.tx ∧
      ((s'.cache = s.cache ∧ h'.phase.charged = p.charged ∧
        h'.phase.advanced = p.advanced) ∨ Q) := by
  obtain ⟨rfl, rfl⟩ := Prod.mk.inj (Option.some.inj he)
  exact ⟨rfl, .inl ⟨hcache, hcharged, hadvanced⟩⟩

/-- What one atomic step of a handler does to the cache and to its own account. -/
theorem Handler.run_cases {s s' : Shared} {h h' : Handler}
    (hrun : h.run crypto s = some (s', h')) :
    h'.tx = h.tx ∧
      ((s'.cache = s.cache ∧ h'.phase.charged = h.phase.charged ∧
          h'.phase.advanced = h.phase.advanced) ∨
        (h.phase = .balanceChecked ∧ h'.phase = .deducted ∧ ∃ c, totalCost h.tx = some c ∧
          s'.cache = s.cache.deductBalance h.tx.sender c) ∨
        (h.phase = .deducted ∧ h'.phase = .incremented ∧
          s'.cache = s.cache.incrementNonce h.tx.sender)) := by
  unfold Handler.run at hrun
  cases hphase : h.phase with
  | received =>
    simp only [hphase] at hrun
    split at hrun
    · exact Handler.keeps_taken hrun rfl rfl rfl
    · split at hrun
      · exact Handler.keeps_taken hrun rfl rfl rfl
      · exact Handler.keeps_taken hrun rfl rfl rfl
  | nonceChecked =>
    simp only [hphase] at hrun
    split at hrun
    · exact Handler.keeps_taken hrun rfl rfl rfl
    · exact Handler.keeps_taken hrun rfl rfl rfl
    · exact Handler.keeps_taken hrun rfl rfl rfl
  | balanceChecked =>
    cases hcost : totalCost h.tx with
    | none =>
      simp only [hphase, hcost] at hrun
      exact Handler.keeps_taken hrun rfl rfl rfl
    | some c =>
      simp only [hphase, hcost] at hrun
      obtain ⟨rfl, rfl⟩ := Prod.mk.inj (Option.some.inj hrun)
      exact ⟨rfl, .inr (.inl ⟨rfl, rfl, c, rfl, rfl⟩)⟩
  | deducted =>
    simp only [hphase] at hrun
    obtain ⟨rfl, rfl⟩ := Prod.mk.inj (Option.some.inj hrun)
    exact ⟨rfl, .inr (.inr ⟨rfl, rfl, rfl⟩)⟩
  | incremented =>
    simp only [hphase] at hrun
    exact Handler.keeps_taken hrun rfl rfl rfl
  | accepted | rejected e | panicked => simp [hphase] at hrun

/-- The step is no update, or an update that still finds what the checks had found: a
deduction finds a balance that covers the cost, an increment finds the nonce of the
transaction and room above it. -/
def StillValid (p : Server) : TaskEvent UserTransaction → Prop
  | .spawn _ => True
  | .advance i => ∀ h ∈ p.tasks[i]?,
      (h.phase = .balanceChecked → h.tx.cost ≤ p.shared.cache.balanceOf h.tx.sender) ∧
        (h.phase = .deducted → p.shared.cache.nonceOf h.tx.sender = h.tx.nonce.toNat ∧
          p.shared.cache.nonceOf h.tx.sender < 2 ^ 64 - 1)

/-- What the handlers took from each balance and what is left make up the balance at the
start, and no handler has used a pair of sender and nonce that another has. -/
structure Accounted (start : StateCache) (p : Server) : Prop where
  balance : ∀ a, (p.tasks.map (Handler.chargeTo a)).sum + p.shared.cache.balanceOf a =
    start.balanceOf a
  spent : Ledger.Spent p.shared.cache.nonceOf (p.tasks.filterMap Handler.usedKey)

theorem accounted_start (cache : StateCache) : Accounted cache (Server.start cache) where
  balance := by simp [Server.start]
  spent := Ledger.Spent.nil _

theorem Accounted.spawn {start : StateCache} {p p' : Server} {tx : UserTransaction}
    (h : Accounted start p) (hstep : ServerStep crypto p (.spawn tx) p') :
    Accounted start p' := by
  rw [TaskPool.step_spawn_iff.mp hstep]
  constructor
  · intro a
    simpa [Handler.receive, Handler.chargeTo, Phase.charged] using h.balance a
  · simpa [Handler.receive, Handler.usedKey, Phase.advanced] using h.spent

theorem Accounted.replace {start : StateCache} {p p' : Server} {before later : List Handler}
    {t t' : Handler} (h : Accounted start p) (htasks : p.tasks = before ++ t :: later)
    (htasks' : p'.tasks = before ++ t' :: later)
    (hcharge : ∀ a, t'.chargeTo a + p'.shared.cache.balanceOf a =
      t.chargeTo a + p.shared.cache.balanceOf a)
    (hspent : Ledger.Spent p'.shared.cache.nonceOf (p'.tasks.filterMap Handler.usedKey)) :
    Accounted start p' := by
  refine ⟨fun a => ?_, hspent⟩
  have hbalance := h.balance a
  have ha := hcharge a
  simp only [htasks, htasks', List.map_append, List.map_cons, List.sum_append, List.sum_cons]
    at hbalance ⊢
  omega

theorem Accounted.advance {start : StateCache} {p p' : Server} {i : ℕ}
    (h : Accounted start p) (hok : StillValid p (.advance i))
    (hstep : ServerStep crypto p (.advance i) p') : Accounted start p' := by
  obtain ⟨before, t, later, t', htasks, hget, hrun, htasks'⟩ := TaskPool.Step.advance hstep
  obtain ⟨hcovers, hcurrent⟩ := hok t hget
  obtain ⟨htx, hcases⟩ := Handler.run_cases hrun
  have hspent := h.spent
  rw [htasks, List.filterMap_append, List.filterMap_cons] at hspent
  rcases hcases with ⟨hcache, hcharged, hadvanced⟩ | ⟨hphase, hphase', c, hc, hcache⟩ |
    ⟨hphase, hphase', hcache⟩
  · refine h.replace htasks htasks' (fun a => ?_) ?_
    · simp only [hcache, Handler.chargeTo, htx, hcharged]
    · have hsame : t'.usedKey = t.usedKey := by
        simp only [Handler.usedKey, htx, hadvanced]
      rw [htasks', hcache, List.filterMap_append, List.filterMap_cons, hsame]
      exact hspent
  · refine h.replace htasks htasks' (fun a => ?_) ?_
    · have hcost := toNat_totalCost hc
      have hold : t.chargeTo a = 0 := by simp [Handler.chargeTo, hphase, Phase.charged]
      rw [hcache, StateCache.balanceOf_deductBalance]
      by_cases hself : a = t.tx.sender
      · subst hself
        have hnew : t'.chargeTo t.tx.sender = t.tx.cost := by
          simp [Handler.chargeTo, hphase', Phase.charged, htx]
        have hle := hcovers hphase
        rw [Function.update_self, hnew, hcost]
        omega
      · have hnew : t'.chargeTo a = 0 := by
          have hne : ¬t.tx.sender = a := fun he => hself he.symm
          simp [Handler.chargeTo, htx, hne]
        rw [Function.update_of_ne hself, hnew, hold]
    · have hold : t.usedKey = none := by simp [Handler.usedKey, hphase, Phase.advanced]
      have hnew : t'.usedKey = none := by simp [Handler.usedKey, hphase', Phase.advanced]
      rw [htasks', hcache, List.filterMap_append, List.filterMap_cons, hnew,
        StateCache.nonceOf_deductBalance]
      rw [hold] at hspent
      exact hspent
  · obtain ⟨hnonce, hroom⟩ := hcurrent hphase
    refine h.replace htasks htasks' (fun a => ?_) ?_
    · have hsame : t'.chargeTo a = t.chargeTo a := by
        simp [Handler.chargeTo, hphase, hphase', Phase.charged, htx]
      rw [hcache, StateCache.balanceOf_incrementNonce, hsame]
    · have hold : t.usedKey = none := by simp [Handler.usedKey, hphase, Phase.advanced]
      have hnew : t'.usedKey = some (t.tx.sender, p.shared.cache.nonceOf t.tx.sender) := by
        simp [Handler.usedKey, hphase', Phase.advanced, htx, UserTransaction.key, hnonce]
      rw [hold] at hspent
      rw [htasks', hcache, List.filterMap_append, List.filterMap_cons, hnew,
        StateCache.nonceOf_incrementNonce hroom]
      refine (hspent.advance t.tx.sender).perm ?_
      exact (List.perm_append_singleton _ _).trans List.perm_middle.symm

theorem Accounted.step {start : StateCache} {p p' : Server}
    {event : TaskEvent UserTransaction} (h : Accounted start p) (hok : StillValid p event)
    (hstep : ServerStep crypto p event p') : Accounted start p' := by
  cases event with
  | spawn tx => exact h.spawn hstep
  | advance i => exact h.advance hok hstep

/-- No two accepted transactions share sender and nonce, and the accepted transactions of
each sender cost no more than its balance in the cache at the start. -/
def NoDoubleSpend (start : StateCache) (p : Server) : Prop :=
  (p.accepted.map UserTransaction.key).Nodup ∧
    ∀ a, ((p.accepted.filter fun tx => tx.sender = a).map UserTransaction.cost).sum ≤
      start.balanceOf a

theorem accepted_keys_sublist (tasks : List Handler) :
    List.Sublist
      (((tasks.filter fun h => h.phase = .accepted).map Handler.tx).map UserTransaction.key)
      (tasks.filterMap Handler.usedKey) := by
  induction tasks with
  | nil => simp
  | cons h tasks ih =>
    by_cases hphase : h.phase = .accepted
    · have hkey : h.usedKey = some h.tx.key := by
        simp [Handler.usedKey, hphase, Phase.advanced]
      simpa [hphase, hkey] using ih
    · rw [List.filter_cons_of_neg (by simpa using hphase)]
      cases hkey : h.usedKey with
      | none => simpa [hkey] using ih
      | some key => simpa [hkey] using ih.cons key

theorem accepted_cost_le (tasks : List Handler) (a : Address) :
    ((((tasks.filter fun h => h.phase = .accepted).map Handler.tx).filter
        fun tx => tx.sender = a).map UserTransaction.cost).sum ≤
      (tasks.map (Handler.chargeTo a)).sum := by
  induction tasks with
  | nil => simp
  | cons h tasks ih =>
    rw [List.map_cons, List.sum_cons]
    by_cases hphase : h.phase = .accepted
    · by_cases hsender : h.tx.sender = a
      · have hcharge : h.chargeTo a = h.tx.cost := by
          simp [Handler.chargeTo, hphase, Phase.charged, hsender]
        rw [hcharge]
        simpa [hphase, hsender] using ih
      · have hle := Nat.le_add_left (tasks.map (Handler.chargeTo a)).sum (h.chargeTo a)
        simpa [hphase, hsender] using ih.trans hle
    · rw [List.filter_cons_of_neg (by simpa using hphase)]
      exact ih.trans (Nat.le_add_left _ _)

theorem Accounted.noDoubleSpend {start : StateCache} {p : Server} (h : Accounted start p) :
    NoDoubleSpend start p := by
  refine ⟨h.spent.nodup.sublist (accepted_keys_sublist p.tasks), fun a => ?_⟩
  have hle : ((p.accepted.filter fun tx => tx.sender = a).map UserTransaction.cost).sum ≤
      (p.tasks.map (Handler.chargeTo a)).sum := accepted_cost_le p.tasks a
  have hbalance := h.balance a
  omega

/-- In every interleaving of submissions in which each update still finds what the checks
had found, there is no double spend. -/
theorem noDoubleSpend_of_stillValid (crypto : Crypto) (cache : StateCache)
    (events : List (TaskEvent UserTransaction)) (p : Server)
    (hr : Run (ServerStep crypto) (Server.start cache) events p)
    (hok : Along (ServerStep crypto) StillValid (Server.start cache) events) :
    NoDoubleSpend cache p :=
  (hr.invariant (fun _ _ _ h hok hstep => h.step hok hstep) hok
    (accounted_start cache)).noDoubleSpend

/-! A sender with 100 in the cache, and a transfer that costs 60. -/

def carol : Address := Vector.replicate 20 3

def carolCache : StateCache :=
  fun a => if a = carol then some ⟨carol, 100, 0⟩ else none

def carolSigns : Crypto :=
  ⟨fun _ => Vector.replicate 32 0, fun _ _ => some carol⟩

def transfer (value : U256) (nonce : UInt64) : UserTransaction :=
  ⟨carol, Vector.replicate 20 4, value, nonce, 1, 10, ⟨0, 0, 27⟩, 0, none⟩

instance (p : Server) (event : TaskEvent UserTransaction) : Decidable (StillValid p event) :=
  match event with
  | .spawn _ => isTrue trivial
  | .advance i =>
    match hget : p.tasks[i]? with
    | none => isTrue (by
        intro h hh
        rw [hget] at hh
        cases hh)
    | some h => decidable_of_iff
        ((h.phase = .balanceChecked →
            h.tx.cost ≤ p.shared.cache.balanceOf h.tx.sender) ∧
          (h.phase = .deducted →
            p.shared.cache.nonceOf h.tx.sender = h.tx.nonce.toNat ∧
              p.shared.cache.nonceOf h.tx.sender < 2 ^ 64 - 1)) (by
        constructor
        · intro hok k hk
          rw [hget] at hk
          rw [← Option.some.inj hk]
          exact hok
        · intro hok
          exact hok h hget)

def inTurn : List (TaskEvent UserTransaction) :=
  [.spawn (transfer 50 0), .spawn (transfer 20 1), .advance 0, .advance 0, .advance 0,
    .advance 0, .advance 1, .advance 1, .advance 0, .advance 1, .advance 1, .advance 1]

theorem noDoubleSpend_inTurn :
    ∃ p, Run (ServerStep carolSigns) (Server.start carolCache) inTurn p ∧
      p.accepted = [transfer 50 0, transfer 20 1] ∧ NoDoubleSpend carolCache p := by
  obtain ⟨p, hr, haccepted⟩ := exists_run_of_foldlM
    (TaskPool.step Handler.receive (Handler.run carolSigns)) (Server.start carolCache) inTurn
    Server.accepted (b := [transfer 50 0, transfer 20 1]) (by decide +kernel)
  have hok : Along (ServerStep carolSigns) StillValid (Server.start carolCache) inTurn :=
    Along.of_check (f := TaskPool.step Handler.receive (Handler.run carolSigns))
      (by decide +kernel)
  exact ⟨p, hr, haccepted, noDoubleSpend_of_stillValid carolSigns carolCache inTurn p hr hok⟩

def twice : List (TaskEvent UserTransaction) :=
  [.spawn (transfer 50 0), .spawn (transfer 50 0), .advance 0, .advance 1, .advance 0,
    .advance 1, .advance 0, .advance 1, .advance 0, .advance 1, .advance 0, .advance 1]

/-- Both submissions are accepted: the pair of sender and nonce repeats, and the two
transfers cost 120 of a balance of 100. -/
theorem doubleSpend_twice :
    ∃ p, Run (ServerStep carolSigns) (Server.start carolCache) twice p ∧
      p.accepted = [transfer 50 0, transfer 50 0] ∧
      ¬(p.accepted.map UserTransaction.key).Nodup ∧
      carolCache.balanceOf carol <
        ((p.accepted.filter fun tx => tx.sender = carol).map UserTransaction.cost).sum := by
  obtain ⟨p, hr, haccepted⟩ := exists_run_of_foldlM
    (TaskPool.step Handler.receive (Handler.run carolSigns)) (Server.start carolCache) twice
    Server.accepted (b := [transfer 50 0, transfer 50 0]) (by decide +kernel)
  refine ⟨p, hr, haccepted, ?_, ?_⟩
  · rw [haccepted]
    decide +kernel
  · rw [haccepted]
    decide +kernel

end RollupX.Sequencer
