import Mathlib.Data.List.Nodup
import Mathlib.Algebra.BigOperators.Group.List.Basic
import RollupX.Library.Keccak
import RollupX.Verification.Contracts.Calls

/-! The ether that comes in with deposits and goes out with withdrawals, while the receiver
of a withdrawal calls the bridge again as it likes. -/

namespace RollupX.Contracts

open Machine

/-- The ether received with deposits, and the withdrawals paid, oldest first. A payment is
noted when the ether leaves the bridge; if the receiver's call fails it is taken back, with
all that happened in the course of it. -/
structure Payments where
  deposited : ℕ
  paid : List (Bytes32 × ℕ)

def Payments.start : Payments :=
  ⟨0, []⟩

def Payments.note (g : Payments) (_ : Bridge) : BridgeStepLabel → Payments
  | .call _ msg (.deposit _) => { g with deposited := g.deposited + msg.value }
  | .withdraw _ _ _ _ amount withdrawalId =>
    { g with paid := g.paid ++ [(withdrawalId, amount.toNat)] }
  | _ => g

def Payments.ids (g : Payments) : List Bytes32 :=
  g.paid.map Prod.fst

def Payments.total (g : Payments) : ℕ :=
  (g.paid.map Prod.snd).sum

abbrev PayingMachine := CallFrames (Bridge × Payments) OpenCall

abbrev PayingStep (keccak256 : List UInt8 → Bytes32) :=
  GhostStep Payments.note keccak256

/-- No id is paid twice, the nullifiers are those of the ids paid, and the bridge holds
what was deposited and not paid. -/
structure Solvent (σ : Bridge) (g : Payments) : Prop where
  once : g.ids.Nodup
  nullified : ∀ withdrawalId, σ.nullifiers withdrawalId = true ↔ withdrawalId ∈ g.ids
  funds : σ.balance + g.total = g.deposited

variable {σ σ' : Bridge} {g : Payments}

theorem Solvent.of_same (h : Solvent σ g) (hn : σ'.nullifiers = σ.nullifiers)
    (hb : σ'.balance = σ.balance) : Solvent σ' g :=
  ⟨h.once, hn ▸ h.nullified, hb ▸ h.funds⟩

theorem Solvent.deposit (h : Solvent σ g) {value : ℕ} (hn : σ'.nullifiers = σ.nullifiers)
    (hb : σ'.balance = σ.balance + value) :
    Solvent σ' { g with deposited := g.deposited + value } := by
  refine ⟨h.once, hn ▸ h.nullified, ?_⟩
  have hfunds := h.funds
  change σ'.balance + g.total = g.deposited + value
  omega

theorem Solvent.pay (h : Solvent σ g) {withdrawalId : Bytes32} {amount : ℕ}
    (hfresh : σ.nullifiers withdrawalId = false) (hcovered : amount ≤ σ.balance)
    (hn : σ'.nullifiers = Function.update σ.nullifiers withdrawalId true)
    (hb : σ'.balance = σ.balance - amount) :
    Solvent σ' { g with paid := g.paid ++ [(withdrawalId, amount)] } := by
  have hids : Payments.ids { g with paid := g.paid ++ [(withdrawalId, amount)] } =
      g.ids ++ [withdrawalId] := by
    simp [Payments.ids]
  have htotal : Payments.total { g with paid := g.paid ++ [(withdrawalId, amount)] } =
      g.total + amount := by
    simp [Payments.total]
  have hnew : withdrawalId ∉ g.ids := by
    rw [← h.nullified, hfresh]
    simp
  refine ⟨?_, ?_, ?_⟩
  · rw [hids]
    exact (List.nodup_append.mpr ⟨h.once, List.nodup_singleton _, fun a ha b hb hab =>
      hnew (List.mem_singleton.mp hb ▸ hab ▸ ha)⟩)
  · intro id
    rw [hids, hn, List.mem_append, List.mem_singleton]
    by_cases hid : id = withdrawalId
    · simp [hid]
    · rw [Function.update_of_ne hid, h.nullified]
      simp [hid]
  · have hfunds := h.funds
    rw [htotal, hb]
    change σ.balance - amount + (g.total + amount) = g.deposited
    omega

theorem Solvent.step {label : BridgeStepLabel} (h : Solvent σ g) (he : StepEffect σ label σ') :
    Solvent σ' (g.note σ label) := by
  cases he with
  | call he =>
    cases he with
    | deposit receiver => exact h.deposit rfl rfl
    | _ => exact h.of_same rfl rfl
  | depositERC20 => exact h
  | withdraw _ _ _ _ _ _ hfresh hcovered => exact h.pay hfresh hcovered rfl rfl
  | succeed k => cases k <;> exact h.of_same rfl rfl

/-- In every state of every run, however the receivers of withdrawals and the tokens call
the bridge again: each withdrawal id has been paid at most once, the nullifiers are exactly
the ids paid, and the balance is what was deposited less what was paid. -/
theorem withdrawals_paid_once (keccak256 : List UInt8 → Bytes32) (sender verifier : EthAddress)
    (genesisRoot : Bytes32) (delay : Uint256) (labels : List BridgeStepLabel)
    (c : PayingMachine)
    (hr : Run (PayingStep keccak256)
      (CallFrames.start (Bridge.deploy sender verifier genesisRoot delay, .start)) labels c) :
    c.current.2.ids.Nodup ∧
      (∀ withdrawalId, c.current.1.nullifiers withdrawalId = true ↔
        withdrawalId ∈ c.current.2.ids) ∧
      c.current.1.balance + c.current.2.total = c.current.2.deposited := by
  have hall : c.All fun b => Solvent b.1 b.2 := by
    apply hr.invariant_of_step (I := fun c => c.All fun b => Solvent b.1 b.2)
    · intro d label d' hd hstep
      exact hstep.all hd fun σ he h => h.step he
    · exact CallFrames.all_start ⟨by simp [Payments.ids, Payments.start],
        by simp [Payments.ids, Payments.start, Bridge.deploy], rfl⟩
  exact ⟨hall.current.once, hall.current.nullified, hall.current.funds⟩

def keccakWord (bytes : List UInt8) : Bytes32 :=
  BitVec.ofNat 256 (Bytes.ofBe (Keccak.hash bytes).toList)

/-- A tree of one leaf: the withdrawal 9 of 40 wei to address 2. -/
def withdrawalRoot : Bytes32 :=
  keccakWord (Bytes.be 20 2 ++ Bytes.be 32 40 ++ Bytes.be 32 9)

def withdrawNine : BridgeStepLabel :=
  .withdraw ⟨2, 120⟩ ⟨2, 0⟩ [] 2 40 9

/-- Before the receiver returns it tries the same withdrawal again, which reverts, and makes
a deposit; after it has returned the withdrawal reverts, too. -/
def callingBack : List BridgeStepLabel :=
  [.call ⟨1, 60⟩ ⟨3, 100⟩ (.deposit 3), withdrawNine, withdrawNine,
    .call ⟨2, 120⟩ ⟨2, 5⟩ (.deposit 2), .succeed, withdrawNine]

theorem withdrawals_paid_once_callingBack :
    ∃ c, Run (PayingStep keccakWord)
        (CallFrames.start (Bridge.deploy 1 7 withdrawalRoot 10, .start)) callingBack c ∧
      c.current.2.ids = [9] ∧ c.current.1.balance = 65 ∧ c.current.2.ids.Nodup ∧
      c.current.1.balance + c.current.2.total = c.current.2.deposited := by
  obtain ⟨c, hr, h⟩ := exists_run_of_foldlM (ghostStep Payments.note keccakWord)
    (CallFrames.start (Bridge.deploy 1 7 withdrawalRoot 10, .start)) callingBack
    (fun c => (c.current.2.ids, c.current.1.balance)) (b := ([9], 65)) (by decide +kernel)
  obtain ⟨hids, hbalance⟩ := Prod.mk.inj h
  have hpaid := withdrawals_paid_once keccakWord 1 7 withdrawalRoot 10 callingBack c hr
  exact ⟨c, hr, hids, hbalance, hpaid.1, hpaid.2.2⟩

end RollupX.Contracts
