import RollupX.Library.Commitment
import RollupX.Library.Packing
import RollupX.Verification.Executor.Engine

/-! What the root of the in-memory store says about its accounts. The tree pairs an odd last node
with itself, so lists of different lengths can have one root. -/

namespace RollupX.Executor

open Commitment
open Packing (selfDelimiting_vector selfDelimiting_u64)

variable {sha256 : List UInt8 → Hash}

def leafMessage (entry : Address × Account) : List UInt8 :=
  entry.1.toList ++ Bytes.be 8 entry.2.balance.toNat ++ Bytes.be 8 entry.2.nonce.toNat

def nodeMessage (left right : Hash) : List UInt8 :=
  left.toList ++ right.toList

/-- All that is hashed while the root is computed: the leaves, and the pairs of every level. -/
def rootMessages (sha256 : List UInt8 → Hash) (accounts : AccountMap) : List (List UInt8) :=
  entryMessages sha256 nodeMessage leafMessage accounts.toList

theorem nextLevel_eq (level : List Hash) :
    nextLevel sha256 level = Commitment.nextLevel sha256 nodeMessage level := by
  induction level using nextLevel.induct with
  | case1 => rfl
  | case2 left => rfl
  | case3 left right rest ih =>
    rw [nextLevel, ih]
    rfl

theorem foldLevels_eq (level : List Hash) :
    foldLevels sha256 level = top sha256 nodeMessage level := by
  induction level using foldLevels.induct sha256 with
  | case1 level h ih => rw [foldLevels, if_pos h, ih, nextLevel_eq, top_of_long h]
  | case2 level h => rw [foldLevels, if_neg h, top_of_short h]

theorem computeRoot_eq (accounts : AccountMap) :
    computeRoot sha256 accounts =
      (top sha256 nodeMessage (leaves sha256 leafMessage accounts.toList)).headD
        (Vector.replicate 32 0) := by
  rw [computeRoot, foldLevels_eq]
  rfl

theorem leafMessage_injective : Function.Injective leafMessage := by
  rintro ⟨address, balance, nonce⟩ ⟨address', balance', nonce'⟩ h
  have haddress := (selfDelimiting_vector 20).comap (Prod.fst : Address × Account → Address)
  have hu64 (field : Account → UInt64) :=
    selfDelimiting_u64.comap fun e : Address × Account => field e.2
  have hmessage := (haddress.append (hu64 Account.balance)).append (hu64 Account.nonce)
  have hkey := hmessage.key_eq h
  simp only [id_eq, Prod.mk.injEq] at hkey
  obtain ⟨⟨rfl, rfl⟩, rfl⟩ := hkey
  rfl

theorem nodeMessage_inj (l r l' r' : Hash) (h : nodeMessage l r = nodeMessage l' r') :
    l = l' ∧ r = r' := by
  have hleft := (selfDelimiting_vector 32).comap (Prod.fst : Hash × Hash → Hash)
  have hright := (selfDelimiting_vector 32).comap (Prod.snd : Hash × Hash → Hash)
  have hkey := (hleft.append hright).key_eq (x := (l, r)) (y := (l', r')) h
  simpa only [id_eq, Prod.mk.injEq] using hkey

theorem leafMessage_ne_nodeMessage (entry : Address × Account) (l r : Hash) :
    leafMessage entry ≠ nodeMessage l r := by
  intro h
  have hlength := congrArg List.length h
  simp [leafMessage, nodeMessage] at hlength

theorem exists_message_of_root (sha256 : List UInt8 → Hash) {accounts : AccountMap}
    (h : accounts ≠ ∅) :
    ∃ m ∈ rootMessages sha256 accounts,
      top sha256 nodeMessage (leaves sha256 leafMessage accounts.toList) = [sha256 m] ∧
        computeRoot sha256 accounts = sha256 m := by
  obtain ⟨m, hm, htop⟩ : ∃ m ∈ rootMessages sha256 accounts,
      top sha256 nodeMessage (leaves sha256 leafMessage accounts.toList) = [sha256 m] :=
    exists_message_of_top fun hnil => h (Std.ExtTreeMap.toList_eq_nil_iff.mp hnil)
  refine ⟨m, hm, htop, ?_⟩
  rw [computeRoot_eq, htop]
  rfl

theorem computeRoot_empty : computeRoot sha256 ∅ = Vector.replicate 32 0 := by
  rw [computeRoot_eq, Std.ExtTreeMap.toList_eq_nil_iff.mpr rfl, leaves, List.map_nil,
    top_of_short (by simp)]
  rfl

/-- The loop over the levels ends with at most one hash. Two maps with one root are equal, or
two messages hashed for them collide, or one of them is empty and something hashed for the
other has the zero hash. -/
theorem computeRoot_binding (sha256 : List UInt8 → Hash) :
    (∀ level, (foldLevels sha256 level).length ≤ 1) ∧
      ∀ accounts accounts' : AccountMap,
        computeRoot sha256 accounts = computeRoot sha256 accounts' →
        accounts = accounts' ∨
          Collision sha256 (rootMessages sha256 accounts ++ rootMessages sha256 accounts') ∨
          (accounts = ∅ ∧ accounts' ≠ ∅ ∧
            ∃ m ∈ rootMessages sha256 accounts', sha256 m = Vector.replicate 32 0) ∨
          (accounts ≠ ∅ ∧ accounts' = ∅ ∧
            ∃ m ∈ rootMessages sha256 accounts, sha256 m = Vector.replicate 32 0) := by
  refine ⟨fun level => ?_, fun accounts accounts' h => ?_⟩
  · rw [foldLevels_eq]
    exact length_top_le level
  · by_cases hempty : accounts = ∅
    · by_cases hempty' : accounts' = ∅
      · exact .inl (hempty.trans hempty'.symm)
      · obtain ⟨m, hm, -, hroot⟩ := exists_message_of_root sha256 hempty'
        rw [hempty, computeRoot_empty] at h
        exact .inr (.inr (.inl ⟨hempty, hempty', m, hm, hroot.symm.trans h.symm⟩))
    · obtain ⟨m, hm, htop, hroot⟩ := exists_message_of_root sha256 hempty
      by_cases hempty' : accounts' = ∅
      · rw [hempty', computeRoot_empty] at h
        exact .inr (.inr (.inr ⟨hempty, hempty', m, hm, hroot.symm.trans h⟩))
      · obtain ⟨m', -, htop', hroot'⟩ := exists_message_of_root sha256 hempty'
        have htops : top sha256 nodeMessage (leaves sha256 leafMessage accounts.toList) =
            top sha256 nodeMessage (leaves sha256 leafMessage accounts'.toList) := by
          rw [htop, htop', ← hroot, ← hroot', h]
        rcases tree_binding nodeMessage_inj leafMessage_ne_nodeMessage leafMessage_injective
          (nodup_addresses accounts).of_map (nodup_addresses accounts').of_map htops with
          hlist | hcollision
        · exact .inl (Std.ExtTreeMap.toList_inj.mp hlist)
        · exact .inr (.inl hcollision)

def constantHash : List UInt8 → Hash :=
  fun _ => Vector.replicate 32 7

theorem constantHash_ne_zero (m : List UInt8) : constantHash m ≠ Vector.replicate 32 0 := by
  change (Vector.replicate 32 7 : Hash) ≠ Vector.replicate 32 0
  decide

def threeHolders : InMemoryStateManager :=
  (aliceStore.seedAccount bob ⟨5, 0⟩).seedAccount (Vector.replicate 20 9) ⟨1, 0⟩

theorem computeRoot_binding_threeHolders :
    computeRoot constantHash aliceStore.accounts =
        computeRoot constantHash threeHolders.accounts ∧
      Collision constantHash (rootMessages constantHash aliceStore.accounts ++
        rootMessages constantHash threeHolders.accounts) := by
  have hroot : computeRoot constantHash aliceStore.accounts =
      computeRoot constantHash threeHolders.accounts := by decide +kernel
  refine ⟨hroot, ?_⟩
  rcases (computeRoot_binding constantHash).2 _ _ hroot with
    heq | hcollision | ⟨-, -, m, -, hm⟩ | ⟨-, -, m, -, hm⟩
  · have hsize := congrArg Std.ExtTreeMap.size heq
    exact absurd hsize (by decide +kernel)
  · exact hcollision
  · exact absurd hm (constantHash_ne_zero m)
  · exact absurd hm (constantHash_ne_zero m)

end RollupX.Executor
