import RollupX.Model.MerkleTree.Storage

/-! Keys of the Merkle tree as paths: nibbles for the stored tree, bits for its hashes. -/

namespace RollupX.MerkleTree

namespace Nibbles

@[simp] theorem new_zero (key : Key) : new key 0 = [] := rfl

theorem new_succ (key : Key) (n : ℕ) : new key (n + 1) = new key n ++ [nibble key n] := by
  simp [new, List.range_succ]

@[simp] theorem length_new (key : Key) (n : ℕ) : (new key n).length = n := by
  simp [new]

theorem reverse_new_succ (key : Key) (n : ℕ) :
    (new key (n + 1)).reverse = nibble key n :: (new key n).reverse := by
  rw [new_succ, List.reverse_append, List.reverse_singleton, List.singleton_append]

@[simp] theorem splitLast_concat (p : Nibbles) (i : Nibble) :
    splitLast (p ++ [i]) = some (p, i) := by
  simp [splitLast]

@[simp] theorem splitLast_nil : splitLast [] = none := rfl

theorem splitLast_new_succ (key : Key) (n : ℕ) :
    splitLast (new key (n + 1)) = some (new key n, nibble key n) := by
  rw [new_succ, splitLast_concat]

theorem new_ne {key : Key} {n n' : ℕ} (hne : n ≠ n') : new key n ≠ new key n' := fun heq =>
  hne (by simpa using congrArg List.length heq)

theorem new_eq_of_succ {key key' : Key} {n : ℕ} (h : new key (n + 1) = new key' (n + 1)) :
    new key n = new key' n ∧ nibble key n = nibble key' n := by
  rw [new_succ, new_succ] at h
  obtain ⟨hpre, hlast⟩ := List.append_inj h (by simp)
  exact ⟨hpre, List.singleton_inj.mp hlast⟩

theorem new_eq_of_le {key key' : Key} {n n' : ℕ} (hle : n ≤ n') (h : new key n' = new key' n') :
    new key n = new key' n := by
  induction n', hle using Nat.le_induction with
  | base => exact h
  | succ n' _ ih => exact ih (new_eq_of_succ h).1

theorem new_mono (key : Key) {n n' : ℕ} (hle : n ≤ n') : new key n <+: new key n' := by
  induction n', hle using Nat.le_induction with
  | base => exact List.prefix_rfl
  | succ n' _ ih =>
    rw [new_succ]
    exact ih.trans (List.prefix_append ..)

def OnPath (key : Key) (p : Nibbles) : Prop :=
  p = new key p.length

theorem onPath_new (key : Key) (n : ℕ) : OnPath key (new key n) := by
  rw [OnPath, length_new]

theorem onPath_concat_iff {key : Key} {p : Nibbles} {i : Nibble} :
    OnPath key (p ++ [i]) ↔ OnPath key p ∧ i = nibble key p.length := by
  rw [OnPath, OnPath, List.length_append, List.length_singleton, new_succ]
  constructor
  · intro h
    obtain ⟨hpre, hlast⟩ := List.append_inj h (by simp)
    exact ⟨hpre, List.singleton_inj.mp hlast⟩
  · rintro ⟨hpre, rfl⟩
    rw [← hpre]

theorem OnPath.head {key : Key} {i : Nibble} {rest : Nibbles} (h : OnPath key (i :: rest)) :
    i = nibble key 0 := by
  rw [OnPath, List.length_cons, new, List.range_succ_eq_map, List.map_cons] at h
  exact (List.cons.inj h).1

instance (key : Key) (p : Nibbles) : Decidable (OnPath key p) :=
  inferInstanceAs (Decidable (p = new key p.length))

end Nibbles

def bits : ℕ → ℕ → List Bool
  | 0, _ => []
  | w + 1, n => bits w (n / 2) ++ [n.testBit 0]

@[simp] theorem length_bits (w n : ℕ) : (bits w n).length = w := by
  induction w generalizing n with
  | zero => rfl
  | succ w ih => rw [bits, List.length_append, ih, List.length_singleton]

def pathBits (p : Nibbles) : List Bool :=
  p.flatMap fun i : Nibble => bits 4 i.val

@[simp] theorem pathBits_nil : pathBits [] = [] := rfl

theorem pathBits_concat (p : Nibbles) (i : Nibble) :
    pathBits (p ++ [i]) = pathBits p ++ bits 4 i := by
  simp [pathBits]

@[simp] theorem length_pathBits (p : Nibbles) : (pathBits p).length = 4 * p.length := by
  induction p with
  | nil => rfl
  | cons i p ih =>
    rw [pathBits, List.flatMap_cons, List.length_append, length_bits, ← pathBits, ih,
      List.length_cons]
    omega

theorem bits_four_injective : ∀ i j : Nibble, bits 4 i = bits 4 j → i = j := by
  decide

theorem pathBits_inj {p q : Nibbles} (hlen : p.length = q.length)
    (h : pathBits p = pathBits q) : p = q := by
  induction p generalizing q with
  | nil => exact (List.length_eq_zero_iff.mp hlen.symm).symm
  | cons i p ih =>
    cases q with
    | nil => cases hlen
    | cons j q =>
      rw [pathBits, pathBits, List.flatMap_cons, List.flatMap_cons] at h
      obtain ⟨hfirst, hrest⟩ := List.append_inj h (by simp)
      rw [bits_four_injective i j hfirst, ih (by simpa using hlen) hrest]

def bitRange (key : Key) (level n : ℕ) : List Bool :=
  (List.range' level n).map fun i => key.getLsbD (255 - i)

def keyBits (key : Key) : List Bool :=
  bitRange key 0 treeDepth

@[simp] theorem length_bitRange (key : Key) (level n : ℕ) : (bitRange key level n).length = n := by
  simp [bitRange]

@[simp] theorem length_keyBits (key : Key) : (keyBits key).length = treeDepth :=
  length_bitRange ..

theorem bitRange_add (key : Key) (level n k : ℕ) :
    bitRange key level (n + k) = bitRange key level n ++ bitRange key (level + n) k := by
  rw [bitRange, bitRange, bitRange, ← List.map_append, List.range'_append_1]

theorem keyBits_eq_append {level : ℕ} (key : Key) (hlevel : level ≤ treeDepth) :
    keyBits key = bitRange key 0 level ++ bitRange key level (treeDepth - level) := by
  have h := bitRange_add key 0 level (treeDepth - level)
  rwa [Nat.add_sub_cancel' hlevel, Nat.zero_add] at h

theorem reverse_bitRange (key : Key) (level : ℕ) :
    (bitRange key level (treeDepth - level)).reverse =
      (List.range (treeDepth - level)).map key.getLsbD := by
  rw [bitRange]
  refine List.ext_getElem (by simp) fun i hi hi' => ?_
  have hlt : i < treeDepth - level := by simpa using hi'
  rw [List.getElem_reverse, List.getElem_map, List.getElem_map, List.getElem_range,
    List.getElem_range']
  simp only [List.length_map, List.length_range', treeDepth] at hlt ⊢
  congr 1
  omega

theorem testBit_nibble (key : Key) (n : ℕ) {t : ℕ} (ht : t < 4) :
    (Nibbles.nibble key n).val.testBit t = key.getLsbD (4 * (63 - n) + t) := by
  have hmod := Nat.testBit_mod_two_pow (key.toNat >>> (4 * (63 - n))) 4 t
  rwa [decide_eq_true ht, Bool.true_and, Nat.testBit_shiftRight, BitVec.testBit_toNat] at hmod

theorem bits_four (n : ℕ) : bits 4 n = [n.testBit 3, n.testBit 2, n.testBit 1, n.testBit 0] := by
  simp only [bits, List.nil_append, List.cons_append, Nat.testBit_div_two]

theorem bits_nibble (key : Key) {n : ℕ} (hn : n < keyNibbles) :
    bits 4 (Nibbles.nibble key n) = bitRange key (4 * n) 4 := by
  simp only [keyNibbles] at hn
  rw [bits_four, testBit_nibble key n (by omega), testBit_nibble key n (by omega),
    testBit_nibble key n (by omega), testBit_nibble key n (by omega)]
  simp only [bitRange, List.range'_succ, List.range'_zero, List.map_cons, List.map_nil,
    List.cons.injEq, and_true]
  refine ⟨?_, ?_, ?_, ?_⟩ <;> congr 1 <;> omega

theorem pathBits_new (key : Key) {n : ℕ} (hn : n ≤ keyNibbles) :
    pathBits (Nibbles.new key n) = bitRange key 0 (4 * n) := by
  induction n with
  | zero => rfl
  | succ n ih =>
    rw [Nibbles.new_succ, pathBits_concat, ih (by omega), bits_nibble key (by omega),
      Nat.mul_succ, bitRange_add, Nat.zero_add]

def keyOfBits (bs : List Bool) : Key :=
  (BitVec.ofBoolListBE bs).setWidth 256

theorem getLsbD_keyOfBits {bs : List Bool} (hlen : bs.length = treeDepth) {i : ℕ} (hi : i < 256) :
    (keyOfBits bs).getLsbD i = bs[255 - i]?.getD false := by
  rw [keyOfBits, BitVec.getLsbD_setWidth, decide_eq_true hi, Bool.true_and,
    BitVec.getLsbD_eq_getMsbD, BitVec.getMsbD_ofBoolListBE, hlen, decide_eq_true hi, Bool.true_and,
    List.getD_eq_getElem?_getD]
  rfl

theorem getElem?_keyBits (key : Key) {i : ℕ} (hi : i < 256) :
    (keyBits key)[i]? = some (key.getLsbD (255 - i)) := by
  rw [keyBits, bitRange, List.getElem?_map, List.getElem?_range' hi]
  simp

theorem keyBits_keyOfBits {bs : List Bool} (hlen : bs.length = treeDepth) :
    keyBits (keyOfBits bs) = bs := by
  refine List.ext_getElem? fun i => ?_
  by_cases hi : i < 256
  · obtain ⟨b, hb⟩ : ∃ b, bs[i]? = some b :=
      ⟨_, List.getElem?_eq_getElem (by rw [hlen]; exact hi)⟩
    rw [getElem?_keyBits _ hi, getLsbD_keyOfBits hlen (by omega),
      show 255 - (255 - i) = i by omega, hb, Option.getD_some]
  · rw [List.getElem?_eq_none (by simp only [length_keyBits, treeDepth]; omega),
      List.getElem?_eq_none (by rw [hlen]; simp only [treeDepth]; omega)]

theorem keyOfBits_keyBits (key : Key) : keyOfBits (keyBits key) = key := by
  refine BitVec.eq_of_getLsbD_eq fun i hi => ?_
  rw [getLsbD_keyOfBits (length_keyBits key) hi, getElem?_keyBits key (by omega),
    Option.getD_some, show 255 - (255 - i) = i by omega]

theorem new_keyOfBits {p : Nibbles} {bs : List Bool}
    (hlen : (pathBits p ++ bs).length = treeDepth) :
    Nibbles.new (keyOfBits (pathBits p ++ bs)) p.length = p := by
  have hp : p.length ≤ keyNibbles := by
    simp only [List.length_append, length_pathBits, treeDepth] at hlen
    simp only [keyNibbles]
    omega
  refine pathBits_inj (by simp) ?_
  have hbits := keyBits_keyOfBits hlen
  rw [keyBits_eq_append _ (show 4 * p.length ≤ treeDepth by
    simp only [keyNibbles, treeDepth] at hp ⊢; omega)] at hbits
  rw [pathBits_new _ hp]
  exact (List.append_inj hbits (by simp)).1

theorem keyOfBits_new {key : Key} {p : Nibbles} (hp : p.length ≤ keyNibbles)
    (h : Nibbles.new key p.length = p) :
    keyOfBits (pathBits p ++ bitRange key (4 * p.length) (treeDepth - 4 * p.length)) = key := by
  have hlevel : 4 * p.length ≤ treeDepth := by
    simp only [keyNibbles, treeDepth] at hp ⊢
    omega
  nth_rewrite 1 [← h]
  rw [pathBits_new key hp, ← keyBits_eq_append key hlevel, keyOfBits_keyBits]

theorem key_eq_of_new {key key' : Key}
    (h : Nibbles.new key keyNibbles = Nibbles.new key' keyNibbles) : key = key' := by
  have hlen : (Nibbles.new key' keyNibbles).length = keyNibbles := Nibbles.length_new ..
  have hkey := keyOfBits_new (p := Nibbles.new key' keyNibbles) hlen.le (by rw [hlen, h])
  have hkey' := keyOfBits_new (p := Nibbles.new key' keyNibbles) hlen.le (by rw [hlen])
  rw [hlen] at hkey hkey'
  exact hkey.symm.trans hkey'

end RollupX.MerkleTree
