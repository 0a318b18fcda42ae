import Mathlib.Data.Nat.Bitwise
import RollupX.Verification.MerkleTree.Hashes

/-! `create_proof` finds what the map holds for a key, also where the leaf of another key stands
in its way, and returns the siblings of the plain tree. Only caches change. -/

namespace RollupX.MerkleTree

open SparseMerkle Nibbles WorkingPatchSet

variable {h : HashTree} {db : Database} {patch : WorkingPatchSet}
  {stale : Nibbles → Prop} {t : Layout} {key other : Key} {m : Contents} {n : ℕ} {p : Nibbles}
  {node : InternalNode}

theorem findDivergingBit_spec (hne : key ≠ other) :
    findDivergingBit key other < treeDepth ∧
      other.getLsbD (255 - findDivergingBit key other) =
        !key.getLsbD (255 - findDivergingBit key other) ∧
      ∀ i < findDivergingBit key other, key.getLsbD (255 - i) = other.getLsbD (255 - i) := by
  have hxor : (key ^^^ other).toNat ≠ 0 := by
    intro h0
    exact hne (BitVec.xor_eq_zero_iff.mp (BitVec.eq_of_toNat_eq (by simpa using h0)))
  obtain ⟨top, htop, hhigh⟩ := Nat.exists_most_significant_bit hxor
  have hlt : top < 256 := by
    by_contra hge
    rw [BitVec.testBit_toNat, BitVec.getLsbD_of_ge _ _ (by omega)] at htop
    cases htop
  have hsize : (key ^^^ other).toNat.size = top + 1 := by
    refine le_antisymm (Nat.size_le.mpr (Nat.lt_pow_two_of_testBit _ fun i hi => hhigh i hi)) ?_
    exact Nat.lt_size.mpr (Nat.ge_two_pow_of_testBit htop)
  have hbit : findDivergingBit key other = 255 - top := by
    rw [findDivergingBit, hsize]
    omega
  refine ⟨by rw [hbit]; simp only [treeDepth]; omega, ?_, fun i hi => ?_⟩
  · rw [BitVec.testBit_toNat, BitVec.getLsbD_xor] at htop
    rw [hbit, show 255 - (255 - top) = top by omega]
    revert htop
    cases key.getLsbD top <;> cases other.getLsbD top <;> simp
  · have hzero := hhigh (255 - i) (by omega)
    rw [BitVec.testBit_toNat, BitVec.getLsbD_xor] at hzero
    revert hzero
    cases key.getLsbD (255 - i) <;> cases other.getLsbD (255 - i) <;> simp

theorem le_findDivergingBit (hne : key ≠ other) (hn : n ≤ keyNibbles)
    (hpath : new key n = new other n) : 4 * n ≤ findDivergingBit key other := by
  by_contra hlt
  obtain ⟨-, hdiffer, -⟩ := findDivergingBit_spec hne
  have hbits := pathBits_new key hn
  rw [hpath, pathBits_new other hn, bitRange, bitRange] at hbits
  have hsame := List.map_inj_left.mp hbits (findDivergingBit key other)
    (by rw [List.mem_range'_1]; omega)
  rw [hdiffer] at hsame
  exact Bool.not_ne_self _ hsame

theorem bitRange_split (key : Key) {level b : ℕ} (hlevel : level ≤ b) (hb : b < treeDepth) :
    bitRange key level (treeDepth - level) =
      bitRange key level (b - level) ++
        key.getLsbD (255 - b) :: bitRange key (b + 1) (treeDepth - (b + 1)) := by
  have hupper := bitRange_add key level (b - level) (treeDepth - b)
  have hlower := bitRange_add key b 1 (treeDepth - (b + 1))
  rw [show b - level + (treeDepth - b) = treeDepth - level by omega,
    show level + (b - level) = b by omega] at hupper
  rw [show 1 + (treeDepth - (b + 1)) = treeDepth - b by omega] at hlower
  rw [hupper, hlower]
  rfl

section Start

variable (hw : WellFormed h stale t) (hm : Maps t m)

include hw hm

/-- Below the leaf of another key there are the empty subtrees of its path, and the leaf
itself where the keys part. -/
theorem stands_startPath_of_mismatch {leaf : LeafNode}
    (hleaf : t (new key n) = some (.leaf leaf)) (hkey : leaf.fullKey ≠ key) :
    (startPath h key (.leafMismatch (new key n) leaf)).Stands h (h.siblingsFrom m key n) := by
  have hle : n ≤ keyNibbles := by simpa using hw.length_le hleaf
  have hpath : new key n = new leaf.fullKey n := by
    have := (hw.leaf hleaf).1
    rwa [OnPath, length_new] at this
  obtain ⟨hlt, hdiffer, hsame⟩ := findDivergingBit_spec (Ne.symm hkey)
  have hlevel := le_findDivergingBit (Ne.symm hkey) hle hpath
  set b := findDivergingBit key leaf.fullKey with hb
  have hcommon : bitRange leaf.fullKey (4 * n) (b - 4 * n) = bitRange key (4 * n) (b - 4 * n) := by
    rw [bitRange, bitRange]
    refine List.map_congr_left fun i hi => (hsame i ?_).symm
    rw [List.mem_range'_1] at hi
    omega
  have hother := bitRange_split leaf.fullKey hlevel hlt
  rw [hcommon, hdiffer] at hother
  have hleafBits := hm.byBits_of_leaf hw hleaf
  have hnone := hm.byBits_of_leaf_ne hw hleaf
  rw [length_new, hother] at hleafBits hnone
  have hdepth : (bitRange key (b + 1) (treeDepth - (b + 1))).length + 1 + (b - 4 * n) =
      treeDepth - 4 * n := by
    rw [length_bitRange]
    omega
  have hsiblings := siblings_of_lone_other (h := h.plain) (b := key.getLsbD (255 - b))
    (m := below (byBits m) (pathBits (new key n))) (c := bitRange key (4 * n) (b - 4 * n))
    (s := bitRange key (b + 1) (treeDepth - (b + 1)))
    (u := bitRange leaf.fullKey (b + 1) (treeDepth - (b + 1))) fun q hq hne => by
      refine hnone q ?_ hne
      rw [hq, length_bitRange, length_bitRange]
      omega
  rw [← bitRange_split key hlevel hlt, length_bitRange, length_bitRange] at hsiblings
  have hhash : leaf.hash h (b + 1) = h.plain.root (treeDepth - (b + 1))
      (below (below (byBits m) (pathBits (new key n)))
        (bitRange key (4 * n) (b - 4 * n) ++ [!key.getLsbD (255 - b)])) := by
    refine LeafNode.hash_eq leaf (b + 1) ?_ fun bs hlen hne => ?_
    · rw [below_apply, List.append_assoc, List.singleton_append]
      exact hleafBits
    · rw [below_apply, List.append_assoc, List.singleton_append]
      refine hnone _ ?_ fun heq => hne ?_
      · simp only [List.length_append, List.length_cons, length_bitRange, hlen]
        omega
      · exact (List.cons.inj (List.append_inj heq rfl).2).2
  rw [HashTree.siblingsFrom, hsiblings, startPath, ← hb, ← hhash, length_new]
  have hstart := (MerklePath.stands_new (h := h)
    (show b + 1 + (treeDepth - (b + 1)) = treeDepth by omega)).push (by simp [MerklePath.new])
      (some (leaf.hash h (b + 1)))
  have hup := hstart.iterate_push (n := b + 1 - (4 * n + 1)) (by
    simp only [MerklePath.push, MerklePath.new]
    omega)
  rw [Option.getD_some, List.length_append, length_emptySiblings, List.length_singleton,
    Nat.add_sub_add_right] at hup
  rw [Nat.add_sub_add_right]
  exact hup

theorem siblingsFrom_of_none (hparent : t (new key n) = some (.internal node))
    (hnone : t (new key (n + 1)) = none) :
    h.siblingsFrom m key (n + 1) = h.plain.emptySiblings 0 (treeDepth - 4 * (n + 1)) := by
  rw [new_succ] at hnone
  have hbits := hm.byBits_of_none hw hparent hnone
  rw [length_new, ← new_succ] at hbits
  have hempty := siblings_of_none (h := h.plain) (d := 0)
    (m := below (byBits m) (pathBits (new key (n + 1))))
    (p := bitRange key (4 * (n + 1)) (treeDepth - 4 * (n + 1))) fun q hq _ =>
      hbits q (by simpa using hq)
  rwa [length_bitRange] at hempty

theorem stands_startPath (hle : n ≤ keyNibbles) (hpos : 0 < n) (hends : Ends t key n) :
    (startPath h key (outcomeAt t key n)).Stands h (h.siblingsFrom m key n) := by
  have hempty : (MerklePath.new (n * 4)).Stands h (h.plain.emptySiblings 0 (treeDepth - 4 * n)) :=
    MerklePath.stands_new (by simp only [treeDepth, keyNibbles] at hle ⊢; omega)
  rcases hends.cases with hx | ⟨leaf, hx⟩ <;> simp only [outcomeAt, hx]
  · obtain ⟨n, rfl⟩ := Nat.exists_eq_succ_of_ne_zero hpos.ne'
    obtain ⟨node, hnode⟩ := hends.internal n (by omega)
    rw [startPath, length_new, siblingsFrom_of_none hw hm hnode hx]
    exact hempty
  · by_cases hkey : leaf.fullKey = key
    · simp only [hkey, if_true]
      rw [startPath, length_new, siblingsFrom_of_leaf hw hm hx hkey]
      exact hempty
    · simp only [hkey, if_false]
      exact stands_startPath_of_mismatch hw hm hx hkey
def TraverseOutcome.found : TraverseOutcome → Option LeafNode
  | .leafMatch _ leaf => some leaf
  | .leafMismatch _ _ | .missingChild _ => none

theorem found_outcomeAt (hends : Ends t key n) :
    (outcomeAt t key n).found = (m key).map fun v => ⟨key, v.1, v.2⟩ := by
  rcases hends.cases with hx | ⟨leaf, hx⟩ <;> simp only [outcomeAt, hx]
  · rw [hm.eq_none hw hends (by simp [hx])]
    rfl
  · by_cases hkey : leaf.fullKey = key
    · subst hkey
      rw [(hm leaf).mpr ⟨_, hx⟩]
      simp [TraverseOutcome.found]
    · rw [hm.eq_none_of_leaf hw hx hkey]
      simp [hkey, TraverseOutcome.found]

end Start

theorem Working.setCache (hwork : Working h db patch stale t) {prev : Option ℕ}
    (hp : patch.changes p = some ⟨.internal node, prev⟩) (cache : InternalNodeCache)
    (hcache : cache = (InternalNode.hashInner h node.childHashes (4 * p.length)).2) :
    Working h db (patch.insert p (.internal { node with cache := some cache })) stale
      (Function.update t p (some (.internal { node with cache := some cache }))) := by
  refine hwork.setNode hp (fun cache' hc => ?_) (hwork.wf.internal (hwork.agree p _ hp)).2.2
    (fun i ref href => ⟨ref, href, rfl, rfl⟩) (.inl rfl) fun q _ hq => hq
  cases hc
  exact ⟨_, fun _ _ => rfl, hcache⟩

theorem CacheOk.full (hcache : CacheOk h stale p node) (hchild : ∀ i, ¬stale (p ++ [i])) :
    node.CacheOk h (4 * p.length) := by
  intro cache hc
  obtain ⟨f, hf, heq⟩ := hcache cache hc
  rw [heq, show f = node.childHashes from funext fun i => hf i (hchild i)]

theorem extendPathUp_eq {r : ℕ} (hstale : ∀ q, stale q → q.length ≤ r) (hrn : r ≤ n)
    {path : MerklePath} (hwork : Working h db patch stale t) (hm : Maps t m)
    (hloaded : Loaded patch t key)
    (hinternal : ∀ j < n, ∃ node, t (new key j) = some (.internal node))
    (hpath : path.Stands h (h.siblingsFrom m key n)) :
    ∃ path' patch' t', extendPathUp h r (new key n).reverse patch path = some (path', patch') ∧
      Proved h db stale m key r patch t path' patch' t' ∧ (0 < r → t' [] = t []) := by
  induction n, hrn using Nat.le_induction generalizing path patch t with
  | base =>
    refine ⟨path, patch, t, ?_, ⟨hpath, hwork, hm, Grows.refl ..⟩, fun _ => rfl⟩
    cases r with
    | zero => rfl
    | succ r =>
      rw [reverse_new_succ, extendPathUp, List.length_reverse, length_new,
        if_pos (Nat.lt_succ_self r)]
  | succ n hn ih =>
    obtain ⟨node, hnode⟩ := hinternal n (by omega)
    obtain ⟨prev, hchange⟩ := hwork.exists_change hloaded hnode
    have hlt := (hwork.wf.internal hnode).1
    rw [length_new] at hlt
    have hclean : ∀ i, Clean stale (new key n ++ [i]) := by
      intro i q hq
      have := hstale _ hq
      simp only [List.length_append, length_new, List.length_singleton] at this
      omega
    have hcache := (hwork.wf.internal hnode).2.1.full fun i => by simpa using hclean i []
    have hlevels := hwork.wf.levelHashes hm hnode hclean
    rw [length_new] at hcache hlevels
    have hstands := stands_extendMerklePath (by
      simp only [treeDepth, keyNibbles] at hlt ⊢
      omega) hlevels hcache hpath (by simp) (nibble key n)
    rw [← siblingsFrom_eq_append hlt] at hstands
    obtain ⟨cache, hfill, heq⟩ : ∃ cache,
        (node.extendMerklePath h (4 * n) (nibble key n) path).2 =
          { node with cache := some cache } ∧
        cache = (InternalNode.hashInner h node.childHashes (4 * n)).2 := by
      cases hc : node.cache with
      | none => exact ⟨_, by simp only [InternalNode.extendMerklePath, hc], rfl⟩
      | some cache =>
        exact ⟨cache, by simp only [InternalNode.extendMerklePath, hc], hcache cache hc⟩
    have hwork' := hwork.setCache hchange cache (by rw [length_new, heq])
    have hgrows := Grows.setNode { node with cache := some cache } hwork hchange
      (onPath_new key n)
    obtain ⟨path', patch', t', hrun, hproved, htop⟩ := ih hwork'
      (hm.setNode _ hwork hchange) (hgrows.loaded key hloaded) (fun j hj => by
        obtain ⟨inner, hinner⟩ := hinternal j (by omega)
        exact hgrows.internal _ inner hinner) hstands
    refine ⟨path', patch', t', ?_, hproved.trans hgrows, fun hr => ?_⟩
    swap
    · rw [htop hr, Function.update_of_ne]
      intro heq
      have := congrArg List.length heq
      simp only [length_new, List.length_nil] at this
      omega
    rw [reverse_new_succ, extendPathUp, List.length_reverse, length_new, if_neg (by omega),
      List.reverse_reverse, get_of_changes hchange]
    simp only [Nat.mul_comm n 4]
    rw [← hrun, hfill]

/-- `create_proof` never panics. It returns what the map holds and the siblings above. -/
theorem createProof_eq {r : ℕ} (hr : r ≤ 1) (hstale : ∀ q, stale q → q.length ≤ r)
    (hwork : Working h db patch stale t) (hm : Maps t m) (hloaded : Loaded patch t key)
    {start : ℕ} (hstart : ∀ j < start, ∃ node, t (new key j) = some (.internal node)) :
    ∃ path patch' t', patch.createProof h key (new key start) r =
        some ((m key).map fun v => ⟨key, v.1, v.2⟩, path, patch') ∧
      Proved h db stale m key r patch t path patch' t' ∧ (0 < r → t' [] = t []) := by
  obtain ⟨n, hle, hends⟩ := hwork.wf.exists_ends key
  have hn := hwork.ends_pos hends
  have hstart' := hends.le_of_internal hstart
  obtain ⟨path, patch', t', hrun, hproved⟩ := extendPathUp_eq hstale (by omega) hwork hm hloaded
    hends.internal (stands_startPath hwork.wf hm hle hn hends)
  refine ⟨path, patch', t', ?_, hproved⟩
  rw [createProof, hwork.traverse_eq hloaded hends hstart' hle, Option.bind_eq_bind,
    Option.bind_some, position_outcomeAt, hrun, ← found_outcomeAt hwork.wf hm hends]
  cases outcomeAt t key n <;> rfl

def readLog : Option TreeValue → TreeLogEntry
  | none => .readMissingKey
  | some (value, leafIndex) => .read leafIndex value

theorem prove_eq {updater : TreeUpdater} (hwork : Working h db updater.patchSet RootStale t)
    (hm : Maps t m) (hloaded : Loaded updater.patchSet t key) {start : ℕ}
    (hstart : ∀ j < start, ∃ node, t (new key j) = some (.internal node)) :
    ∃ path patch' t', updater.prove h key (new key start) =
        some (readLog (m key), path, ⟨patch', updater.newLeaves⟩) ∧
      Proved h db RootStale m key 1 updater.patchSet t path patch' t' ∧ t' [] = t [] := by
  obtain ⟨path, patch', t', hrun, hproved, htop⟩ :=
    createProof_eq le_rfl (fun _ hq => hq) hwork hm hloaded hstart
  refine ⟨path, patch', t', ?_, hproved, htop Nat.one_pos⟩
  rw [TreeUpdater.prove, hrun]
  cases m key <;> rfl

end RollupX.MerkleTree
