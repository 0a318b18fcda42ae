import RollupX.Verification.MerkleTree.Parts

/-! Merging the parts: the logs come back into the order of the instructions, and the root node
takes in the hashes of the subtrees one after another. -/

namespace RollupX.MerkleTree

open SparseMerkle Nibbles

variable {h : HashTree} {m : Contents} {version : ℕ} {root : InternalNode} {path : MerklePath}

section Merge

variable {A T : Type*} (part : A → Nibble) (index : A → ℕ) (value : A → T)

def partItems (items : List A) (i : Nibble) : List (ℕ × T) :=
  (items.filter (part · = i)).map fun x => (index x, value x)

variable {part index value}

theorem partItems_cons_self (x : A) (items : List A) :
    partItems part index value (x :: items) (part x) =
      (index x, value x) :: partItems part index value items (part x) := by
  simp [partItems]

theorem partItems_cons_of_ne {x : A} {i : Nibble} (hi : i ≠ part x) (items : List A) :
    partItems part index value (x :: items) i = partItems part index value items i := by
  rw [partItems, List.filter_cons_of_neg (by simpa using hi.symm)]
  rfl

theorem update_partItems (x : A) (items : List A) :
    Function.update (partItems part index value (x :: items)) (part x)
      (partItems part index value items (part x)) = partItems part index value items := by
  funext i
  rcases eq_or_ne i (part x) with rfl | hne
  · rw [Function.update_self]
  · rw [Function.update_of_ne hne, partItems_cons_of_ne hne]

theorem nextPart_partItems {x : A} {items : List A}
    (hsorted : (x :: items).Pairwise (index · < index ·)) :
    nextPart (partItems part index value (x :: items)) = some (part x) := by
  have hmem : ∀ {item : ℕ × Nibble}, item ∈ (List.finRange 16).filterMap (fun i =>
        (partItems part index value (x :: items) i).head?.map fun item => (item.1, i)) →
      item = (index x, part x) ∨ index x < item.1 := by
    intro item hitem
    obtain ⟨i, -, hi⟩ := List.mem_filterMap.mp hitem
    obtain ⟨first, hfirst, rfl⟩ := Option.map_eq_some_iff.mp hi
    rcases eq_or_ne i (part x) with rfl | hne
    · rw [partItems_cons_self, List.head?_cons, Option.some.injEq] at hfirst
      exact .inl (by rw [← hfirst])
    · rw [partItems_cons_of_ne hne] at hfirst
      obtain ⟨y, hy, rfl⟩ := List.mem_map.mp (List.mem_of_head? hfirst)
      exact .inr (List.rel_of_pairwise_cons hsorted (List.mem_filter.mp hy).1)
  have hself : (index x, part x) ∈ (List.finRange 16).filterMap (fun i =>
      (partItems part index value (x :: items) i).head?.map fun item => (item.1, i)) :=
    List.mem_filterMap.mpr ⟨part x, List.mem_finRange _, by rw [partItems_cons_self]; rfl⟩
  rw [nextPart, Option.map_eq_some_iff]
  refine ⟨(index x, part x), List.argmin_eq_some_iff.mpr ⟨hself, fun item hitem => ?_,
    fun item hitem hle => ?_⟩, rfl⟩
  · rcases hmem hitem with rfl | hlt
    · exact le_rfl
    · exact hlt.le
  · rcases hmem hitem with rfl | hlt
    · exact le_rfl
    · exact absurd hle (not_le.mpr hlt)

theorem mergeItems_partItems {items : List A} (hsorted : items.Pairwise (index · < index ·)) :
    mergeItems items.length (partItems part index value items) =
      items.map fun x => (part x, value x) := by
  induction items with
  | nil => rfl
  | cons x items ih =>
    rw [List.length_cons, mergeItems, nextPart_partItems hsorted]
    simp only [partItems_cons_self, update_partItems]
    rw [ih hsorted.tail, List.map_cons]

theorem sum_length_partItems (items : List A) :
    ((List.finRange 16).map fun i => (partItems part index value items i).length).sum =
      items.length := by
  rw [← List.ofFn_eq_map, List.sum_ofFn]
  induction items with
  | nil => simp [partItems]
  | cons x items ih =>
    rw [← Finset.add_sum_erase _ _ (Finset.mem_univ (part x))] at ih ⊢
    rw [partItems_cons_self, List.length_cons, Finset.sum_congr rfl fun i hi => by
      rw [partItems_cons_of_ne (Finset.ne_of_mem_erase hi)], List.length_cons, ← ih]
    omega

/-- Merging by index undoes the split into parts. -/
theorem mergeByIndex_partItems (part : A → Nibble) (value : A → T) {items : List A}
    (hsorted : items.Pairwise (index · < index ·)) :
    mergeByIndex (partItems part index value items) = items.map fun x => (part x, value x) := by
  rw [mergeByIndex, sum_length_partItems, mergeItems_partItems hsorted]

end Merge

/-- The references of the root node have the hashes of the subtrees. -/
structure RootOk (h : HashTree) (m : Contents) (root : InternalNode) : Prop where
  levels : LevelHashes h 4 (treeDepth - 4) root.childHashes (byBits m)
  cache : root.CacheOk h 0

theorem RootOk.hash_eq (hroot : RootOk h m root) : root.hash h 0 = h.treeHash m :=
  hashInner_eq (show 0 + 4 + (treeDepth - 4) = treeDepth from rfl) hroot.levels

theorem RootOk.extendMerklePath (hroot : RootOk h m root) (key : Key)
    (hpath : path.Stands h (h.siblingsFrom m key 1)) :
    (root.extendMerklePath h 0 (nibble key 0) path).1.Stands h (h.keySiblings m key) ∧
      RootOk h m (root.extendMerklePath h 0 (nibble key 0) path).2 ∧
      (root.extendMerklePath h 0 (nibble key 0) path).2.children = root.children := by
  have hstands := stands_extendMerklePath rfl hroot.levels hroot.cache hpath (by simp)
    (nibble key 0)
  refine ⟨?_, ⟨hroot.levels, fun cache hc => ?_⟩, rfl⟩
  · rw [← siblingsFrom_zero, siblingsFrom_eq_append (by decide)]
    exact hstands
  · rw [InternalNode.extendMerklePath, Option.some.injEq] at hc
    subst hc
    cases hcache : root.cache with
    | none => rfl
    | some cache => exact hroot.cache cache hcache

theorem exists_ensureChildRef (root : InternalNode) (i : Nibble) (version : ℕ) (isLeaf : Bool) :
    ∃ ref, root.ensureChildRef i version isLeaf = root.insertChildRef i ref ∧
      ref.version = version ∧ ref.isLeaf = isLeaf := by
  rw [InternalNode.ensureChildRef]
  cases root.children i with
  | some ref => exact ⟨_, rfl, rfl, rfl⟩
  | none =>
    refine ⟨_, rfl, ?_, ?_⟩
    · split <;> rfl
    · cases isLeaf <;> rfl

theorem RootOk.updateChildHash {i : Nibble} (hroot : RootOk h m root) (m' : Contents)
    (hm' : ∀ key, nibble key 0 ≠ i → m key = m' key) (version : ℕ) (isLeaf : Bool) :
    ∃ root' ref, (root.ensureChildRef i version isLeaf).updateChildHash h 0 i
        (h.subtreeHash m' i) = some (h.treeHash m', root') ∧
      RootOk h m' root' ∧ root'.children i = some ref ∧ ref.version = version ∧
      ref.isLeaf = isLeaf ∧ ∀ j, j ≠ i → root'.children j = root.children j := by
  obtain ⟨ref, hensure, hversion, hleaf⟩ := exists_ensureChildRef root i version isLeaf
  have hcache : CacheOk h (fun q => q = [i]) [] (root.insertChildRef i ref) := by
    intro cache hc
    refine ⟨root.childHashes, fun j hj => ?_, hroot.cache cache hc⟩
    rw [childHashes_insertChildRef_of_ne (by rintro rfl; exact hj rfl)]
  have hupdate := updateChildHash_eq hcache (fun j hj heq => hj (List.singleton_inj.mp heq))
    children_insertChildRef_self (h.subtreeHash m' i)
  rw [List.length_nil, Nat.mul_zero, ← hensure] at hupdate
  set root' := (root.ensureChildRef i version isLeaf).rehashed h 0 i
    { ref with hash := h.subtreeHash m' i } with hroot'
  have hchildren : ∀ j, root'.children j =
      (root.insertChildRef i { ref with hash := h.subtreeHash m' i }).children j := by
    intro j
    rw [hroot', children_rehashed, hensure, InternalNode.insertChildRef_insertChildRef]
  have hok : RootOk h m' root' := by
    refine ⟨fun j => ?_, fun cache hc => ?_⟩
    · rw [InternalNode.childHashes, hchildren]
      rcases eq_or_ne j i with rfl | hne
      · rw [children_insertChildRef_self]
        rfl
      · rw [children_insertChildRef_of_ne hne]
        exact (hroot.levels j).trans (subtreeHash_congr fun key hkey => hm' key (hkey ▸ hne))
    · rw [hroot', InternalNode.rehashed, Option.some.injEq] at hc
      rw [hroot', childHashes_rehashed, hc]
  refine ⟨root', { ref with hash := h.subtreeHash m' i }, ?_, hok, ?_, hversion, hleaf,
    fun j hj => ?_⟩
  · rw [hupdate, hok.hash_eq]
  · rw [hchildren, children_insertChildRef_self]
  · rw [hchildren, children_insertChildRef_of_ne hj]

theorem isRead_log (instruction : TreeInstruction) :
    (instruction.log m).isRead = true ↔ ∃ key, instruction = .read key := by
  cases instruction with
  | read key =>
    cases hkey : m key <;> simp [TreeInstruction.log, readLog, TreeLogEntry.isRead, hkey]
  | write entry =>
    cases hkey : m entry.key <;> simp [TreeInstruction.log, writeLog, TreeLogEntry.isRead, hkey]

theorem MerklePath.Stands.fullLog (instruction : TreeInstruction)
    (hpath : path.Stands h (h.keySiblings (instruction.apply m) instruction.key)) :
    FullLog h m instruction
      ⟨instruction.log m, path.hashes, h.treeHash (instruction.apply m)⟩ := by
  obtain ⟨hextend, hlen⟩ := hpath.extendMerklePath (by simp [HashTree.keySiblings])
  exact ⟨rfl, rfl, hextend, hlen⟩

def partLog (instruction : TreeInstruction) (log : TreeLogEntryWithProof MerklePath) :
    Nibble × TreeLogEntryWithProof MerklePath :=
  (nibble instruction.key 0, log)

/-- A child of the root that is written to gets the new version; the others stay as they are. -/
structure RootSet (version : ℕ) (isLeafBySubtree : Nibble → Bool)
    (instructions : List TreeInstruction) (root root' : InternalNode) : Prop where
  kept : ∀ i, Untouched instructions i → root'.children i = root.children i
  set : ∀ entry, .write entry ∈ instructions → ∃ ref,
    root'.children (nibble entry.key 0) = some ref ∧ ref.version = version ∧
      ref.isLeaf = isLeafBySubtree (nibble entry.key 0)

theorem finalizeLogsLoop_eq (version : ℕ) (isLeafBySubtree : Nibble → Bool)
    {instructions : List TreeInstruction} {logs : List (TreeLogEntryWithProof MerklePath)}
    (hlogs : Logs (PartLog h) m instructions logs) (hroot : RootOk h m root) :
    ∃ logs' root', TreeUpdater.finalizeLogsLoop h version isLeafBySubtree
        (List.zipWith partLog instructions logs) root (h.treeHash m) = some (logs', root') ∧
      Logs (FullLog h) m instructions logs' ∧ RootOk h (applyAll m instructions) root' ∧
      RootSet version isLeafBySubtree instructions root root' := by
  induction hlogs generalizing root with
  | nil m => exact ⟨[], root, rfl, .nil m, hroot, fun _ _ => rfl, by simp⟩
  | @cons m instruction instructions log logs hlog _ ih =>
    obtain ⟨hbase, hhash, hpath⟩ := hlog
    rw [List.zipWith_cons_cons, partLog]
    cases instruction with
    | read key =>
      obtain ⟨hstands, hroot₁, hchildren₁⟩ := hroot.extendMerklePath key hpath
      have hfull := MerklePath.Stands.fullLog (m := m) (.read key) hstands
      rw [← hbase] at hfull
      obtain ⟨logs', root', hrun, hlogs', hroot', hkeep, hset⟩ := ih hroot₁
      have hread : log.base.isRead = true := by
        rw [hbase]
        exact (isRead_log _).mpr ⟨key, rfl⟩
      refine ⟨_ :: logs', root', ?_, .cons hfull hlogs', hroot', fun i hi => ?_,
        fun entry hentry => ?_⟩
      · simp only [TreeInstruction.apply] at hrun
        simp only [TreeUpdater.finalizeLogsLoop, hread, if_true, Option.bind_eq_bind,
          Option.bind_some, TreeInstruction.key, hrun]
        rfl
      · rw [hkeep i fun entry hentry => hi entry (List.mem_cons_of_mem _ hentry), hchildren₁]
      · exact hset entry (by simpa using hentry)
    | write entry =>
      obtain ⟨root₁, ref, hupdate, hroot₁, href, hversion, hleaf, hother⟩ :=
        hroot.updateChildHash (i := nibble entry.key 0) (TreeInstruction.apply m (.write entry))
          (fun key hkey => (TreeInstruction.apply_of_ne fun heq =>
            hkey (congrArg (nibble · 0) heq)).symm) version
          (isLeafBySubtree (nibble entry.key 0))
      rw [← hhash entry rfl] at hupdate
      obtain ⟨hstands, hroot₂, hchildren₂⟩ := hroot₁.extendMerklePath entry.key hpath
      have hfull := MerklePath.Stands.fullLog (m := m) (.write entry) hstands
      rw [← hbase] at hfull
      obtain ⟨logs', root', hrun, hlogs', hroot', hkeep, hset⟩ := ih hroot₂
      have hwrite : log.base.isRead = false := by
        rw [hbase, ← Bool.not_eq_true, isRead_log]
        rintro ⟨_, ⟨⟩⟩
      refine ⟨_ :: logs', root', ?_, .cons hfull hlogs', hroot', fun i hi => ?_,
        fun other hentry => ?_⟩
      · simp only [TreeUpdater.finalizeLogsLoop, hwrite, Bool.false_eq_true, if_false,
          Option.bind_eq_bind, TreeInstruction.key, hupdate, Option.bind_some, hrun]
        rfl
      · rw [hkeep i fun e he => hi e (List.mem_cons_of_mem _ he), hchildren₂,
          hother i (hi entry List.mem_cons_self).symm]
      · rcases touched_or instructions (nibble other.key 0) with ⟨e, he, heq⟩ | hlater
        · rw [← heq]
          exact hset e he
        · obtain rfl : other = entry := by
            rcases List.mem_cons.mp hentry with heq | hmem
            · cases heq
              rfl
            · exact absurd rfl (hlater other hmem)
          refine ⟨ref, ?_, hversion, hleaf⟩
          rw [hkeep _ hlater, hchildren₂, href]

end RollupX.MerkleTree
