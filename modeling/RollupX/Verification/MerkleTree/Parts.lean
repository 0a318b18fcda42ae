import Mathlib.Algebra.BigOperators.Fin
import Mathlib.Data.FinEnum
import RollupX.Verification.MerkleTree.Load

/-! The instructions run in sixteen parts, one below each child of the root. -/

namespace RollupX.MerkleTree

open Function (update update_of_ne update_self)
open SparseMerkle Nibbles WorkingPatchSet

variable {h : HashTree} {db : Database} {m m' : Contents} {version : ℕ}

def TreeInstruction.apply (m : Contents) : TreeInstruction → Contents
  | .read _ => m
  | .write entry => update m entry.key (some entry.treeValue)

def TreeInstruction.log (m : Contents) : TreeInstruction → TreeLogEntry
  | .read key => readLog (m key)
  | .write entry => writeLog (m entry.key)

def TreeInstruction.added (m : Contents) : TreeInstruction → ℕ
  | .read _ => 0
  | .write entry => if (m entry.key).isSome then 0 else 1

def applyAll (m : Contents) (instructions : List TreeInstruction) : Contents :=
  instructions.foldl (fun m instruction => instruction.apply m) m

@[simp] theorem applyAll_nil : applyAll m [] = m := rfl

@[simp] theorem applyAll_cons (instruction : TreeInstruction)
    (instructions : List TreeInstruction) :
    applyAll m (instruction :: instructions) = applyAll (instruction.apply m) instructions := rfl

theorem TreeInstruction.apply_of_ne {instruction : TreeInstruction} {key : Key}
    (hkey : key ≠ instruction.key) : instruction.apply m key = m key := by
  cases instruction with
  | read _ => rfl
  | write entry => exact update_of_ne hkey ..

theorem TreeInstruction.apply_ne_none {instruction : TreeInstruction} {key : Key}
    (hkey : m key ≠ none) : instruction.apply m key ≠ none := by
  cases instruction with
  | read _ => exact hkey
  | write entry =>
    rcases eq_or_ne key entry.key with rfl | hne
    · simp [apply]
    · rwa [apply, update_of_ne hne]

theorem keyCount_apply (instruction : TreeInstruction) :
    keyCount (instruction.apply m) = keyCount m + instruction.added m := by
  cases instruction with
  | read _ => rfl
  | write entry =>
    have hkeys : {key | TreeInstruction.apply m (.write entry) key ≠ none} =
        insert entry.key {key | m key ≠ none} := by
      ext key
      rcases eq_or_ne key entry.key with rfl | hne
      · simp [TreeInstruction.apply]
      · simp [TreeInstruction.apply, hne]
    rw [keyCount, hkeys, TreeInstruction.added]
    split_ifs with hsome
    · rw [Set.insert_eq_of_mem (by simpa [Option.isSome_iff_ne_none] using hsome)]
      rfl
    · rw [Set.ncard_insert_of_notMem (by simpa [Option.isSome_iff_ne_none] using hsome)]
      rfl

/-- The logs of a run of instructions, each related to the map before it. -/
inductive Logs {P : Type*}
    (R : Contents → TreeInstruction → TreeLogEntryWithProof P → Prop) :
    Contents → List TreeInstruction → List (TreeLogEntryWithProof P) → Prop
  | nil (m : Contents) : Logs R m [] []
  | cons {m : Contents} {instruction : TreeInstruction}
      {instructions : List TreeInstruction} {log : TreeLogEntryWithProof P}
      {logs : List (TreeLogEntryWithProof P)} (head : R m instruction log)
      (tail : Logs R (instruction.apply m) instructions logs) :
      Logs R m (instruction :: instructions) (log :: logs)

theorem Logs.length_eq {P : Type*} {R : Contents → TreeInstruction → TreeLogEntryWithProof P → Prop}
    {instructions : List TreeInstruction} {logs : List (TreeLogEntryWithProof P)}
    (hlogs : Logs R m instructions logs) : instructions.length = logs.length := by
  induction hlogs with
  | nil m => rfl
  | cons _ _ ih => rw [List.length_cons, List.length_cons, ih]

/-- A log as a part makes it: the hash after a write is that of the subtree, and the path ends
below the root. The hash in the log of a read is not used. -/
def PartLog (h : HashTree) (m : Contents) (instruction : TreeInstruction)
    (log : TreeLogEntryWithProof MerklePath) : Prop :=
  log.base = instruction.log m ∧
    (∀ entry, instruction = .write entry →
      log.rootHash = h.subtreeHash (instruction.apply m) (nibble entry.key 0)) ∧
    log.merklePath.Stands h (h.siblingsFrom (instruction.apply m) instruction.key 1)

/-- A finished log: the hash is that of the plain tree, and the path has its siblings. -/
def FullLog (h : HashTree) (m : Contents) (instruction : TreeInstruction)
    (log : TreeLogEntryWithProof (List ValueHash)) : Prop :=
  log.base = instruction.log m ∧
    log.rootHash = h.treeHash (instruction.apply m) ∧
    h.extendMerklePath log.merklePath = h.keySiblings (instruction.apply m) instruction.key ∧
    log.merklePath.length ≤ treeDepth

section Subtree

variable {i : Nibble}

theorem pathBits_singleton (i : Nibble) : pathBits [i] = bits 4 i := by
  simpa using pathBits_concat [] i

theorem byBits_congr (hm : ∀ key, nibble key 0 = i → m key = m' key) {q : List Bool}
    (hq : q.length = treeDepth - 4) :
    below (byBits m) (bits 4 i) q = below (byBits m') (bits 4 i) q := by
  have hlen : (pathBits [i] ++ q).length = treeDepth := by
    rw [List.length_append, length_pathBits, List.length_singleton, hq]
    rfl
  have hpath := new_keyOfBits hlen
  rw [below_apply, below_apply, byBits, byBits, ← pathBits_singleton]
  exact hm _ (List.singleton_inj.mp hpath)

theorem subtreeHash_congr (hm : ∀ key, nibble key 0 = i → m key = m' key) :
    h.subtreeHash m i = h.subtreeHash m' i :=
  root_congr fun _ hq => byBits_congr hm hq

theorem siblingsFrom_one_congr {key : Key} (hkey : nibble key 0 = i)
    (hm : ∀ key, nibble key 0 = i → m key = m' key) :
    h.siblingsFrom m key 1 = h.siblingsFrom m' key 1 := by
  have hbits : pathBits (new key 1) = bits 4 i := by
    rw [← hkey]
    exact pathBits_singleton _
  rw [HashTree.siblingsFrom, HashTree.siblingsFrom, hbits]
  exact siblings_congr fun q hq _ => byBits_congr hm (by simpa using hq)

end Subtree

/-- No write is to a key below this child of the root. -/
def Untouched (instructions : List TreeInstruction) (i : Nibble) : Prop :=
  ∀ entry, .write entry ∈ instructions → nibble entry.key 0 ≠ i

theorem touched_or (instructions : List TreeInstruction) (i : Nibble) :
    (∃ entry, .write entry ∈ instructions ∧ nibble entry.key 0 = i) ∨ Untouched instructions i := by
  by_cases htouched : ∃ entry, .write entry ∈ instructions ∧ nibble entry.key 0 = i
  · exact .inl htouched
  · exact .inr fun entry hentry heq => htouched ⟨entry, hentry, heq⟩

/-- The part below one child of the root, after the instructions `done` of all parts. -/
structure Part (h : HashTree) (db : Database) (version : ℕ) (root : InternalNode)
    (done : List TreeInstruction) (m : Contents) (i : Nibble)
    (updater : TreeUpdater) (t : Layout) : Prop where
  working : Working h db updater.patchSet RootStale t
  version_eq : updater.patchSet.rootVersion = version
  maps : ∃ own, Maps t own ∧ ∀ key, nibble key 0 = i → own key = m key
  only : ∀ j rest, j ≠ i → updater.patchSet.changes (j :: rest) = none
  /-- Without a write the copy of the root is as it was. -/
  root_eq : Untouched done i → t [] = some (.internal root)
  written : ∀ entry, .write entry ∈ done → nibble entry.key 0 = i →
    Loaded updater.patchSet t entry.key ∧ m entry.key ≠ none

theorem Resolved.grows {patch patch' : WorkingPatchSet} {t t' : Layout} {key key' : Key}
    {p : Nibbles} (hresolved : Resolved patch t key p) (hgrows : Grows patch patch' t t' key') :
    Resolved patch' t' key p where
  loaded := hgrows.loaded key hresolved.loaded
  onPath := hresolved.onPath
  internal j hj := by
    obtain ⟨node, hnode⟩ := hresolved.internal j hj
    exact hgrows.internal _ node hnode

section Step

variable {root : InternalNode} {done : List TreeInstruction} {i : Nibble} {updater : TreeUpdater}
  {t : Layout} {instruction : TreeInstruction} {p : Nibbles}

theorem Part.other (hpart : Part h db version root done m i updater t)
    (hi : nibble instruction.key 0 ≠ i) :
    Part h db version root (done ++ [instruction]) (instruction.apply m) i updater t := by
  obtain ⟨own, hown, heq⟩ := hpart.maps
  refine ⟨hpart.working, hpart.version_eq, ⟨own, hown, fun key hkey => ?_⟩, hpart.only,
    fun hdone => hpart.root_eq fun entry hentry => hdone entry (by simp [hentry]),
    fun entry hentry hkey => ?_⟩
  · rw [heq key hkey, TreeInstruction.apply_of_ne]
    rintro rfl
    exact hi hkey
  · rcases List.mem_append.mp hentry with hold | hnew
    · obtain ⟨hloaded, hsome⟩ := hpart.written entry hold hkey
      exact ⟨hloaded, TreeInstruction.apply_ne_none hsome⟩
    · rw [List.mem_singleton] at hnew
      subst hnew
      exact absurd hkey hi

theorem Part.step {updater' : TreeUpdater} {t' : Layout}
    (hpart : Part h db version root done m i updater t) (hi : nibble instruction.key 0 = i)
    (hloaded : Loaded updater.patchSet t instruction.key)
    (hwork : Working h db updater'.patchSet RootStale t')
    (hmaps : ∃ own, Maps t' own ∧ ∀ key, nibble key 0 = i → own key = instruction.apply m key)
    (hgrows : Grows updater.patchSet updater'.patchSet t t' instruction.key)
    (hroot : ∀ key, instruction = .read key → t' [] = t []) :
    Part h db version root (done ++ [instruction]) (instruction.apply m) i updater' t' := by
  refine ⟨hwork, hgrows.version.trans hpart.version_eq, hmaps, fun j rest hj => ?_,
    fun hdone => ?_, fun entry hentry hkey => ?_⟩
  · rw [(hgrows.off j rest (hi ▸ hj)).1]
    exact hpart.only j rest hj
  · cases instruction with
    | read key =>
      rw [hroot key rfl]
      exact hpart.root_eq fun entry hentry => hdone entry (by simp [hentry])
    | write entry => exact absurd hi (hdone entry (by simp))
  · rcases List.mem_append.mp hentry with hold | hnew
    · obtain ⟨hl, hsome⟩ := hpart.written entry hold hkey
      exact ⟨hgrows.loaded _ hl, TreeInstruction.apply_ne_none hsome⟩
    · rw [List.mem_singleton] at hnew
      subst hnew
      exact ⟨hgrows.loaded _ hloaded, by simp [TreeInstruction.apply]⟩

theorem Part.extendStep_eq (hpart : Part h db version root done m i updater t)
    (hi : nibble instruction.key 0 = i)
    (hresolved : Resolved updater.patchSet t instruction.key p) (rootHash : ValueHash) :
    ∃ log updater' t', updater.extendStep h rootHash instruction p = some (log, updater') ∧
      PartLog h m instruction log ∧
      Part h db version root (done ++ [instruction]) (instruction.apply m) i updater' t' ∧
      Grows updater.patchSet updater'.patchSet t t' instruction.key ∧
      updater'.newLeaves = updater.newLeaves + instruction.added m := by
  obtain ⟨own, hown, heq⟩ := hpart.maps
  have hstart := hresolved.internal
  cases instruction with
  | read key =>
    have hp : p = new key p.length := hresolved.onPath
    obtain ⟨path, patch', t', hrun, ⟨hpath, hwork', hm', hgrows⟩, htop⟩ :=
      prove_eq hpart.working hown (show Loaded _ t key from hresolved.loaded) hstart
    rw [← hp] at hrun
    refine ⟨⟨readLog (own key), path, rootHash⟩, ⟨patch', updater.newLeaves⟩, t', ?_,
      ⟨?_, by rintro _ ⟨⟩, ?_⟩, hpart.step hi hresolved.loaded hwork' ⟨own, hm', heq⟩ hgrows
        fun _ _ => htop, hgrows, rfl⟩
    · rw [TreeUpdater.extendStep, hrun]
      rfl
    · rw [heq key hi]
      rfl
    · rw [siblingsFrom_one_congr (show nibble key 0 = i from hi) heq] at hpath
      exact hpath
  | write entry =>
    have heq' : ∀ key, nibble key 0 = i → update own entry.key
        (some entry.treeValue) key = TreeInstruction.apply m (.write entry) key := by
      intro key hkey
      rcases eq_or_ne key entry.key with rfl | hne
      · simp [TreeInstruction.apply]
      · rw [TreeInstruction.apply, update_of_ne hne, update_of_ne hne,
          heq key hkey]
    obtain ⟨leafData, patch₁, hinsert, hinserted⟩ :=
      insert_eq hpart.working hown hresolved.loaded hstart
    obtain ⟨path, patch', t', hrun, hpath, hwork', hm', hgrows⟩ :=
      updateNodeHashes_eq hinserted hresolved.loaded
    have hp : p = new entry.key p.length := hresolved.onPath
    rw [← hp] at hinsert
    refine ⟨⟨writeLog (own entry.key), path, h.subtreeHash (update own entry.key
        (some entry.treeValue)) (nibble entry.key 0)⟩,
      ⟨patch', updater.newLeaves + if (own entry.key).isSome then 0 else 1⟩, t', ?_,
      ⟨?_, fun _ hwrite => ?_, ?_⟩, hpart.step hi hresolved.loaded hwork' ⟨_, hm', heq'⟩ hgrows
        (by rintro _ ⟨⟩), hgrows, ?_⟩
    · rw [TreeUpdater.extendStep, hinsert]
      simp only [Option.bind_eq_bind, Option.bind_some, hrun]
      rfl
    · rw [heq entry.key hi]
      rfl
    · cases hwrite
      exact subtreeHash_congr fun key hkey => heq' key (hkey.trans hi)
    · rw [siblingsFrom_one_congr (show nibble entry.key 0 = i from hi) heq'] at hpath
      exact hpath
    · rw [heq entry.key hi]
      rfl

end Step

def InstructionWithPrecomputes.part (item : InstructionWithPrecomputes) : Nibble :=
  nibble item.instruction.key 0

/-- Running the parts one by one, each over its own instructions, gives the logs of one run over
all of them. -/
theorem exists_extendLoop {root : InternalNode} {items : List InstructionWithPrecomputes}
    {done : List TreeInstruction} {updaters : Nibble → TreeUpdater} {trees : Nibble → Layout}
    (hparts : ∀ i, Part h db version root done m i (updaters i) (trees i))
    (hresolved : ∀ item ∈ items, Resolved (updaters item.part).patchSet (trees item.part)
      item.instruction.key item.parentNibbles) (hashes : Nibble → ValueHash) :
    ∃ (logs : List (TreeLogEntryWithProof MerklePath)) (updaters' : Nibble → TreeUpdater)
        (trees' : Nibble → Layout),
      (∀ i, TreeUpdater.extendLoop h (items.filter (·.part = i)) (updaters i) (hashes i) =
        some (((items.zip logs).filter (·.1.part = i)).map fun x => (x.1.index, x.2),
          updaters' i)) ∧
      Logs (PartLog h) m (items.map (·.instruction)) logs ∧
      (∀ i, Part h db version root (done ++ items.map (·.instruction))
        (applyAll m (items.map (·.instruction))) i (updaters' i) (trees' i)) ∧
      (∑ i, (updaters' i).newLeaves) + keyCount m =
        (∑ i, (updaters i).newLeaves) + keyCount (applyAll m (items.map (·.instruction))) := by
  induction items generalizing done m updaters trees hashes with
  | nil =>
    refine ⟨[], updaters, trees, fun i => rfl, .nil m, ?_, rfl⟩
    simpa using hparts
  | cons item items ih =>
    obtain ⟨log, updater', t', hstep, hlog, hpart, hgrows, hleaves⟩ :=
      (hparts item.part).extendStep_eq rfl (hresolved item List.mem_cons_self)
        (hashes item.part)
    have hparts₁ : ∀ i, Part h db version root (done ++ [item.instruction])
        (item.instruction.apply m) i (update updaters item.part updater' i)
        (update trees item.part t' i) := by
      intro i
      rcases eq_or_ne i item.part with rfl | hne
      · rw [update_self, update_self]
        exact hpart
      · rw [update_of_ne hne, update_of_ne hne]
        exact (hparts i).other fun heq => hne heq.symm
    have hresolved₁ : ∀ other ∈ items,
        Resolved (update updaters item.part updater' other.part).patchSet
          (update trees item.part t' other.part) other.instruction.key
          other.parentNibbles := by
      intro other hother
      have hold := hresolved other (List.mem_cons_of_mem _ hother)
      rcases eq_or_ne other.part item.part with heq | hne
      · rw [heq] at hold ⊢
        rw [update_self, update_self]
        exact hold.grows hgrows
      · rwa [update_of_ne hne, update_of_ne hne]
    obtain ⟨logs, updaters', trees', hrun, hlogs, hparts', hcount⟩ := ih hparts₁ hresolved₁
      (update hashes item.part log.rootHash)
    refine ⟨log :: logs, updaters', trees', fun i => ?_, .cons hlog hlogs, ?_, ?_⟩
    · have hi := hrun i
      rcases eq_or_ne item.part i with rfl | hne
      · rw [update_self, update_self] at hi
        rw [List.filter_cons_of_pos (by simp), TreeUpdater.extendLoop, hstep,
          List.zip_cons_cons, List.filter_cons_of_pos (by simp)]
        simp only [Option.bind_eq_bind, Option.bind_some, hi]
        rfl
      · rw [update_of_ne hne.symm, update_of_ne hne.symm] at hi
        rw [List.filter_cons_of_neg (by simpa using hne), List.zip_cons_cons,
          List.filter_cons_of_neg (by simpa using hne), hi]
    · simpa using hparts'
    · have hsum : ∑ i, (update updaters item.part updater' i).newLeaves =
          (∑ i, (updaters i).newLeaves) + item.instruction.added m := by
        rw [← Finset.add_sum_erase _ _ (Finset.mem_univ item.part), update_self,
          ← Finset.add_sum_erase _ (fun i => (updaters i).newLeaves)
            (Finset.mem_univ item.part), hleaves,
          Finset.sum_congr rfl fun i hi => by
            rw [update_of_ne (Finset.ne_of_mem_erase hi)]]
        omega
      rw [keyCount_apply, hsum] at hcount
      rw [List.map_cons, applyAll_cons]
      omega

end RollupX.MerkleTree
