import RollupX.Library.Commitment
import RollupX.Library.Sha256
import RollupX.Verification.MerkleTree.History

/-! The checks of Merkle paths. They accept everything the tree returns, and what they accept is
right, whoever made it, unless two of the hashed messages collide. -/

namespace RollupX.MerkleTree

open Commitment SparseMerkle Nibbles

variable {h : HashTree} {m : Contents} {key : Key} {instruction : TreeInstruction}
  {instructions : List TreeInstruction} {log : TreeLogEntryWithProof (List ValueHash)}
  {logs : List (TreeLogEntryWithProof (List ValueHash))} {output : BlockOutputWithProofs}
  {path : List ValueHash} {r : ValueHash}

def entryAt (m : Contents) (key : Key) : TreeEntry :=
  match m key with
  | some v => ⟨key, v.1, v.2⟩
  | none => TreeEntry.empty key

@[simp] theorem key_entryAt : (entryAt m key).key = key := by
  unfold entryAt
  split <;> rfl

theorem hashLeaf_entryAt :
    h.hashLeaf (entryAt m key).value (entryAt m key).leafIndex = h.plain.leafHash (m key) := by
  unfold entryAt
  cases m key with
  | some v => rfl
  | none => exact h.empty_zero.symm

theorem entryAt_write (entry : TreeEntry) :
    entryAt (TreeInstruction.apply m (.write entry)) entry.key = entry := by
  simp [entryAt, TreeInstruction.apply, TreeEntry.treeValue]

theorem previousEntry_log (instruction : TreeInstruction) :
    (instruction.log m).previousEntry instruction.key = entryAt m instruction.key := by
  unfold entryAt
  cases instruction with
  | read key =>
    rw [TreeInstruction.log, TreeInstruction.key]
    cases m key <;> rfl
  | write entry =>
    rw [TreeInstruction.log, TreeInstruction.key]
    cases m entry.key <;> rfl

theorem byBits_keyBits : byBits m (keyBits key) = m key := by
  rw [byBits, keyOfBits_keyBits]

theorem keySiblings_apply (instruction : TreeInstruction) :
    h.keySiblings (instruction.apply m) instruction.key = h.keySiblings m instruction.key := by
  refine siblings_congr fun q hq hne => TreeInstruction.apply_of_ne fun heq => hne ?_
  rw [← heq, keyBits_keyOfBits (by simpa using hq)]

theorem foldMerklePath_of_siblings (hlen : path.length ≤ treeDepth)
    (hpath : h.extendMerklePath path = h.keySiblings m key) :
    h.foldMerklePath path (entryAt m key) = h.treeHash m := by
  have hclimb := climb_siblings (h := h.plain) 0 (byBits m) (keyBits key)
  rw [root_zero, below_apply, List.append_nil, Nat.add_zero, length_keyBits,
    byBits_keyBits] at hclimb
  rw [foldMerklePath_eq hlen, key_entryAt, hashLeaf_entryAt, hpath]
  exact hclimb

section Logs

variable {R : Contents → TreeInstruction → TreeLogEntryWithProof (List ValueHash) → Prop}

theorem Logs.get (hlogs : Logs R m instructions logs) {i : ℕ}
    (hi : instructions[i]? = some instruction) (hlog : logs[i]? = some log) :
    R (applyAll m (instructions.take i)) instruction log := by
  induction hlogs generalizing i with
  | nil m => cases hi
  | cons hhead _ ih =>
    cases i with
    | zero =>
      cases hi
      cases hlog
      exact hhead
    | succ i => exact ih hi hlog

theorem Logs.rootHash_eq (hlogs : Logs R m instructions logs)
    (hR : ∀ {m instruction log}, R m instruction log →
      log.rootHash = h.treeHash (instruction.apply m)) {rootHash : ValueHash}
    (hroot : logs.getLast?.map (·.rootHash) = some rootHash) :
    rootHash = h.treeHash (applyAll m instructions) := by
  induction hlogs with
  | nil m => cases hroot
  | @cons m instruction instructions log logs hhead htail ih =>
    rw [List.getLast?_cons, Option.map_some, Option.some.injEq] at hroot
    cases hlast : logs.getLast? with
    | some last =>
      rw [hlast, Option.getD_some] at hroot
      exact ih (by rw [hlast, Option.map_some, hroot])
    | none =>
      rw [List.getLast?_eq_none_iff] at hlast
      subst hlast
      cases htail
      exact hroot.symm.trans (hR hhead)

end Logs

/-- The conditions on the log of an instruction that depend on its kind. -/
def LogKind (h : HashTree) (rootHash : ValueHash) (log : TreeLogEntryWithProof (List ValueHash)) :
    TreeInstruction → Prop
  | .read _ => log.rootHash = rootHash ∧ log.base.isRead = true
  | .write entry =>
    log.base.isRead = false ∧ h.foldMerklePath log.merklePath entry = log.rootHash

theorem verifyLog_ok_iff {rootHash r : ValueHash} :
    verifyLog h rootHash log instruction = .ok r ↔
      log.merklePath.length ≤ treeDepth ∧ LogKind h rootHash log instruction ∧
        h.foldMerklePath log.merklePath (log.base.previousEntry instruction.key) = rootHash ∧
        log.rootHash = r := by
  rw [verifyLog]
  cases instruction <;> cases hread : log.base.isRead <;>
    simp only [LogKind, hread, throw, throwThe, MonadExceptOf.throw, pure, Except.pure, bind,
      Except.bind] <;> split_ifs <;> simp_all

theorem FullLog.verifyLog_eq (hlog : FullLog h m instruction log) :
    verifyLog h (h.treeHash m) log instruction = .ok (h.treeHash (instruction.apply m)) := by
  obtain ⟨hbase, hroot, hpath, hlen⟩ := hlog
  have hread := isRead_log (m := m) instruction
  rw [← hbase] at hread
  refine verifyLog_ok_iff.mpr ⟨hlen, ?_, ?_, hroot⟩
  · cases instruction with
    | read key => exact ⟨hroot, hread.mpr ⟨key, rfl⟩⟩
    | write entry =>
      have hnext := foldMerklePath_of_siblings hlen hpath
      rw [TreeInstruction.key, entryAt_write, ← hroot] at hnext
      refine ⟨?_, hnext⟩
      rw [← Bool.not_eq_true, hread]
      rintro ⟨_, ⟨⟩⟩
  · rw [hbase, previousEntry_log]
    exact foldMerklePath_of_siblings hlen (hpath.trans (keySiblings_apply instruction))

theorem Logs.foldlM_verifyLog (hlogs : Logs (FullLog h) m instructions logs) :
    (logs.zip instructions).foldlM (fun rootHash step => verifyLog h rootHash step.1 step.2)
      (h.treeHash m) = .ok (h.treeHash (applyAll m instructions)) := by
  induction hlogs with
  | nil m => rfl
  | cons hlog _ ih =>
    rw [List.zip_cons_cons, List.foldlM_cons, hlog.verifyLog_eq]
    exact ih

theorem Logs.verifyProofs_eq (hlogs : Logs (FullLog h) m instructions output.logs) :
    output.verifyProofs h (h.treeHash m) instructions = .ok () := by
  rw [BlockOutputWithProofs.verifyProofs, if_neg (not_not_intro hlogs.length_eq),
    hlogs.foldlM_verifyLog]
  rfl

/-- The output for any block after any others passes the check against the root hash before it,
and its last root hash is the one after it. -/
theorem extendWithProofs_verifies (h : HashTree) (blocks : List (List TreeInstruction))
    (instructions : List TreeInstruction) :
    ∃ db output db', Tree.extendAll h Database.empty blocks = some db ∧
      Tree.extendWithProofs h db instructions = some (output, db') ∧
      output.verifyProofs h (Tree.latestRootHash h db) instructions = .ok () ∧
      (∀ rootHash, output.rootHash = some rootHash → rootHash = Tree.latestRootHash h db') ∧
      (∀ (i : ℕ) (instruction : TreeInstruction)
          (log : TreeLogEntryWithProof (List ValueHash)), instructions[i]? = some instruction →
        output.logs[i]? = some log → log.base = instruction.log
          (applyAll (fun _ => none) (blocks.flatten ++ instructions.take i))) ∧
      output.leafCount =
        {key | applyAll (fun _ => none) (blocks.flatten ++ instructions) key ≠ none}.ncard := by
  obtain ⟨db, hrun, hhist⟩ := exists_history h blocks
  have hlatest : latest (snapshots (fun _ => none) blocks) =
      applyAll (fun _ => none) blocks.flatten := latest_append_snapshots [] blocks
  obtain ⟨output, db', hextend, hlogs, hleaves, hhist'⟩ := hhist.extendWithProofs_eq instructions
  have hlatest' := hhist'.latestRootHash_eq
  rw [hlatest] at hlogs hleaves hlatest'
  refine ⟨db, output, db', hrun, hextend, ?_, fun rootHash hroot => ?_,
    fun i instruction log hi hlog => ?_, ?_⟩
  · rw [hhist.latestRootHash_eq, hlatest]
    exact hlogs.verifyProofs_eq
  · rw [hlogs.rootHash_eq (fun hfull => hfull.2.1) hroot, hlatest', latest]
    simp
  · rw [applyAll_append]
    exact (hlogs.get hi hlog).1
  · rw [hleaves, keyCount, applyAll_append]

/-- What the hasher is applied to. -/
inductive HashInput where
  | leaf (value : ValueHash) (leafIndex : UInt64)
  | branch (lhs rhs : ValueHash)

def HashTree.hashInput (h : HashTree) : HashInput → ValueHash
  | .leaf value leafIndex => h.hashLeaf value leafIndex
  | .branch lhs rhs => h.hashBranch lhs rhs

def HashInput.ofPair (pair : ValueHash × ValueHash) : HashInput :=
  .branch pair.1 pair.2

def HashInput.ofEntry (entry : TreeEntry) : HashInput :=
  .leaf entry.value entry.leafIndex

/-- What `fold_merkle_path` hashes. -/
def HashTree.pathInputs (h : HashTree) (path : List ValueHash) (entry : TreeEntry) :
    List HashInput :=
  .ofEntry entry ::
    (h.plain.climbPairs (keyBits entry.key).reverse (h.extendMerklePath path)
      (h.hashLeaf entry.value entry.leafIndex)).map .ofPair

/-- What the plain tree hashes along the path of a key. -/
def HashTree.keyInputs (h : HashTree) (m : Contents) (key : Key) : List HashInput :=
  .ofEntry (entryAt m key) :: (h.plain.pathPairs 0 (byBits m) (keyBits key)).map .ofPair

theorem Collision.ofPair {pairs pairs' : List (ValueHash × ValueHash)} {leaf leaf' : HashInput}
    (hcollision : Collision (fun pair => h.plain.branch pair.1 pair.2)
      (pairs ++ pairs')) :
    Collision h.hashInput
      (leaf :: pairs.map .ofPair ++ leaf' :: pairs'.map .ofPair) := by
  have hinputs : ∀ pair ∈ pairs ++ pairs',
      HashInput.ofPair pair ∈ leaf :: pairs.map .ofPair ++ leaf' :: pairs'.map .ofPair := by
    intro pair hpair
    rcases List.mem_append.mp hpair with hpair | hpair
    · exact List.mem_append_left _ (List.mem_cons_of_mem _ (List.mem_map_of_mem hpair))
    · exact List.mem_append_right _ (List.mem_cons_of_mem _ (List.mem_map_of_mem hpair))
  obtain ⟨pair, hpair, pair', hpair', hne, heq⟩ := hcollision
  refine ⟨_, hinputs pair hpair, _, hinputs pair' hpair', fun hinput => hne ?_, heq⟩
  simp only [HashInput.ofPair, HashInput.branch.injEq] at hinput
  exact Prod.ext hinput.1 hinput.2

theorem entry_eq_or_collision {entry entry' : TreeEntry} (hkey : entry.key = entry'.key)
    (hleaf : h.hashLeaf entry.value entry.leafIndex = h.hashLeaf entry'.value entry'.leafIndex)
    {inputs : List HashInput} (hentry : .ofEntry entry ∈ inputs)
    (hentry' : .ofEntry entry' ∈ inputs) : entry = entry' ∨ Collision h.hashInput inputs := by
  by_cases heq : HashInput.ofEntry entry = .ofEntry entry'
  · left
    simp only [HashInput.ofEntry, HashInput.leaf.injEq] at heq
    cases entry
    cases entry'
    simp_all
  · exact .inr ⟨_, hentry, _, hentry', heq, hleaf⟩

/-- Whoever folds a path to the hash of the tree has the entry and the siblings of the key. -/
theorem foldMerklePath_binding {entry : TreeEntry} (hlen : path.length ≤ treeDepth)
    (hroot : h.foldMerklePath path entry = h.treeHash m) :
    (entry = entryAt m entry.key ∧ h.extendMerklePath path = h.keySiblings m entry.key) ∨
      Collision h.hashInput (h.pathInputs path entry ++ h.keyInputs m entry.key) := by
  rw [foldMerklePath_eq hlen, HashTree.treeHash, ← length_keyBits entry.key,
    ← Nat.add_zero (keyBits entry.key).length] at hroot
  have hlength : (h.extendMerklePath path).length = (keyBits entry.key).length := by
    rw [length_extendMerklePath hlen, length_keyBits]
  have hbinding := climb_binding (d := 0) hlength hroot
  rw [root_zero, below_apply, List.append_nil, byBits_keyBits, ← hashLeaf_entryAt] at hbinding
  rcases hbinding with ⟨hleaf, hsibs⟩ | hcollision
  · refine (entry_eq_or_collision key_entryAt.symm hleaf ?_ ?_).imp (⟨·, hsibs⟩) id
    · simp [HashTree.pathInputs]
    · simp [HashTree.keyInputs]
  · exact .inr (Collision.ofPair hcollision)

theorem treeHash_binding {m' : Contents} (hroot : h.treeHash m = h.treeHash m') (key : Key) :
    entryAt m key = entryAt m' key ∨
      Collision h.hashInput (h.keyInputs m key ++ h.keyInputs m' key) := by
  rcases root_binding hroot (length_keyBits key) with hleaf | hcollision
  · rw [byBits_keyBits, byBits_keyBits, ← hashLeaf_entryAt, ← hashLeaf_entryAt] at hleaf
    refine entry_eq_or_collision (by simp) hleaf ?_ ?_
    · simp [HashTree.keyInputs]
    · simp [HashTree.keyInputs]
  · exact .inr (Collision.ofPair hcollision)

/-- What a log says about an instruction is so. -/
structure LogTrue (h : HashTree) (m : Contents) (instruction : TreeInstruction)
    (log : TreeLogEntryWithProof (List ValueHash)) : Prop where
  previous : log.base.previousEntry instruction.key = entryAt m instruction.key
  isRead : log.base.isRead = (instruction.log m).isRead
  rootHash : log.rootHash = h.treeHash (instruction.apply m)

theorem verifyLog_sound (hok : verifyLog h (h.treeHash m) log instruction = .ok r) :
    (LogTrue h m instruction log ∧ r = h.treeHash (instruction.apply m)) ∨
      Collision h.hashInput
        (h.pathInputs log.merklePath (log.base.previousEntry instruction.key) ++
          h.keyInputs m instruction.key) := by
  obtain ⟨hlen, hkind, hprevious, rfl⟩ := verifyLog_ok_iff.mp hok
  have hkey : (log.base.previousEntry instruction.key).key = instruction.key := by
    cases log.base <;> rfl
  have hbinding := foldMerklePath_binding hlen hprevious
  rw [hkey] at hbinding
  refine hbinding.imp (fun hbound => ?_) id
  obtain ⟨hentry, hpath⟩ := hbound
  have hread := isRead_log (m := m) instruction
  suffices hlog : log.base.isRead = (instruction.log m).isRead ∧
      log.rootHash = h.treeHash (instruction.apply m) from ⟨⟨hentry, hlog.1, hlog.2⟩, hlog.2⟩
  cases instruction with
  | read key =>
    obtain ⟨hroot, hlog⟩ := hkind
    exact ⟨hlog.trans (hread.mpr ⟨key, rfl⟩).symm, hroot⟩
  | write entry =>
    obtain ⟨hlog, hnext⟩ := hkind
    refine ⟨?_, ?_⟩
    · rw [hlog, eq_comm, ← Bool.not_eq_true, hread]
      rintro ⟨_, ⟨⟩⟩
    · rw [← keySiblings_apply] at hpath
      have hfold := foldMerklePath_of_siblings hlen hpath
      rw [TreeInstruction.key, entryAt_write] at hfold
      exact hnext.symm.trans hfold

/-- All that is hashed when the logs are checked, and in the plain trees along their keys. -/
def HashTree.logInputs (h : HashTree) :
    Contents → List TreeInstruction →
      List (TreeLogEntryWithProof (List ValueHash)) → List HashInput
  | m, instruction :: instructions, log :: logs =>
    h.pathInputs log.merklePath (log.base.previousEntry instruction.key) ++
      h.keyInputs m instruction.key ++ h.logInputs (instruction.apply m) instructions logs
  | _, _, _ => []

theorem foldlM_verifyLog_sound (hlen : instructions.length = logs.length)
    (hok : (logs.zip instructions).foldlM
      (fun rootHash step => verifyLog h rootHash step.1 step.2) (h.treeHash m) = .ok r) :
    Logs (LogTrue h) m instructions logs ∨
      Collision h.hashInput (h.logInputs m instructions logs) := by
  induction logs generalizing m instructions with
  | nil =>
    obtain rfl := List.length_eq_zero_iff.mp hlen
    exact .inl (.nil m)
  | cons log logs ih =>
    cases instructions with
    | nil => cases hlen
    | cons instruction instructions =>
      rw [List.zip_cons_cons, List.foldlM_cons] at hok
      obtain ⟨r₁, hstep, hrest⟩ := Fallible.bind_ok_iff.mp hok
      rcases verifyLog_sound hstep with ⟨hlog, rfl⟩ | hcollision
      · refine (ih (by simpa using hlen) hrest).imp (.cons hlog) fun hcollision => ?_
        exact hcollision.mono (List.subset_append_right _ _)
      · exact .inr (hcollision.mono (List.subset_append_left _ _))

/-- Whoever made the output: if it passes the check against the root hash of a tree, its logs
tell the truth about the tree, and the new root hash is that of the tree after the instructions. -/
theorem verifyProofs_sound (hok : output.verifyProofs h (h.treeHash m) instructions = .ok ()) :
    (Logs (LogTrue h) m instructions output.logs ∧
      ∀ rootHash, output.rootHash = some rootHash →
        rootHash = h.treeHash (applyAll m instructions)) ∨
      Collision h.hashInput (h.logInputs m instructions output.logs) := by
  rw [BlockOutputWithProofs.verifyProofs] at hok
  split_ifs at hok with hlen
  · cases hok
  · obtain ⟨r, hfold, -⟩ := Fallible.bind_ok_iff.mp hok
    refine (foldlM_verifyLog_sound (not_not.mp hlen) hfold).imp (fun hlogs => ⟨hlogs, ?_⟩) id
    exact fun rootHash hroot => hlogs.rootHash_eq LogTrue.rootHash hroot

def sha256Tree : HashTree := blake2Hasher Sha256.hash

def writeThenRead : List TreeInstruction := [.write ⟨5, ValueHash.zero, 1⟩, .read 6]

theorem verifyProofs_sound_single :
    ∃ output : BlockOutputWithProofs,
      output.verifyProofs sha256Tree (sha256Tree.treeHash fun _ => none) writeThenRead = .ok () ∧
      ((Logs (LogTrue sha256Tree) (fun _ => none) writeThenRead output.logs ∧
        ∀ rootHash, output.rootHash = some rootHash →
          rootHash = sha256Tree.treeHash (applyAll (fun _ => none) writeThenRead)) ∨
        Collision sha256Tree.hashInput
          (sha256Tree.logInputs (fun _ => none) writeThenRead output.logs)) := by
  obtain ⟨output, -, -, hlogs, -⟩ :=
    (history_empty (h := sha256Tree)).extendWithProofs_eq writeThenRead
  exact ⟨output, hlogs.verifyProofs_eq, verifyProofs_sound hlogs.verifyProofs_eq⟩

end RollupX.MerkleTree
