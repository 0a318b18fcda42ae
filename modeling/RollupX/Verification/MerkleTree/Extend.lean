import RollupX.Verification.MerkleTree.Join

/-! `extend_with_proofs` refines the plain map: it never panics, its logs are those of the map
and of the plain Merkle tree over it, and the database gets one more version. -/

namespace RollupX.MerkleTree

open SparseMerkle Nibbles WorkingPatchSet

variable {h : HashTree} {db : Database} {patch : WorkingPatchSet} {t : Layout}
  {m : Contents} {version : ℕ} {root : InternalNode} {prefixes : List Nibbles}
  {instructions : List TreeInstruction}

/-- What the instructions start from: a tree of which the paths of their keys are loaded. -/
structure Prepared (h : HashTree) (db : Database) (version : ℕ) (m : Contents)
    (root : InternalNode) (patch : WorkingPatchSet) (t : Layout) : Prop where
  working : Working h db patch (fun _ => False) t
  maps : Maps t m
  version_eq : patch.rootVersion = version
  root_eq : t [] = some (.internal root)
  clone : ∀ p x, t p = some x → x.clone = x
  old : ∀ p i node ref, t p = some (.internal node) → node.children i = some ref →
    ref.version < version
  nonempty : ∀ i ref, root.children i = some ref → keyCount m ≠ 0

theorem Prepared.part (hprepared : Prepared h db version m root patch t) (i : Nibble) :
    Part h db version root [] m i ⟨patch.split i, 0⟩ t where
  working := (hprepared.working.split hprepared.clone
    (fun p j node ref hp href => hprepared.version_eq ▸ hprepared.old p j node ref hp href)
    i).mono fun _ hq => hq.elim
  version_eq := hprepared.version_eq
  maps := ⟨m, hprepared.maps, fun _ _ => rfl⟩
  only j rest hj := changes_split_of_ne hj rest
  root_eq _ := hprepared.root_eq
  written entry hentry := by cases hentry

theorem Prepared.rootOk (hprepared : Prepared h db version m root patch t) : RootOk h m root where
  levels := hprepared.working.wf.levelHashes hprepared.maps hprepared.root_eq fun _ _ hq => hq
  cache cache hc := by
    have hclone := hprepared.clone _ _ hprepared.root_eq
    rw [Node.clone, Node.internal.injEq] at hclone
    rw [← hclone] at hc
    cases hc

def allItems (instructions : List TreeInstruction) (prefixes : List Nibbles) :
    List InstructionWithPrecomputes :=
  (instructions.zip prefixes).zipIdx.map fun item => ⟨item.2, item.1.1, item.1.2⟩

theorem map_instruction_allItems (hlen : instructions.length = prefixes.length) :
    (allItems instructions prefixes).map (·.instruction) = instructions := by
  rw [allItems, List.map_map]
  rw [show (fun item : InstructionWithPrecomputes => item.instruction) ∘
      (fun item : (TreeInstruction × Nibbles) × ℕ =>
        (⟨item.2, item.1.1, item.1.2⟩ : InstructionWithPrecomputes)) = Prod.fst ∘ Prod.fst from rfl,
    ← List.map_map, List.zipIdx_map_fst, List.map_fst_zip hlen.le]

theorem pairwise_index_allItems (instructions : List TreeInstruction) (prefixes : List Nibbles) :
    (allItems instructions prefixes).Pairwise (·.index < ·.index) := by
  have hindices : ((instructions.zip prefixes).zipIdx.map Prod.snd).Pairwise (· < ·) := by
    rw [List.zipIdx_map_snd]
    exact List.pairwise_lt_range'
  rw [List.pairwise_map] at hindices
  rw [allItems, List.pairwise_map]
  exact hindices

theorem resolved_allItems
    (hresolved : List.Forall₂ (Resolved patch t) (instructions.map (·.key)) prefixes)
    {item : InstructionWithPrecomputes} (hitem : item ∈ allItems instructions prefixes) :
    Resolved patch t item.instruction.key item.parentNibbles := by
  obtain ⟨⟨pair, idx⟩, hpair, rfl⟩ := List.mem_map.mp hitem
  have hmem := List.fst_mem_of_mem_zipIdx hpair
  rw [List.forall₂_map_left_iff] at hresolved
  exact (List.forall₂_iff_zip.mp hresolved).2 hmem

theorem merged_logs {items : List InstructionWithPrecomputes}
    {logs : List (TreeLogEntryWithProof MerklePath)} (hlen : items.length = logs.length)
    (hsorted : items.Pairwise (·.index < ·.index)) :
    mergeByIndex (fun i => ((items.zip logs).filter (·.1.part = i)).map
        fun x => (x.1.index, x.2)) =
      List.zipWith partLog (items.map (·.instruction)) logs := by
  have hzip : (items.zip logs).Pairwise (·.1.index < ·.1.index) := by
    rw [← List.map_fst_zip hlen.le, List.pairwise_map] at hsorted
    exact hsorted
  have hmerge := mergeByIndex_partItems (fun x : InstructionWithPrecomputes × _ => x.1.part)
    Prod.snd hzip
  rw [List.zipWith_map_left]
  exact hmerge.trans List.map_zip_eq_zipWith

theorem allParts_eq {T : Type*} {parts : Nibble → Option T} {f : Nibble → T}
    (hparts : ∀ i, parts i = some (f i)) : allParts parts = some f := by
  have hall : ∀ i, (parts i).isSome := fun i => by simp [hparts]
  rw [allParts, dif_pos hall, Option.some.injEq]
  funext i
  exact Option.get_of_eq_some _ (hparts i)

theorem childCount_eq_zero : root.childCount = 0 ↔ ∀ i, root.children i = none := by
  simp [InternalNode.childCount, List.countP_eq_zero]

theorem keyCount_le_applyAll (instructions : List TreeInstruction) :
    keyCount m ≤ keyCount (applyAll m instructions) := by
  induction instructions generalizing m with
  | nil => exact le_rfl
  | cons instruction instructions ih =>
    rw [applyAll_cons]
    exact (by rw [keyCount_apply]; omega : keyCount m ≤ _).trans ih

theorem keyCount_ne_zero {key : Key} (hkey : m key ≠ none) : keyCount m ≠ 0 :=
  Set.ncard_ne_zero_of_mem (a := key) hkey

section Outcome

variable {root' : InternalNode} {updaters : Nibble → TreeUpdater} {trees : Nibble → Layout}

theorem Joined.eq_none (hjoined : Joined h db version root root' instructions m updaters trees)
    (hroot : ∀ i, root'.children i = none) (key : Key) : m key = none := by
  have hnone := (hjoined.wellFormed.child_none (p := []) (i := nibble key 0) rfl).mp (hroot _)
  exact hjoined.maps.eq_none hjoined.wellFormed
    (hjoined.wellFormed.ends_of_none (n := 0) rfl hnone) (by
      rw [show new key 1 = [nibble key 0] from rfl]
      simp only [List.nil_append] at hnone
      simp [hnone])

theorem Joined.takeRoot_entries (hjoined : Joined h db version root root' instructions m updaters
    trees) (hroot : ∀ i, root'.children i = none) :
    (mergeParts updaters).patchSet.takeRoot.entries = [] := by
  rw [takeRoot, List.filter_eq_nil_iff]
  rintro ⟨p, w⟩ hentry hp
  have hne : p ≠ [] := of_decide_eq_true hp
  have hchange : ((mergeParts updaters).patchSet.insert [] (.internal root')).changes p ≠ none := by
    rw [changes_insert_of_ne hne]
    exact changes_ne_none_iff.mpr ⟨w, hentry⟩
  obtain ⟨w', hw'⟩ := Option.ne_none_iff_exists'.mp hchange
  have hnone := hjoined.wellFormed.eq_none_of_children rfl hroot hne
  rw [hjoined.working.agree p w' hw'] at hnone
  cases hnone

theorem Joined.keyCount_ne_zero (hprepared : Prepared h db version m root patch t)
    (hjoined : Joined h db version root root' instructions (applyAll m instructions) updaters
      trees) {i : Nibble} {ref : ChildRef} (href : root'.children i = some ref) :
    keyCount (applyAll m instructions) ≠ 0 := by
  rcases touched_or instructions i with ⟨entry, hentry, rfl⟩ | hnone
  · exact MerkleTree.keyCount_ne_zero ((hjoined.parts _).written entry hentry rfl).2
  · rw [hjoined.kept i hnone] at href
    have hle := keyCount_le_applyAll (m := m) instructions
    have hne := hprepared.nonempty i ref href
    omega

theorem Joined.finalize (hprepared : Prepared h db version m root patch t)
    (hjoined : Joined h db version root root' instructions (applyAll m instructions) updaters
      trees) (manifest : Manifest) :
    ∃ patchSet t', finalizeWithoutHashing
        (if root'.childCount = 0 then (mergeParts updaters).patchSet.takeRoot
          else (mergeParts updaters).patchSet.insert [] (.internal root')) manifest
        (keyCount (applyAll m instructions)) = some patchSet ∧
      patchSet.manifest = manifest ∧ patchSet.version = version ∧ patchSet.OneVersion ∧
      StoredAt h (db.applyPatch patchSet) version (applyAll m instructions) t' := by
  have hversion : (mergeParts updaters).patchSet.rootVersion = version :=
    (mergeParts_spec hjoined.only).1.trans (hjoined.parts firstPart).version_eq
  split_ifs with hcount
  · rw [childCount_eq_zero] at hcount
    have hrun := finalizeWithoutHashing_nil (hjoined.takeRoot_entries hcount) manifest
      (keyCount (applyAll m instructions))
    rw [show (mergeParts updaters).patchSet.takeRoot.rootVersion = version from hversion] at hrun
    exact ⟨_, _, hrun, rfl, rfl, fun _ _ _ => rfl,
      storedAt_emptyPatch manifest (hjoined.eq_none hcount)⟩
  · rw [childCount_eq_zero] at hcount
    push Not at hcount
    obtain ⟨i, hi⟩ := hcount
    obtain ⟨ref, href⟩ := Option.ne_none_iff_exists'.mp hi
    obtain ⟨patchSet, hrun, hmanifest, hpatchVersion, hone, hstored⟩ := hjoined.working.finalize
      hjoined.maps (hjoined.keyCount_ne_zero hprepared href) manifest
    rw [rootVersion_insert, hversion] at hpatchVersion hstored
    exact ⟨patchSet, _, hrun, hmanifest, hpatchVersion, hone, hstored⟩

theorem Prepared.extendWithProofs_eq {storage : Storage} {patch₀ : WorkingPatchSet}
    (hprepared : Prepared h db version m root patch t)
    (hload : storage.updater.patchSet.loadAncestors (instructions.map (·.key)) db =
      some (prefixes, patch₀)) (hensure : patch₀.ensureInternalRootNode = (root, patch))
    (hresolved : List.Forall₂ (Resolved patch t) (instructions.map (·.key)) prefixes)
    (hcount : storage.leafCount = keyCount m) :
    ∃ output patchSet t', storage.extendWithProofs h db instructions = some (output, patchSet) ∧
      Logs (FullLog h) m instructions output.logs ∧
      output.leafCount = keyCount (applyAll m instructions) ∧
      patchSet.manifest = storage.manifest ∧ patchSet.version = version ∧
      patchSet.OneVersion ∧
      StoredAt h (db.applyPatch patchSet) version (applyAll m instructions) t' := by
  have hlen : instructions.length = prefixes.length := by simpa using hresolved.length_eq
  have hresolved' : ∀ item ∈ allItems instructions prefixes, Resolved (patch.split item.part) t
      item.instruction.key item.parentNibbles := fun item hitem =>
    (resolved_allItems hresolved hitem).split rfl
  obtain ⟨logs, updaters, trees, hrun, hlogs, hparts, hleaves⟩ := exists_extendLoop
    hprepared.part hresolved'
    fun i => (((patch.split i).get [i]).map (·.hash h 4)).getD (h.emptySubtreeHash 4)
  rw [map_instruction_allItems hlen] at hlogs hparts hleaves
  rw [List.nil_append] at hparts
  obtain ⟨logs', root', hfinal, hlogs', hrootOk, hrootSet⟩ := finalizeLogsLoop_eq
    version (fun i => (((mergeParts updaters).patchSet.get [i]).map Node.isLeaf).getD false)
    hlogs hprepared.rootOk
  have hjoined : Joined h db version root root' instructions (applyAll m instructions) updaters
      trees := ⟨hrootSet, hparts, hrootOk⟩
  obtain ⟨hversion, -, hnewLeaves⟩ := mergeParts_spec hjoined.only
  have htotal : storage.leafCount + (mergeParts updaters).newLeaves =
      keyCount (applyAll m instructions) := by
    simp only [Finset.sum_const_zero] at hleaves
    omega
  obtain ⟨patchSet, t', hpatchSet, hmanifest, hpatchVersion, hone, hstored⟩ :=
    hjoined.finalize hprepared storage.manifest
  refine ⟨⟨logs', keyCount (applyAll m instructions)⟩, patchSet, t', ?_, hlogs', rfl, hmanifest,
    hpatchVersion, hone, hstored⟩
  have hall : allParts (fun i => (TreeUpdater.split { storage.updater with patchSet := patch }
      i).extendPrecomputed h i (InstructionWithPrecomputes.split instructions prefixes i)) =
      some fun i => (_, updaters i) := allParts_eq hrun
  have hmerged := merged_logs (show (allItems instructions prefixes).length = logs.length by
    rw [← hlogs.length_eq, ← List.length_map (f := (·.instruction)),
      map_instruction_allItems hlen]) (pairwise_index_allItems _ _)
  rw [map_instruction_allItems hlen] at hmerged
  have hfinalize : (mergeParts updaters).finalizeLogs h root
      (List.zipWith partLog instructions logs) = some (logs',
        ⟨if root'.childCount = 0 then (mergeParts updaters).patchSet.takeRoot
          else (mergeParts updaters).patchSet.insert [] (.internal root'),
          (mergeParts updaters).newLeaves⟩) := by
    rw [TreeUpdater.finalizeLogs, hversion, (hparts firstPart).version_eq, hprepared.rootOk.hash_eq,
      hfinal]
    rfl
  rw [Storage.extendWithProofs, hload]
  simp only [Option.bind_eq_bind, Option.bind_some, hensure, hall, hmerged]
  rw [show (List.finRange 16).tail.foldl (fun merged i => merged.merge (updaters i))
    (updaters firstPart) = mergeParts updaters from rfl, hfinalize, htotal]
  simp only [Option.bind_some, hpatchSet]
  rfl

end Outcome

end RollupX.MerkleTree
