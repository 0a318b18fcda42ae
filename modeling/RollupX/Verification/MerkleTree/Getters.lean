import RollupX.Verification.MerkleTree.Verify

/-! Reading a version. The getters return the entries of the map of that version, with or without
proofs, also after later versions were written. -/

namespace RollupX.MerkleTree

open Commitment SparseMerkle Nibbles WorkingPatchSet

variable {h : HashTree} {db : Database} {patch : WorkingPatchSet} {t : Layout}
  {m : Contents} {version : ℕ} {key : Key} {proof : TreeEntryWithProof}

/-! ## The version of a patch

A patch for reading has the version that is read, not a later one. Loading and proving do not
look at it. -/

namespace WorkingPatchSet

def withVersion (patch : WorkingPatchSet) (version : ℕ) : WorkingPatchSet :=
  { patch with rootVersion := version }

theorem foldlM_loadNode_withVersion (requested : List (Nibbles × ChildRef)) :
    requested.foldlM (loadNode db) (patch.withVersion version) =
      (requested.foldlM (loadNode db) patch).map (·.withVersion version) := by
  induction requested generalizing patch with
  | nil => rfl
  | cons r requested ih =>
    rw [List.foldlM_cons, List.foldlM_cons, loadNode, loadNode]
    cases db.treeNode r.2.version r.1 r.2.isLeaf with
    | none => rfl
    | some node =>
      exact @ih ⟨patch.rootVersion, (r.1, ⟨node, some r.2.version⟩) :: patch.entries⟩

theorem loadLevels_withVersion (fuel nibbleCount : ℕ) (keys : List (Key × Option Nibbles)) :
    loadLevels db fuel nibbleCount (patch.withVersion version) keys =
      (loadLevels db fuel nibbleCount patch keys).map fun loaded =>
        (loaded.1, loaded.2.withVersion version) := by
  induction fuel generalizing nibbleCount patch keys with
  | zero => rfl
  | succ fuel ih =>
    rw [loadLevels, loadLevels]
    simp only [show ∀ n key, (patch.withVersion version).ancestorRequest n key =
      patch.ancestorRequest n key from fun _ _ => rfl, foldlM_loadNode_withVersion]
    split_ifs with hrequested
    · rfl
    · cases (keys.filterMap _).foldlM (loadNode db) patch with
      | none => rfl
      | some patch' => exact ih ..

theorem loadAncestors_withVersion (keys : List Key) :
    (patch.withVersion version).loadAncestors keys db =
      (patch.loadAncestors keys db).map fun loaded =>
        (loaded.1, loaded.2.withVersion version) := by
  rw [loadAncestors, loadAncestors, show (patch.withVersion version).get [] = patch.get [] from rfl]
  split
  · rw [loadLevels_withVersion]
    cases loadLevels db (keyNibbles + 1) 1 patch (keys.map fun key => (key, none)) with
    | none => rfl
    | some loaded =>
      simp only [Option.map_some, Option.bind_eq_bind, Option.bind_some]
      cases loaded.1.mapM (·.2) <;> rfl
  · rfl

theorem traverseFrom_withVersion (key : Key) (fuel n : ℕ) :
    (patch.withVersion version).traverseFrom key fuel n = patch.traverseFrom key fuel n := by
  induction fuel generalizing n with
  | zero => rfl
  | succ fuel ih =>
    rw [traverseFrom, traverseFrom, ih,
      show (patch.withVersion version).get (Nibbles.new key n) = patch.get (Nibbles.new key n)
        from rfl]

theorem extendPathUp_withVersion (r : ℕ) (nibbles : List Nibble) (path : MerklePath) :
    extendPathUp h r nibbles (patch.withVersion version) path =
      (extendPathUp h r nibbles patch path).map fun done =>
        (done.1, done.2.withVersion version) := by
  induction nibbles generalizing patch path with
  | nil => rfl
  | cons i rest ih =>
    rw [extendPathUp, extendPathUp,
      show (patch.withVersion version).get rest.reverse = patch.get rest.reverse from rfl]
    split_ifs
    · rfl
    · split
      · rename_i parent _
        obtain ⟨path', parent'⟩ := parent.extendMerklePath h (rest.length * 4) i path
        exact @ih (patch.insert rest.reverse (.internal parent')) path'
      · rfl

theorem createProof_withVersion (key : Key) (p : Nibbles) (r : ℕ) :
    (patch.withVersion version).createProof h key p r =
      (patch.createProof h key p r).map fun proof =>
        (proof.1, proof.2.1, proof.2.2.withVersion version) := by
  rw [createProof, createProof, traverse, traverse, traverseFrom_withVersion]
  cases patch.traverseFrom key (keyNibbles + 1 - p.length) p.length with
  | none => rfl
  | some outcome =>
    simp only [Option.bind_eq_bind, Option.bind_some, extendPathUp_withVersion]
    cases extendPathUp h r outcome.position.reverse patch (startPath h key outcome) with
    | none => rfl
    | some done => cases outcome <;> rfl

end WorkingPatchSet

theorem proveEntries_withVersion (items : List (Key × Nibbles)) :
    Tree.proveEntries h items (patch.withVersion version) = Tree.proveEntries h items patch := by
  induction items generalizing patch with
  | nil => rfl
  | cons item items ih =>
    obtain ⟨key, p⟩ := item
    rw [Tree.proveEntries, Tree.proveEntries, createProof_withVersion]
    cases patch.createProof h key p 0 with
    | none => rfl
    | some proof => simp only [Option.map_some, Option.bind_eq_bind, Option.bind_some, ih]

theorem Longest.extractEntry_eq {p : Nibbles} (hwork : Working h db patch (fun _ => False) t)
    (hm : Maps t m) (hlongest : Longest patch t key p) :
    Tree.extractEntry patch key p = entryAt m key := by
  have hp : p = new key p.length := hlongest.onPath
  have hget : patch.get p = t (new key p.length) := by
    rw [hp, length_new, hwork.get_eq hlongest.loaded]
  rw [Tree.extractEntry, hget]
  cases hx : t (new key p.length) with
  | none =>
    have hends : Ends t key p.length := ⟨hlongest.internal, by simp [hx]⟩
    have hnone := hm.eq_none hwork.wf hends (by simp [hx])
    simp [entryAt, hnone]
  | some x =>
    cases x with
    | internal node =>
      have hnone := hm.eq_none hwork.wf (hwork.wf.ends_of_none hx hlongest.last)
        (by simp [hlongest.last])
      simp [entryAt, hnone]
    | leaf leaf =>
      have hends := hwork.wf.ends_of_leaf hx
      by_cases hkey : leaf.fullKey = key
      · have hvalue := (hm leaf).mpr ⟨_, hx⟩
        rw [hkey] at hvalue
        simp [entryAt, hvalue, hkey, LeafNode.toEntry]
      · simp [entryAt, hm.eq_none_of_leaf hwork.wf hx hkey, hkey]

/-- The entry of a key with its siblings in the plain tree. -/
structure EntryProof (h : HashTree) (m : Contents) (key : Key) (proof : TreeEntryWithProof) :
    Prop where
  base : proof.base = entryAt m key
  path : h.extendMerklePath proof.merklePath = h.keySiblings m key
  length : proof.merklePath.length ≤ treeDepth

theorem Working.proveEntries_eq {items : List (Key × Nibbles)}
    (hwork : Working h db patch (fun _ => False) t) (hm : Maps t m)
    (hresolved : ∀ item ∈ items, Resolved patch t item.1 item.2) :
    ∃ proofs, Tree.proveEntries h items patch = some proofs ∧
      List.Forall₂ (fun item proof => EntryProof h m item.1 proof) items proofs := by
  induction items generalizing patch t with
  | nil => exact ⟨[], rfl, .nil⟩
  | cons item items ih =>
    obtain ⟨key, p⟩ := item
    have hfirst : Resolved patch t key p := hresolved (key, p) List.mem_cons_self
    have hp : p = new key p.length := hfirst.onPath
    obtain ⟨path, patch', t', hrun, ⟨hstands, hwork', hm', hgrows⟩, -⟩ :=
      createProof_eq (Nat.zero_le 1) (fun _ hq => hq.elim) hwork hm hfirst.loaded
        hfirst.internal
    rw [← hp] at hrun
    obtain ⟨proofs, hrest, hproofs⟩ := ih hwork' hm' fun other hother =>
      (hresolved other (List.mem_cons_of_mem _ hother)).grows hgrows
    rw [siblingsFrom_zero] at hstands
    obtain ⟨hpath, hlen⟩ := hstands.extendMerklePath (by simp [HashTree.keySiblings])
    refine ⟨⟨entryAt m key, path.hashes⟩ :: proofs, ?_, .cons ⟨rfl, hpath, hlen⟩ hproofs⟩
    rw [Tree.proveEntries, hrun]
    simp only [Option.bind_eq_bind, Option.bind_some, hrest, entryAt]
    cases m key <;> rfl

theorem map_zip_of_forall₂ {A B C : Type*} {f : A → B → C} {g : A → C} {as : List A} {bs : List B}
    (h : List.Forall₂ (fun a b => f a b = g a) as bs) :
    (as.zip bs).map (fun x => f x.1 x.2) = as.map g := by
  induction h with
  | nil => rfl
  | cons hhead _ ih => rw [List.zip_cons_cons, List.map_cons, List.map_cons, hhead, ih]

theorem entryProof_of_none (hm : ∀ key, m key = none) (key : Key) :
    EntryProof h m key ⟨TreeEntry.empty key, []⟩ where
  base := by simp [entryAt, hm]
  path := by
    have hsibs := siblings_of_none (h := h.plain) (d := 0) (m := byBits m) (p := keyBits key)
      fun _ _ _ => hm _
    rw [HashTree.keySiblings, hsibs, length_keyBits, HashTree.extendMerklePath, emptySiblings]
    simp
  length := Nat.zero_le _

theorem proveEntries_empty (keys : List Key) :
    Tree.proveEntries h (keys.zip (keys.map fun _ => [])) (WorkingPatchSet.new version .empty) =
      some (keys.map fun key => ⟨TreeEntry.empty key, []⟩) := by
  induction keys with
  | nil => rfl
  | cons key keys ih =>
    rw [List.map_cons, List.zip_cons_cons, Tree.proveEntries,
      show (WorkingPatchSet.new version .empty).createProof h key [] 0 =
        some (none, MerklePath.new 0, WorkingPatchSet.new version .empty) from rfl]
    simp only [Option.bind_eq_bind, Option.bind_some, ih]
    rfl

theorem StoredAt.loadEntries_eq (hstored : StoredAt h db version m t) (keys : List Key) :
    ∃ prefixes patch proofs, Tree.loadEntries db version keys = .ok (some (prefixes, patch)) ∧
      List.Forall₂ (fun key p => Tree.extractEntry patch key p = entryAt m key) keys prefixes ∧
      Tree.proveEntries h (keys.zip prefixes) patch = some proofs ∧
      List.Forall₂ (EntryProof h m) keys proofs := by
  rw [Tree.loadEntries]
  rcases hstored.root with ⟨hnone, hroot⟩ | ⟨node, hnode, hroot, -⟩
  · have hm := hstored.eq_none hnone
    refine ⟨keys.map fun _ => [], WorkingPatchSet.new version .empty, _, ?_, ?_,
      proveEntries_empty keys, ?_⟩
    · rw [hroot]
      rfl
    · rw [List.forall₂_map_right_iff, List.forall₂_same]
      intro key _
      simp [entryAt, hm, Tree.extractEntry, WorkingPatchSet.new, WorkingPatchSet.get, changes]
    · rw [List.forall₂_map_right_iff, List.forall₂_same]
      exact fun key _ => entryProof_of_none hm key
  · have hwork := hstored.working_rootPatch hnode (Nat.lt_succ_self version) (checkedPred version)
    obtain ⟨prefixes, patch, hload, hlongest, hwork', -⟩ :=
      hwork.loadAncestors_eq hstored (Nat.lt_succ_self version) keys
    obtain ⟨proofs, hprove, hproofs⟩ := hwork'.proveEntries_eq hstored.maps
      fun item hitem => ((List.forall₂_iff_zip.mp hlongest).2 hitem).toResolved
    refine ⟨prefixes, patch.withVersion version, proofs, ?_, ?_, ?_, ?_⟩
    · have hpatch : WorkingPatchSet.new version (.filled (keyCount m) (.internal node)) =
          (rootPatch (version + 1) (checkedPred version) (.internal node)).withVersion version :=
        rfl
      rw [hroot]
      simp only [hpatch, loadAncestors_withVersion, hload, Option.map_some]
    · change List.Forall₂ (fun key p => Tree.extractEntry patch key p = entryAt m key) keys prefixes
      exact hlongest.imp fun key p hp => hp.extractEntry_eq hwork' hstored.maps
    · rw [proveEntries_withVersion, hprove]
    · rw [← List.map_fst_zip hlongest.length_eq.le, List.forall₂_map_left_iff]
      exact hproofs

theorem StoredAt.entries_eq (hstored : StoredAt h db version m t) (keys : List Key) :
    Tree.entries db version keys = .ok (some (keys.map (entryAt m))) := by
  obtain ⟨prefixes, patch, -, hload, hentries, -⟩ := hstored.loadEntries_eq keys
  rw [Tree.entries, hload]
  simp only [Except.map, Option.map_some]
  rw [map_zip_of_forall₂ hentries]

theorem StoredAt.entriesWithProofs_eq (hstored : StoredAt h db version m t) (keys : List Key) :
    ∃ proofs, Tree.entriesWithProofs h db version keys = .ok (some proofs) ∧
      List.Forall₂ (EntryProof h m) keys proofs := by
  obtain ⟨prefixes, patch, proofs, hload, -, hprove, hproofs⟩ := hstored.loadEntries_eq keys
  refine ⟨proofs, ?_, hproofs⟩
  rw [Tree.entriesWithProofs, hload]
  simp only [Except.map, Option.bind_some, hprove]

theorem verify_ok_iff {rootHash : ValueHash} :
    proof.verify h rootHash = .ok () ↔
      (proof.base.leafIndex = 0 → proof.base.value = ValueHash.zero) ∧
        h.foldMerklePath proof.merklePath proof.base = rootHash := by
  rw [TreeEntryWithProof.verify]
  split_ifs with hmissing hroot
  · exact iff_of_false (by rintro ⟨⟩) fun hok => hmissing.2 (hok.1 hmissing.1)
  · exact iff_of_false (by rintro ⟨⟩) fun hok => hroot hok.2
  · refine iff_of_true rfl ⟨fun hindex => ?_, not_not.mp hroot⟩
    exact not_not.mp fun hvalue => hmissing ⟨hindex, hvalue⟩

/-- `TreeEntryWithProof::verify` accepts the entries of the tree, except for values under leaf
index 0, which it takes for a missing value. -/
theorem EntryProof.verify_iff (hproof : EntryProof h m key proof) :
    proof.verify h (h.treeHash m) = .ok () ↔
      ((entryAt m key).leafIndex = 0 → (entryAt m key).value = ValueHash.zero) := by
  rw [verify_ok_iff, hproof.base, and_iff_left]
  exact foldMerklePath_of_siblings hproof.length hproof.path

/-- What the check accepts for a tree is the entry of the tree. -/
theorem verify_sound (hlen : proof.merklePath.length ≤ treeDepth)
    (hok : proof.verify h (h.treeHash m) = .ok ()) :
    proof.base = entryAt m proof.base.key ∨ Collision h.hashInput
      (h.pathInputs proof.merklePath proof.base ++ h.keyInputs m proof.base.key) :=
  (foldMerklePath_binding hlen (verify_ok_iff.mp hok).2).imp And.left id

def twoNeighbours : List TreeInstruction :=
  [.write ⟨4, Vector.replicate 32 7, 1⟩, .write ⟨5, Vector.replicate 32 8, 2⟩]

theorem verify_sound_neighbours :
    ∃ proof : TreeEntryWithProof, proof.base = ⟨5, Vector.replicate 32 8, 2⟩ ∧
      proof.merklePath ≠ [] ∧ proof.merklePath.length ≤ treeDepth ∧
      proof.verify sha256Tree (sha256Tree.treeHash (applyAll (fun _ => none) twoNeighbours)) =
        .ok () ∧
      (proof.base = entryAt (applyAll (fun _ => none) twoNeighbours) proof.base.key ∨
        Collision sha256Tree.hashInput
          (sha256Tree.pathInputs proof.merklePath proof.base ++
            sha256Tree.keyInputs (applyAll (fun _ => none) twoNeighbours) proof.base.key)) := by
  obtain ⟨-, db, -, -, -, hhist⟩ :=
    (history_empty (h := sha256Tree)).extendWithProofs_eq twoNeighbours
  obtain ⟨t, hstored⟩ := hhist.stored 0 _ rfl
  obtain ⟨proofs, -, hall⟩ := hstored.entriesWithProofs_eq [5]
  cases hall with
  | @cons _ proof _ _ hproof _ =>
    have hok := hproof.verify_iff.mpr fun h => absurd h (by decide +kernel)
    refine ⟨proof, hproof.base.trans (by decide +kernel), fun hnil => ?_, hproof.length, hok,
      verify_sound hproof.length hok⟩
    have hlowest : (sha256Tree.extendMerklePath []).head? ≠
        (sha256Tree.keySiblings (applyAll (latest []) twoNeighbours) 5).head? := by
      decide +kernel
    rw [← hproof.path, hnil] at hlowest
    exact hlowest rfl

theorem History.loadEntries_of_ge {maps : List Contents}
    (hhist : History h db maps) (hversion : maps.length ≤ version) (keys : List Key) :
    Tree.loadEntries db version keys = .error ⟨version, maps.length⟩ := by
  rw [Tree.loadEntries, hhist.future version hversion, hhist.count]

/-- Every version can be read after any number of later blocks: the entries are those of the map
at that version, and all proofs pass the check against its root hash. -/
theorem entries_extendAll (h : HashTree) (blocks : List (List TreeInstruction)) (version : ℕ)
    (keys : List Key) :
    ∃ db, Tree.extendAll h Database.empty blocks = some db ∧
      (blocks.length ≤ version →
        Tree.entries db version keys = .error ⟨version, blocks.length⟩ ∧
        Tree.entriesWithProofs h db version keys = .error ⟨version, blocks.length⟩) ∧
      (version < blocks.length → ∃ rootHash proofs,
        Tree.rootHash h db version = some rootHash ∧
        Tree.entries db version keys = .ok (some (keys.map
          (entryAt (applyAll (fun _ => none) (blocks.take (version + 1)).flatten)))) ∧
        Tree.entriesWithProofs h db version keys = .ok (some proofs) ∧
        proofs.map (·.base) = keys.map
          (entryAt (applyAll (fun _ => none) (blocks.take (version + 1)).flatten)) ∧
        ∀ proof ∈ proofs, proof.verify h rootHash = .ok () ↔
          (proof.base.leafIndex = 0 → proof.base.value = ValueHash.zero)) := by
  obtain ⟨db, hrun, hhist⟩ := exists_history h blocks
  refine ⟨db, hrun, fun hge => ?_, fun hlt => ?_⟩
  · have hload := hhist.loadEntries_of_ge (by simpa using hge) keys
    rw [length_snapshots] at hload
    rw [Tree.entries, Tree.entriesWithProofs, hload]
    exact ⟨rfl, rfl⟩
  · obtain ⟨t, hstored⟩ := hhist.stored version _ (getElem?_snapshots hlt)
    obtain ⟨proofs, hproofs, hall⟩ := hstored.entriesWithProofs_eq keys
    refine ⟨_, proofs, hstored.rootHash_eq, hstored.entries_eq keys, hproofs, ?_,
      fun proof hproof => ?_⟩
    · symm
      rw [← List.forall₂_eq_eq_eq, List.forall₂_map_left_iff, List.forall₂_map_right_iff]
      exact hall.imp fun key proof hproof => hproof.base.symm
    · obtain ⟨i, hi⟩ := List.mem_iff_getElem?.mp hproof
      obtain ⟨key, -, hkey⟩ := hall.flip.exists_getElem? hi
      rw [EntryProof.verify_iff hkey, EntryProof.base hkey]

end RollupX.MerkleTree
