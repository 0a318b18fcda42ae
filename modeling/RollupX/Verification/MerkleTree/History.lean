import RollupX.Verification.MerkleTree.Extend

/-! The tree as a store of versions. Whatever blocks of instructions it has taken, version `v`
of the database is the plain Merkle tree over the map after the first `v + 1` blocks. -/

namespace RollupX.MerkleTree

open SparseMerkle Nibbles WorkingPatchSet

variable {h : HashTree} {db : Database} {patch : WorkingPatchSet} {t : Layout}
  {m : Contents} {version : ℕ}

def bareRoot : Layout :=
  Function.update (fun _ => none) [] (some (.internal .default))

theorem bareRoot_of_ne {p : Nibbles} (hp : p ≠ []) : bareRoot p = none :=
  Function.update_of_ne hp ..

theorem eq_default_of_bareRoot {p : Nibbles} {x : Node} (hx : bareRoot p = some x) :
    p = [] ∧ x = .internal .default := by
  rcases eq_or_ne p [] with rfl | hne
  · rw [bareRoot, Function.update_self, Option.some.injEq] at hx
    exact ⟨rfl, hx.symm⟩
  · rw [bareRoot_of_ne hne] at hx
    cases hx

theorem wellFormed_bareRoot : WellFormed h (fun _ => False) bareRoot := by
  intro p
  rcases eq_or_ne p [] with rfl | hne
  · rw [LocalOk, bareRoot, Function.update_self]
    refine ⟨by decide, fun cache hc => ?_, fun i => ?_⟩
    · cases hc
    · rw [Function.update_of_ne (by simp)]
      trivial
  · rw [LocalOk, bareRoot_of_ne hne]
    exact fun i => bareRoot_of_ne (by simp)

theorem prepared_bareRoot (hm : ∀ key, m key = none) :
    Prepared h db version m .default
      ((WorkingPatchSet.new version .empty).insert [] (.internal .default)) bareRoot := by
  have hchanges : ∀ p w, ((WorkingPatchSet.new version .empty).insert []
      (.internal .default)).changes p = some w → p = [] ∧ w = ⟨.internal .default, none⟩ := by
    intro p w hp
    rcases eq_or_ne p [] with rfl | hne
    · rw [changes_insert_self, Option.some.injEq] at hp
      exact ⟨rfl, hp.symm⟩
    · rw [changes_insert_of_ne hne] at hp
      cases hp
  refine ⟨⟨wellFormed_bareRoot, ⟨_, _, changes_insert_self⟩, fun p w hp => ?_, fun p i hi => ?_,
    fun p i node ref child hp => ?_⟩, fun leaf => ?_, rfl, rfl, fun p x hx => ?_,
    fun p i node ref hp => ?_, fun i ref href => by cases href⟩
  · obtain ⟨rfl, rfl⟩ := hchanges p w hp
    rfl
  · obtain ⟨w, hw⟩ := Option.ne_none_iff_exists'.mp hi
    exact absurd (hchanges _ w hw).1 (by simp)
  · obtain ⟨-, heq⟩ := eq_default_of_bareRoot hp
    rw [Node.internal.inj heq]
    rintro ⟨⟩
  · refine iff_of_false (by simp [hm]) ?_
    rintro ⟨p, hp⟩
    cases (eq_default_of_bareRoot hp).2
  · obtain ⟨-, rfl⟩ := eq_default_of_bareRoot hx
    rfl
  · obtain ⟨-, heq⟩ := eq_default_of_bareRoot hp
    rw [Node.internal.inj heq]
    rintro ⟨⟩

theorem resolved_bareRoot (hroot : patch.changes [] ≠ none) (key : Key) :
    Resolved patch bareRoot key [] where
  loaded n hn := by
    cases n with
    | zero => exact hroot
    | succ n => exact absurd (bareRoot_of_ne (by simp [new_succ])) hn
  onPath := rfl
  internal j hj := absurd hj (Nat.not_lt_zero j)

theorem StoredAt.eq_none (hstored : StoredAt h db version m t) (hroot : t [] = none) (key : Key) :
    m key = none := by
  have hends : Ends t key 0 := ⟨by simp, fun node hnode => by cases hroot.symm.trans hnode⟩
  exact hstored.maps.eq_none hstored.wf hends fun leaf hleaf => by cases hroot.symm.trans hleaf

theorem keyCount_eq_zero (hm : ∀ key, m key = none) : keyCount m = 0 := by
  simp [keyCount, hm]

/-- The preparation of a new version for instructions with these keys. -/
def Prepares (h : HashTree) (db : Database) (version : ℕ) (m : Contents) (keys : List Key) : Prop :=
  ∃ prefixes patch₀ root patch t,
    (Storage.new h db version).updater.patchSet.loadAncestors keys db = some (prefixes, patch₀) ∧
    patch₀.ensureInternalRootNode = (root, patch) ∧ Prepared h db version m root patch t ∧
    List.Forall₂ (Resolved patch t) keys prefixes ∧
    (Storage.new h db version).leafCount = keyCount m

theorem prepares_of_empty (hroot : ((checkedPred version).bind db.root).getD .empty = .empty)
    (hm : ∀ key, m key = none) (keys : List Key) : Prepares h db version m keys := by
  have hpatch : (Storage.new h db version).updater.patchSet =
      WorkingPatchSet.new version .empty := by
    simp only [Storage.new, hroot]
  refine ⟨keys.map fun _ => [], WorkingPatchSet.new version .empty, .default, _, bareRoot, ?_, rfl,
    prepared_bareRoot hm, ?_, ?_⟩
  · rw [hpatch]
    rfl
  · rw [List.forall₂_map_right_iff, List.forall₂_same]
    exact fun key _ => resolved_bareRoot (by simp [changes_insert_self]) key
  · rw [keyCount_eq_zero hm, Storage.new, hroot]
    rfl

theorem StoredAt.prepares (hstored : StoredAt h db version m t) {node : InternalNode}
    (hnode : t [] = some (.internal node))
    (hroot : db.root version = some (.filled (keyCount m) (.internal node)))
    (hcount : keyCount m ≠ 0) (keys : List Key) : Prepares h db (version + 1) m keys := by
  have hstart : ((checkedPred (version + 1)).bind db.root).getD .empty =
      .filled (keyCount m) (.internal node) := by
    rw [show (checkedPred (version + 1)).bind db.root = db.root version from rfl, hroot]
    rfl
  have hpatch : (Storage.new h db (version + 1)).updater.patchSet =
      rootPatch (version + 1) (some version) (.internal node) := by
    simp only [Storage.new, hstart]
    rfl
  have hwork := hstored.working_rootPatch hnode (Nat.lt_succ_self version) (some version)
  obtain ⟨prefixes, patch, hload, hresolved, hwork', hversion⟩ :=
    hwork.loadAncestors_eq hstored (Nat.lt_succ_self version) keys
  have hclone : node.clone = node := Node.internal.inj (hstored.clone _ _ hnode)
  have hget : patch.get [] = some (.internal node) := by
    obtain ⟨inner, prev, hchange⟩ := hwork'.root
    rw [get_of_changes hchange, ← hnode, hwork'.agree _ _ hchange]
  refine ⟨prefixes, patch, node, patch, t, ?_, ?_, ⟨hwork', hstored.maps, hversion, hnode,
    hstored.clone, fun p i inner ref hp href => ?_, fun _ _ _ => hcount⟩,
    hresolved.imp fun _ _ hlongest => hlongest.toResolved, ?_⟩
  · rw [hpatch, hload]
  · rw [ensureInternalRootNode, hget]
    simp only [hclone]
  · exact Nat.lt_succ_of_le (hstored.nodes p i inner ref hp href).1
  · simp only [Storage.new, hstart]
    rfl

/-- The database has a version for each of these maps. -/
structure History (h : HashTree) (db : Database) (maps : List Contents) : Prop where
  count : (db.manifest.getD {}).versionCount = maps.length
  tags : (db.manifest.getD {}).tags.getD (TreeTags.new h.name) = TreeTags.new h.name
  stored : ∀ version m, maps[version]? = some m → ∃ t, StoredAt h db version m t
  future : ∀ version, maps.length ≤ version → db.root version = none

def latest (maps : List Contents) : Contents :=
  maps.getLast?.getD fun _ => none

@[simp] theorem latest_concat (maps : List Contents) (m : Contents) : latest (maps ++ [m]) = m := by
  simp [latest]

theorem history_empty : History h Database.empty [] where
  count := rfl
  tags := rfl
  stored version m hm := by cases hm
  future _ _ := rfl

variable {maps : List Contents}

theorem History.prepares (hhist : History h db maps) (keys : List Key) :
    Prepares h db maps.length (latest maps) keys := by
  rcases List.eq_nil_or_concat maps with rfl | ⟨before, m, rfl⟩
  · exact prepares_of_empty rfl (fun _ => rfl) keys
  · rw [List.concat_eq_append] at hhist ⊢
    obtain ⟨t, hstored⟩ := hhist.stored before.length m (by simp)
    rw [latest_concat, List.length_append, List.length_singleton]
    rcases hstored.root with ⟨hnone, hroot⟩ | ⟨node, hnode, hroot, hcount⟩
    · refine prepares_of_empty ?_ (hstored.eq_none hnone) keys
      rw [show (checkedPred (before.length + 1)).bind db.root = db.root before.length from rfl,
        hroot]
      rfl
    · exact hstored.prepares hnode hroot hcount keys

/-- One block: the tree returns the logs of the map and of the plain Merkle tree over it, and the
database gets one more version. -/
theorem History.extendWithProofs_eq (hhist : History h db maps)
    (instructions : List TreeInstruction) :
    ∃ output db', Tree.extendWithProofs h db instructions = some (output, db') ∧
      Logs (FullLog h) (latest maps) instructions output.logs ∧
      output.leafCount = keyCount (applyAll (latest maps) instructions) ∧
      History h db' (maps ++ [applyAll (latest maps) instructions]) := by
  obtain ⟨prefixes, patch₀, root, patch, t, hload, hensure, hprepared, hresolved, hcount⟩ :=
    hhist.prepares (instructions.map (·.key))
  obtain ⟨output, patchSet, t', hrun, hlogs, hleaves, hmanifest, hversion, hone, hstored⟩ :=
    hprepared.extendWithProofs_eq hload hensure hresolved hcount
  refine ⟨output, db.applyPatch patchSet, ?_, hlogs, hleaves, ?_, ?_, fun v m hm => ?_,
    fun v hv => ?_⟩
  · rw [Tree.extendWithProofs, hhist.count]
    simp only [hrun, Option.bind_eq_bind, Option.bind_some]
    rfl
  · rw [show (db.applyPatch patchSet).manifest = some patchSet.manifest from rfl, hmanifest]
    simp [Storage.new]
  · rw [show (db.applyPatch patchSet).manifest = some patchSet.manifest from rfl, hmanifest]
    exact hhist.tags
  · rcases Nat.lt_trichotomy v maps.length with hlt | rfl | hgt
    · rw [List.getElem?_append_left hlt] at hm
      obtain ⟨t, hold⟩ := hhist.stored v m hm
      exact ⟨t, hold.applyPatch hone (hversion ▸ hlt)⟩
    · rw [List.getElem?_concat_length, Option.some.injEq] at hm
      exact ⟨t', hm ▸ hstored⟩
    · rw [List.getElem?_eq_none (by simp; omega)] at hm
      cases hm
  · rw [List.length_append, List.length_singleton] at hv
    rw [root_applyPatch_of_ne (by omega), hhist.future v (by omega)]

def Tree.extendAll (h : HashTree) (db : Database) (blocks : List (List TreeInstruction)) :
    Option Database :=
  blocks.foldlM (fun db instructions => (Tree.extendWithProofs h db instructions).map (·.2)) db

def snapshots (m : Contents) : List (List TreeInstruction) → List Contents
  | [] => []
  | instructions :: blocks =>
    applyAll m instructions :: snapshots (applyAll m instructions) blocks

@[simp] theorem length_snapshots (blocks : List (List TreeInstruction)) :
    (snapshots m blocks).length = blocks.length := by
  induction blocks generalizing m with
  | nil => rfl
  | cons instructions blocks ih => simp [snapshots, ih]

theorem applyAll_append (instructions instructions' : List TreeInstruction) :
    applyAll m (instructions ++ instructions') = applyAll (applyAll m instructions) instructions' :=
  List.foldl_append ..

theorem getElem?_snapshots {blocks : List (List TreeInstruction)} (hlt : version < blocks.length) :
    (snapshots m blocks)[version]? = some (applyAll m (blocks.take (version + 1)).flatten) := by
  induction blocks generalizing m version with
  | nil => cases hlt
  | cons instructions blocks ih =>
    cases version with
    | zero => simp [snapshots]
    | succ version =>
      rw [snapshots, List.getElem?_cons_succ, ih (by simpa using hlt), List.take_succ_cons,
        List.flatten_cons, applyAll_append]

theorem latest_append_snapshots (maps : List Contents) (blocks : List (List TreeInstruction)) :
    latest (maps ++ snapshots (latest maps) blocks) = applyAll (latest maps) blocks.flatten := by
  induction blocks generalizing maps with
  | nil => simp [snapshots]
  | cons instructions blocks ih =>
    have ih' := ih (maps ++ [applyAll (latest maps) instructions])
    rw [latest_concat, List.append_assoc, List.singleton_append] at ih'
    rw [snapshots, ih', List.flatten_cons, applyAll_append]

/-- Any number of blocks: no call panics, and every earlier version stays as it was. -/
theorem History.exists_extendAll (hhist : History h db maps)
    (blocks : List (List TreeInstruction)) :
    ∃ db', Tree.extendAll h db blocks = some db' ∧
      History h db' (maps ++ snapshots (latest maps) blocks) := by
  induction blocks generalizing db maps with
  | nil => exact ⟨db, rfl, by simpa [snapshots] using hhist⟩
  | cons instructions blocks ih =>
    obtain ⟨output, db₁, hrun, -, -, hhist₁⟩ := hhist.extendWithProofs_eq instructions
    obtain ⟨db', hrest, hhist'⟩ := ih hhist₁
    rw [latest_concat, List.append_assoc, List.singleton_append] at hhist'
    refine ⟨db', ?_, hhist'⟩
    rw [Tree.extendAll, List.foldlM_cons, hrun]
    exact hrest

theorem exists_history (h : HashTree) (blocks : List (List TreeInstruction)) :
    ∃ db, Tree.extendAll h Database.empty blocks = some db ∧
      History h db (snapshots (fun _ => none) blocks) :=
  history_empty.exists_extendAll blocks

theorem treeHash_of_none (hm : ∀ key, m key = none) : h.treeHash m = h.emptyTreeHash :=
  root_of_none fun _ _ => hm _

theorem StoredAt.rootHash_eq (hstored : StoredAt h db version m t) :
    Tree.rootHash h db version = some (h.treeHash m) := by
  rw [Tree.rootHash]
  rcases hstored.root with ⟨hnone, hroot⟩ | ⟨node, hnode, hroot, -⟩
  · rw [hroot, treeHash_of_none (hstored.eq_none hnone)]
    rfl
  · have hash := hstored.wf.hash_eq hstored.maps hnode fun _ _ hq => hq
    rw [hroot, Option.map_some, Root.hash, HashTree.treeHash]
    simpa using hash

theorem History.rootHash_eq (hhist : History h db maps) (version : ℕ) :
    Tree.rootHash h db version = maps[version]?.map h.treeHash := by
  cases hm : maps[version]? with
  | some m =>
    obtain ⟨t, hstored⟩ := hhist.stored version m hm
    exact hstored.rootHash_eq
  | none =>
    rw [Tree.rootHash, hhist.future version (List.getElem?_eq_none_iff.mp hm)]
    rfl

theorem History.latestVersion_eq (hhist : History h db maps) :
    Tree.latestVersion db = checkedPred maps.length := by
  rw [← hhist.count, Tree.latestVersion]
  cases db.manifest <;> rfl

theorem History.latestRootHash_eq (hhist : History h db maps) :
    Tree.latestRootHash h db = h.treeHash (latest maps) := by
  rw [Tree.latestRootHash, hhist.latestVersion_eq]
  rcases List.eq_nil_or_concat maps with rfl | ⟨before, m, rfl⟩
  · exact (treeHash_of_none fun _ => rfl).symm
  · rw [List.concat_eq_append, List.length_append, List.length_singleton,
      show (checkedPred (before.length + 1)).bind (Tree.rootHash h db) =
        Tree.rootHash h db before.length from rfl, hhist.rootHash_eq]
    simp

theorem History.withHasher_eq (hhist : History h db maps) : Tree.withHasher h db = .ok db := by
  have htags := hhist.tags
  rw [Tree.withHasher]
  cases hmanifest : db.manifest with
  | none => rfl
  | some manifest =>
    rw [hmanifest, Option.getD_some] at htags
    rw [Option.bind_some]
    cases hm : manifest.tags with
    | none => rfl
    | some tags =>
      rw [hm, Option.getD_some] at htags
      subst htags
      simp [TreeTags.ensureConsistency, TreeTags.new, Except.map]

/-- Whatever blocks were processed, no call panics, and the root hash of every version is that of
the plain Merkle tree over the map after the blocks up to it. -/
theorem rootHash_extendAll (h : HashTree) (blocks : List (List TreeInstruction)) :
    ∃ db, Tree.extendAll h Database.empty blocks = some db ∧
      (∀ version, Tree.rootHash h db version =
        if version < blocks.length then
          some (h.treeHash (applyAll (fun _ => none) (blocks.take (version + 1)).flatten))
        else none) ∧
      Tree.latestRootHash h db = h.treeHash (applyAll (fun _ => none) blocks.flatten) ∧
      Tree.withHasher h db = .ok db := by
  obtain ⟨db, hrun, hhist⟩ := exists_history h blocks
  refine ⟨db, hrun, fun version => ?_, ?_, hhist.withHasher_eq⟩
  · rw [hhist.rootHash_eq]
    split_ifs with hlt
    · rw [getElem?_snapshots hlt, Option.map_some]
    · rw [List.getElem?_eq_none (by simpa using hlt), Option.map_none]
  · have hlatest := latest_append_snapshots [] blocks
    rw [hhist.latestRootHash_eq]
    exact congrArg h.treeHash hlatest

end RollupX.MerkleTree
