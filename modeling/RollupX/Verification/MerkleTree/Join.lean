import RollupX.Verification.MerkleTree.Finalize

/-! The parts are split off a patch and joined again below a new root, and what has changed is
written as the next version of the tree. -/

namespace RollupX.MerkleTree

open SparseMerkle Nibbles WorkingPatchSet

variable {h : HashTree} {db : Database} {patch : WorkingPatchSet} {stale : Nibbles → Prop}
  {t : Layout} {m : Contents} {version : ℕ}

section Split

variable {i : Nibble}

theorem changes_split (p : Nibbles) :
    (patch.split i).changes p = if p.head?.all (· = i) then patch.changes p else none :=
  changes_filter patch.rootVersion (fun p => p.head?.all (· = i)) patch.entries

theorem changes_split_nil : (patch.split i).changes [] = patch.changes [] :=
  changes_split []

theorem changes_split_self (rest : Nibbles) :
    (patch.split i).changes (i :: rest) = patch.changes (i :: rest) := by
  simp [changes_split]

theorem changes_split_of_ne {j : Nibble} (hj : j ≠ i) (rest : Nibbles) :
    (patch.split i).changes (j :: rest) = none := by
  simp [changes_split, hj]

theorem changes_split_cases (patch : WorkingPatchSet) (i : Nibble) (p : Nibbles) :
    (patch.split i).changes p = patch.changes p ∨ (patch.split i).changes p = none := by
  rw [changes_split]
  exact ite_eq_or_eq ..

theorem Working.split (hwork : Working h db patch stale t)
    (hclone : ∀ p x, t p = some x → x.clone = x)
    (hold : ∀ p i node ref, t p = some (.internal node) → node.children i = some ref →
      ref.version < patch.rootVersion) (i : Nibble) : Working h db (patch.split i) stale t where
  wf := hwork.wf
  root := by simpa only [changes_split_nil] using hwork.root
  agree p w hp := by
    rcases changes_split_cases patch i p with heq | hnone
    · rw [heq] at hp
      exact hwork.agree p w hp
    · rw [hnone] at hp
      cases hp
  closed p j hj := by
    cases p with
    | nil =>
      obtain ⟨node, prev, hroot⟩ := hwork.root
      simp [changes_split_nil, hroot]
    | cons k rest =>
      rcases eq_or_ne k i with rfl | hne
      · rw [changes_split_self]
        rw [List.cons_append, changes_split_self] at hj
        exact hwork.closed _ j hj
      · rw [List.cons_append, changes_split_of_ne hne] at hj
        exact absurd rfl hj
  tracked p j node ref child hp href hchild := by
    have htracked := hwork.tracked p j node ref child hp href hchild
    have hlt := hold p j node ref hp href
    have hcl := hclone _ _ hchild
    rcases changes_split_cases patch i (p ++ [j]) with heq | hnone
    · rw [Tracked, heq]
      exact htracked
    · rw [Tracked, hnone]
      rw [Tracked] at htracked
      split at htracked
      · rcases htracked with ⟨heq, -⟩ | ⟨-, -, hdb⟩
        · exact absurd heq hlt.ne
        · exact ⟨hlt, hcl, by rw [hdb, hcl]⟩
      · exact htracked

theorem Resolved.split {key : Key} {p : Nibbles} (hresolved : Resolved patch t key p)
    (hkey : nibble key 0 = i) : Resolved (patch.split i) t key p where
  loaded n hn := by
    have hchange := hresolved.loaded n hn
    cases n with
    | zero => exact changes_split_nil.trans_ne hchange
    | succ n =>
      have hpath := onPath_new key (n + 1)
      cases hp : new key (n + 1) with
      | nil => cases congrArg List.length hp ▸ length_new key (n + 1)
      | cons j rest =>
        rw [hp] at hpath hchange
        obtain rfl := hpath.head.trans hkey
        rwa [changes_split_self]
  onPath := hresolved.onPath
  internal := hresolved.internal

end Split

section Join

variable {updaters : Nibble → TreeUpdater}

def mergeParts (updaters : Nibble → TreeUpdater) : TreeUpdater :=
  (List.finRange 16).tail.foldl (fun merged i => merged.merge (updaters i)) (updaters firstPart)

theorem changes_merge_cons (patch other : WorkingPatchSet) (j : Nibble) (rest : Nibbles) :
    (patch.merge other).changes (j :: rest) =
      (other.changes (j :: rest)).or (patch.changes (j :: rest)) := by
  rw [changes, WorkingPatchSet.merge, List.lookup_append]
  congr 1
  exact (changes_filter other.rootVersion (fun p => p ≠ []) other.entries).trans (if_pos (by simp))

theorem foldl_merge (honly : ∀ i j rest, j ≠ i → (updaters i).patchSet.changes (j :: rest) = none)
    (parts : List Nibble) (acc : TreeUpdater) :
    let merged := parts.foldl (fun merged i => merged.merge (updaters i)) acc
    merged.patchSet.rootVersion = acc.patchSet.rootVersion ∧
      (∀ j rest, merged.patchSet.changes (j :: rest) =
        if j ∈ parts then
          ((updaters j).patchSet.changes (j :: rest)).or (acc.patchSet.changes (j :: rest))
        else acc.patchSet.changes (j :: rest)) ∧
      merged.newLeaves = acc.newLeaves + (parts.map fun i => (updaters i).newLeaves).sum := by
  induction parts generalizing acc with
  | nil => simp
  | cons i parts ih =>
    obtain ⟨hversion, hchanges, hleaves⟩ := ih (acc.merge (updaters i))
    refine ⟨hversion, fun j rest => ?_, ?_⟩
    · have hmerge : (acc.merge (updaters i)).patchSet.changes (j :: rest) =
          ((updaters i).patchSet.changes (j :: rest)).or (acc.patchSet.changes (j :: rest)) :=
        changes_merge_cons ..
      rw [List.foldl_cons, hchanges, hmerge]
      rcases eq_or_ne j i with rfl | hne
      · rw [if_pos List.mem_cons_self]
        split_ifs
        · rw [← Option.or_assoc, Option.or_self]
        · rfl
      · simp only [honly i j rest hne, Option.none_or, List.mem_cons, hne, false_or]
    · rw [List.foldl_cons, hleaves]
      simp [TreeUpdater.merge, Nat.add_assoc]

theorem mergeParts_spec
    (honly : ∀ i j rest, j ≠ i → (updaters i).patchSet.changes (j :: rest) = none) :
    (mergeParts updaters).patchSet.rootVersion = (updaters firstPart).patchSet.rootVersion ∧
      (∀ j rest, (mergeParts updaters).patchSet.changes (j :: rest) =
        (updaters j).patchSet.changes (j :: rest)) ∧
      (mergeParts updaters).newLeaves = ∑ i, (updaters i).newLeaves := by
  obtain ⟨hversion, hchanges, hleaves⟩ :=
    foldl_merge honly (List.finRange 16).tail (updaters firstPart)
  refine ⟨hversion, fun j rest => ?_, ?_⟩
  · rw [mergeParts, hchanges]
    rcases eq_or_ne j firstPart with rfl | hne
    · rw [if_neg (by decide)]
    · rw [if_pos ((by decide : ∀ j : Nibble, j ≠ firstPart → j ∈ (List.finRange 16).tail) j hne),
        honly firstPart j rest hne, Option.or_none]
  · rw [mergeParts, hleaves, Fin.sum_univ_def]
    rfl

def joinTrees (root : InternalNode) (trees : Nibble → Layout) : Layout
  | [] => some (.internal root)
  | i :: rest => trees i (i :: rest)

end Join

/-- All that is known of the parts after the last instruction, with the new root node. -/
structure Joined (h : HashTree) (db : Database) (version : ℕ) (root root' : InternalNode)
    (instructions : List TreeInstruction) (m : Contents)
    (updaters : Nibble → TreeUpdater) (trees : Nibble → Layout) : Prop
    extends RootSet version
      (fun i => (((mergeParts updaters).patchSet.get [i]).map Node.isLeaf).getD false)
      instructions root root' where
  parts : ∀ i, Part h db version root instructions m i (updaters i) (trees i)
  rootOk : RootOk h m root'

namespace Joined

variable {root root' : InternalNode} {instructions : List TreeInstruction}
  {updaters : Nibble → TreeUpdater} {trees : Nibble → Layout}
  (hjoined : Joined h db version root root' instructions m updaters trees)

include hjoined

theorem only : ∀ i j rest, j ≠ i → (updaters i).patchSet.changes (j :: rest) = none :=
  fun i => (hjoined.parts i).only

theorem changes_eq (i : Nibble) (rest : Nibbles) :
    (mergeParts updaters).patchSet.changes (i :: rest) =
      (updaters i).patchSet.changes (i :: rest) :=
  (mergeParts_spec hjoined.only).2.1 i rest

theorem exists_written {entry : TreeEntry} (hentry : .write entry ∈ instructions) :
    ∃ w, (updaters (nibble entry.key 0)).patchSet.changes [nibble entry.key 0] = some w ∧
      trees (nibble entry.key 0) [nibble entry.key 0] = some w.inner := by
  have hpart := hjoined.parts (nibble entry.key 0)
  obtain ⟨hloaded, hsome⟩ := hpart.written entry hentry rfl
  obtain ⟨own, hown, heq⟩ := hpart.maps
  obtain ⟨node, prev, hroot⟩ := hpart.working.root
  have hne : trees (nibble entry.key 0) (new entry.key 1) ≠ none := by
    intro hnone
    refine hsome ?_
    rw [← heq _ rfl]
    exact hown.eq_none hpart.working.wf (hpart.working.wf.ends_of_none (n := 0)
      (hpart.working.agree [] _ hroot) hnone) (by simp [hnone])
  obtain ⟨w, hw⟩ := Option.ne_none_iff_exists'.mp (hloaded 1 hne)
  exact ⟨w, hw, hpart.working.agree _ w hw⟩

theorem refOk (i : Nibble) : RefOk h (fun _ => False) [i] (root'.children i) (trees i [i]) := by
  have hpart := hjoined.parts i
  obtain ⟨own, hown, heq⟩ := hpart.maps
  refine refOk_iff.mpr ⟨?_, fun ref x href hx _ => ?_⟩
  · rcases touched_or instructions i with ⟨entry, hentry, rfl⟩ | hnone
    · obtain ⟨ref, href, -, hleaf⟩ := hjoined.set entry hentry
      obtain ⟨w, hw, hx⟩ := hjoined.exists_written hentry
      rw [get_of_changes ((hjoined.changes_eq _ []).trans hw)] at hleaf
      rw [href, hx]
      exact congrArg some hleaf
    · rw [hjoined.kept i hnone]
      exact (refOk_iff.mp ((hpart.working.wf.internal (hpart.root_eq hnone)).2.2 i)).1
  · have hlevel := hjoined.rootOk.levels i
    rw [InternalNode.childHashes, href, Option.map_some, Option.getD_some] at hlevel
    rw [hlevel, List.length_singleton, Nat.mul_one,
      hpart.working.wf.subtreeHash_eq hown hx, subtreeHash_congr heq]
    rfl

theorem wellFormed : WellFormed h (fun _ => False) (joinTrees root' trees) := by
  intro p
  cases p with
  | nil =>
    refine ⟨by decide, fun cache hc => ⟨_, fun _ _ => rfl, hjoined.rootOk.cache cache hc⟩,
      fun i => hjoined.refOk i⟩
  | cons i rest =>
    refine ((hjoined.parts i).working.wf (i :: rest)).congr rfl (fun j => rfl) fun j hs => ?_
    simp only [RootStale, List.length_append, List.length_cons] at hs
    omega

theorem maps : Maps (joinTrees root' trees) m := by
  intro leaf
  obtain ⟨own, hown, heq⟩ := (hjoined.parts (nibble leaf.fullKey 0)).maps
  obtain ⟨node, prev, hroot⟩ := (hjoined.parts (nibble leaf.fullKey 0)).working.root
  rw [← heq _ rfl, hown leaf]
  constructor
  · rintro ⟨p, hp⟩
    refine ⟨p, ?_⟩
    cases p with
    | nil =>
      rw [(hjoined.parts _).working.agree [] _ hroot] at hp
      cases hp
    | cons i rest =>
      obtain rfl := ((hjoined.parts _).working.wf.leaf hp).1.head
      exact hp
  · rintro ⟨p, hp⟩
    cases p with
    | nil => cases hp
    | cons i rest =>
      obtain rfl := ((hjoined.parts i).working.wf.leaf hp).1.head
      exact ⟨_, hp⟩

/-- The merged patch with the new root holds the joined tree. -/
theorem working :
    Working h db ((mergeParts updaters).patchSet.insert [] (.internal root')) (fun _ => False)
      (joinTrees root' trees) where
  wf := hjoined.wellFormed
  root := ⟨root', _, changes_insert_self⟩
  agree p w hp := by
    cases p with
    | nil =>
      rw [changes_insert_self, Option.some.injEq] at hp
      rw [← hp]
      rfl
    | cons i rest =>
      rw [changes_insert_of_ne (by simp), hjoined.changes_eq] at hp
      exact (hjoined.parts i).working.agree _ w hp
  closed p j hj := by
    cases p with
    | nil => simp [changes_insert_self]
    | cons i rest =>
      rw [List.cons_append, changes_insert_of_ne (by simp), hjoined.changes_eq] at hj
      rw [changes_insert_of_ne (by simp), hjoined.changes_eq]
      exact (hjoined.parts i).working.closed _ j hj
  tracked p j node ref child hp href hchild := by
    have hversion : ∀ i, (mergeParts updaters).patchSet.rootVersion =
        (updaters i).patchSet.rootVersion := fun i => by
      rw [(mergeParts_spec hjoined.only).1, (hjoined.parts firstPart).version_eq,
        (hjoined.parts i).version_eq]
    cases p with
    | nil =>
      cases hp
      rw [List.nil_append, Tracked, changes_insert_of_ne (by simp), hjoined.changes_eq,
        rootVersion_insert, hversion j]
      rcases touched_or instructions j with ⟨entry, hentry, rfl⟩ | hnone
      · obtain ⟨ref', href', hrefVersion, -⟩ := hjoined.set entry hentry
        obtain ⟨w, hw, -⟩ := hjoined.exists_written hentry
        rw [href', Option.some.injEq] at href
        rw [hw, (hjoined.parts _).version_eq, ← href]
        refine .inl ⟨hrefVersion, fun v hv => ?_⟩
        rw [← (hjoined.parts (nibble entry.key 0)).version_eq]
        exact (hjoined.parts _).working.prev_lt (p := []) hw hv
      · rw [hjoined.kept j hnone] at href
        exact (hjoined.parts j).working.tracked [] j root ref child
          ((hjoined.parts j).root_eq hnone) href hchild
    | cons i rest =>
      rw [Tracked, List.cons_append, changes_insert_of_ne (by simp), hjoined.changes_eq,
        rootVersion_insert, hversion i]
      exact (hjoined.parts i).working.tracked _ j node ref child hp href hchild

end Joined

def Layout.clone (t : Layout) : Layout :=
  fun p => (t p).map Node.clone

theorem Layout.clone_internal {p : Nibbles} {node : InternalNode}
    (hp : t.clone p = some (.internal node)) :
    ∃ inner, t p = some (.internal inner) ∧ inner.clone = node := by
  rw [Layout.clone, Option.map_eq_some_iff] at hp
  obtain ⟨x, hx, hclone⟩ := hp
  cases x with
  | leaf leaf => cases hclone
  | internal inner => exact ⟨inner, hx, Node.internal.inj hclone⟩

@[simp] theorem Node.isLeaf_clone (x : Node) : x.clone.isLeaf = x.isLeaf := by
  cases x <;> rfl

@[simp] theorem Node.hash_clone (x : Node) (level : ℕ) : x.clone.hash h level = x.hash h level := by
  cases x <;> rfl

theorem Node.clone_clone (x : Node) : x.clone.clone = x.clone := by
  cases x <;> rfl

theorem WellFormed.clone (hw : WellFormed h stale t) : WellFormed h stale t.clone := by
  intro p
  have hok := hw p
  rw [LocalOk] at hok ⊢
  cases hp : t p with
  | none =>
    rw [hp] at hok
    rw [Layout.clone, hp]
    exact fun i => by rw [Layout.clone, hok i]; rfl
  | some x =>
    rw [hp] at hok
    rw [Layout.clone, hp]
    cases x with
    | leaf leaf => exact ⟨hok.1, fun i => by rw [Layout.clone, hok.2 i]; rfl⟩
    | internal node =>
      refine ⟨hok.1, (fun cache hc => by cases hc), fun i => ?_⟩
      obtain ⟨hleaf, hhash⟩ := refOk_iff.mp (hok.2.2 i)
      refine refOk_iff.mpr ⟨?_, fun ref x href hx hq => ?_⟩
      · rw [Layout.clone, Option.map_map, InternalNode.clone, hleaf]
        exact congrArg (Option.map · _) (funext fun x => (Node.isLeaf_clone x).symm)
      · obtain ⟨y, hy, rfl⟩ := Option.map_eq_some_iff.mp hx
        rw [hhash ref y href hy hq, Node.hash_clone]

theorem Maps.clone (hm : Maps t m) : Maps t.clone m := by
  intro leaf
  rw [hm leaf]
  refine exists_congr fun p => ?_
  rw [Layout.clone, Option.map_eq_some_iff]
  constructor
  · exact fun hp => ⟨_, hp, rfl⟩
  · rintro ⟨x, hx, hclone⟩
    cases x with
    | internal node => cases hclone
    | leaf inner =>
      cases hclone
      exact hx

theorem Working.selfRef_eq (hwork : Working h db patch stale t) {p : Nibbles} {i : Nibble}
    {node : InternalNode} {ref : ChildRef} (hp : t p = some (.internal node))
    (href : node.children i = some ref) (hchange : patch.changes (p ++ [i]) ≠ none) :
    patch.selfRef (p ++ [i]) = some ref := by
  obtain ⟨w, hw⟩ := Option.ne_none_iff_exists'.mp (hwork.closed p i hchange)
  have hparent := hwork.agree p w hw
  rw [hp, Option.some.injEq] at hparent
  simp only [selfRef, splitLast_concat, Option.bind_eq_bind, Option.bind_some]
  rw [childRef, get_of_changes hw, ← hparent]
  exact href

theorem Working.isSome_selfRef (hwork : Working h db patch stale t) {p : Nibbles}
    (hp : p ≠ []) (hchange : patch.changes p ≠ none) : (patch.selfRef p).isSome := by
  obtain ⟨q, i, rfl⟩ := (List.eq_nil_or_concat p).resolve_left hp
  rw [List.concat_eq_append] at hchange ⊢
  obtain ⟨w, hw⟩ := Option.ne_none_iff_exists'.mp hchange
  obtain ⟨node, ref, hq, href, -⟩ := hwork.wf.parent (hwork.agree _ w hw)
  rw [hwork.selfRef_eq hq href hchange, Option.isSome_some]

/-- A node of the patch is written exactly when its reference has the new version. -/
theorem Working.replaced_eq (hwork : Working h db patch stale t) {p : Nibbles} {i : Nibble}
    {node : InternalNode} {ref : ChildRef} {child : Node} (hp : t p = some (.internal node))
    (href : node.children i = some ref) (hchild : t (p ++ [i]) = some child) :
    (∃ w, patch.replaced (p ++ [i]) = some (w, patch.rootVersion) ∧ w.inner = child ∧
        ref.version = patch.rootVersion ∧ ∀ v, w.prevVersion = some v → v < patch.rootVersion) ∨
      (patch.replaced (p ++ [i]) = none ∧ ref.version < patch.rootVersion ∧
        db.treeNode ref.version (p ++ [i]) ref.isLeaf = some child.clone) := by
  have htracked := hwork.tracked p i node ref child hp href hchild
  rw [Tracked] at htracked
  cases hw : patch.changes (p ++ [i]) with
  | none =>
    rw [hw] at htracked
    refine .inr ⟨?_, htracked.1, ?_⟩
    · rw [replaced, hw]
      rfl
    · rw [htracked.2.1]
      exact htracked.2.2
  | some w =>
    rw [hw] at htracked
    have hinner := hwork.agree _ w hw
    rw [hchild, Option.some.injEq] at hinner
    have hself := hwork.selfRef_eq hp href (by simp [hw])
    rcases htracked with ⟨hversion, hprev⟩ | ⟨hprev, hlt, hdb⟩
    · refine .inl ⟨w, ?_, hinner.symm, hversion, hprev⟩
      rw [replaced, hw]
      simp only [hself, Option.bind_eq_bind, Option.bind_some, hversion]
      rw [if_pos]
      · rfl
      · cases hprevVersion : w.prevVersion with
        | none => rfl
        | some v => simpa using hprev v hprevVersion
    · refine .inr ⟨?_, hlt, hdb⟩
      rw [replaced, hw]
      simp [hself, hprev]

theorem Working.version_of_replaced (hwork : Working h db patch stale t) {p : Nibbles}
    {r : WorkingNode × ℕ} (hr : patch.replaced p = some r) : r.2 = patch.rootVersion := by
  rcases List.eq_nil_or_concat p with rfl | ⟨q, i, rfl⟩
  · simp [replaced, selfRef, splitLast] at hr
  · rw [List.concat_eq_append] at hr
    have hchange : patch.changes (q ++ [i]) ≠ none := fun hnone => by
      rw [replaced, hnone] at hr
      cases hr
    obtain ⟨w, hw⟩ := Option.ne_none_iff_exists'.mp hchange
    have hchild := hwork.agree _ w hw
    obtain ⟨node, ref, hq, href, -⟩ := hwork.wf.parent hchild
    rcases hwork.replaced_eq hq href hchild with ⟨w', hsome, -⟩ | ⟨hnone, -⟩
    · rw [hsome, Option.some.injEq] at hr
      rw [← hr]
    · rw [hnone] at hr
      cases hr

section ApplyPatch

variable {patchSet : PatchSet}

theorem root_applyPatch_self :
    (db.applyPatch patchSet).root patchSet.version = some patchSet.root.clone :=
  Function.update_self ..

theorem root_applyPatch_of_ne (hne : version ≠ patchSet.version) :
    (db.applyPatch patchSet).root version = db.root version :=
  Function.update_of_ne hne ..

theorem treeNode_applyPatch_of_some {p : Nibbles} {node : Node}
    (hnode : patchSet.nodes version p = some node) :
    (db.applyPatch patchSet).treeNode version p node.isLeaf = some node.clone := by
  simp [Database.applyPatch, hnode]

def PatchSet.OneVersion (patchSet : PatchSet) : Prop :=
  ∀ version p, version ≠ patchSet.version → patchSet.nodes version p = none

variable (hone : patchSet.OneVersion)

include hone

theorem treeNode_applyPatch_of_ne (hne : version ≠ patchSet.version) (p : Nibbles) (isLeaf : Bool) :
    (db.applyPatch patchSet).treeNode version p isLeaf = db.treeNode version p isLeaf := by
  simp [Database.applyPatch, hone version p hne, hne]

theorem StoredAt.applyPatch (hstored : StoredAt h db version m t)
    (hlt : version < patchSet.version) : StoredAt h (db.applyPatch patchSet) version m t := by
  refine ⟨hstored.wf, hstored.maps, hstored.clone, ?_, fun p i node ref hp href => ?_⟩
  · rw [root_applyPatch_of_ne hlt.ne]
    exact hstored.root
  · obtain ⟨hle, hdb⟩ := hstored.nodes p i node ref hp href
    exact ⟨hle, by rw [treeNode_applyPatch_of_ne hone (by omega), hdb]⟩

end ApplyPatch

section Finalize

/-- What is written for an empty tree. -/
def emptyPatch (manifest : Manifest) (version : ℕ) : PatchSet where
  manifest := manifest
  version := version
  root := .empty
  nodes _ _ := none
  staleKeys := Function.update (fun _ => none) [] (checkedPred version)

theorem finalizeWithoutHashing_nil (hentries : patch.entries = []) (manifest : Manifest)
    (leafCount : ℕ) :
    patch.finalizeWithoutHashing manifest leafCount =
      some (emptyPatch manifest patch.rootVersion) := by
  rw [finalizeWithoutHashing, hentries]
  rfl

theorem storedAt_emptyPatch (manifest : Manifest) (hm : ∀ key, m key = none) :
    StoredAt h (db.applyPatch (emptyPatch manifest version)) version m fun _ => none where
  wf _ _ := rfl
  maps leaf := by simp [hm]
  clone p x hx := by cases hx
  root := .inl ⟨rfl, root_applyPatch_self⟩
  nodes p i node ref hp := by cases hp

/-- What is written for a tree with this root. -/
def filledPatch (patch : WorkingPatchSet) (manifest : Manifest) (leafCount : ℕ)
    (root : InternalNode) (prev : Option ℕ) : PatchSet where
  manifest := manifest
  version := patch.rootVersion
  root := .filled leafCount (.internal root)
  nodes version nibbles := ((patch.replaced nibbles).filter (·.2 = version)).map (·.1.inner)
  staleKeys nibbles :=
    if nibbles = [] then prev else (patch.replaced nibbles).bind (·.1.prevVersion)

variable {manifest : Manifest} {leafCount : ℕ} {root : InternalNode} {prev : Option ℕ}

theorem Working.finalizeWithoutHashing_eq (hwork : Working h db patch stale t)
    (hroot : patch.changes [] = some ⟨.internal root, prev⟩) (hcount : leafCount ≠ 0) :
    patch.finalizeWithoutHashing manifest leafCount =
      some (filledPatch patch manifest leafCount root prev) := by
  have hentries : ¬patch.entries.isEmpty := by
    obtain ⟨w, hw⟩ := changes_ne_none_iff.mp (by simp [hroot] : patch.changes [] ≠ none)
    simpa using List.ne_nil_of_mem hw
  have hall : patch.entries.all fun entry =>
      entry.1 = [] || (patch.selfRef entry.1).isSome := by
    rw [List.all_eq_true]
    rintro ⟨p, w⟩ hentry
    rw [Bool.or_eq_true, decide_eq_true_iff, or_iff_not_imp_left]
    exact fun hp => hwork.isSome_selfRef hp (changes_ne_none_iff.mpr ⟨w, hentry⟩)
  rw [finalizeWithoutHashing, if_neg hentries, if_pos hall, hroot]
  simp only [Root.new, if_neg hcount, Option.bind_eq_bind, Option.bind_some]
  rfl

theorem Working.oneVersion (hwork : Working h db patch stale t) :
    (filledPatch patch manifest leafCount root prev).OneVersion := by
  intro version p hne
  rw [filledPatch] at hne ⊢
  rw [Option.map_eq_none_iff, Option.filter_eq_none_iff]
  intro r hr
  simpa [hwork.version_of_replaced hr] using hne.symm

theorem Working.storedAt (hwork : Working h db patch (fun _ => False) t) (hm : Maps t m)
    (hroot : patch.changes [] = some ⟨.internal root, prev⟩) (hcount : keyCount m ≠ 0) :
    StoredAt h (db.applyPatch (filledPatch patch manifest (keyCount m) root prev))
      patch.rootVersion m t.clone where
  wf := hwork.wf.clone
  maps := hm.clone
  clone p x hx := by
    obtain ⟨y, -, rfl⟩ := Option.map_eq_some_iff.mp hx
    exact y.clone_clone
  root := by
    refine .inr ⟨root.clone, ?_, root_applyPatch_self, hcount⟩
    rw [Layout.clone, hwork.agree [] _ hroot]
    rfl
  nodes p i node ref hp href := by
    obtain ⟨inner, hinner, rfl⟩ := Layout.clone_internal hp
    obtain ⟨child, hchild, hleaf⟩ := hwork.wf.child hinner href
    have hclone : t.clone (p ++ [i]) = some child.clone := by rw [Layout.clone, hchild]; rfl
    rcases hwork.replaced_eq hinner href hchild with
      ⟨w, hreplaced, rfl, hversion, -⟩ | ⟨-, hlt, hdb⟩
    · have hnode : (filledPatch patch manifest (keyCount m) root prev).nodes ref.version
          (p ++ [i]) = some w.inner := by
        simp [filledPatch, hreplaced, hversion]
      exact ⟨hversion.le, by rw [hclone, hleaf, treeNode_applyPatch_of_some hnode]⟩
    · exact ⟨hlt.le, by rw [hclone, treeNode_applyPatch_of_ne hwork.oneVersion hlt.ne, hdb]⟩

theorem Working.finalize (hwork : Working h db patch (fun _ => False) t) (hm : Maps t m)
    (hcount : keyCount m ≠ 0) (manifest : Manifest) :
    ∃ patchSet, patch.finalizeWithoutHashing manifest (keyCount m) = some patchSet ∧
      patchSet.manifest = manifest ∧ patchSet.version = patch.rootVersion ∧
      patchSet.OneVersion ∧ StoredAt h (db.applyPatch patchSet) patch.rootVersion m t.clone := by
  obtain ⟨root, prev, hroot⟩ := hwork.root
  exact ⟨_, hwork.finalizeWithoutHashing_eq hroot hcount, rfl, rfl, hwork.oneVersion,
    hwork.storedAt hm hroot hcount⟩

end Finalize

end RollupX.MerkleTree
