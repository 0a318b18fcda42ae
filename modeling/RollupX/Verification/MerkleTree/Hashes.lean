import RollupX.Verification.MerkleTree.Insert

/-! `update_node_hashes` after an insertion. Going up along the path, each round takes one
reference out of those that are outdated and adds four hashes to the Merkle path. -/

namespace RollupX.MerkleTree

open Function (update update_of_ne update_self)
open SparseMerkle Nibbles WorkingPatchSet

variable {h : HashTree} {db : Database} {patch : WorkingPatchSet}
  {stale stale' : Nibbles → Prop} {t : Layout} {key : Key} {m : Contents} {n : ℕ} {p : Nibbles}
  {x : Node} {path : MerklePath}

/-- The node at the path is not the one in the database, and its own hash is outdated. -/
def Renewed (patch : WorkingPatchSet) (stale : Nibbles → Prop) (t : Layout) (p : Nibbles) : Prop :=
  ∀ r i node ref, p = r ++ [i] → t r = some (.internal node) → node.children i = some ref →
    stale p ∧ ref.version = patch.rootVersion

theorem childHashes_of_clone {node node' : InternalNode} (hclone : node'.clone = node.clone) :
    node'.childHashes = node.childHashes := by
  have hchildren := congrArg InternalNode.children hclone
  simp only [InternalNode.clone] at hchildren
  funext i
  rw [InternalNode.childHashes, InternalNode.childHashes, hchildren]

section SetNode

variable {node node' : InternalNode} {prev : Option ℕ}
  (hwork : Working h db patch stale t) (hp : patch.changes p = some ⟨.internal node, prev⟩)

include hwork hp

theorem Working.wellFormed_setNode (hcache : CacheOk h stale' p node')
    (hrefs : ∀ i, RefOk h stale' (p ++ [i]) (node'.children i) (t (p ++ [i])))
    (hupper : node'.clone = node.clone ∨ Renewed patch stale' t p)
    (hstale : ∀ q, (∀ i, q ≠ p ++ [i]) → stale q → stale' q) :
    WellFormed h stale' (update t p (some (.internal node'))) := by
  have hnode := hwork.agree p _ hp
  intro r
  rcases eq_or_ne r p with rfl | hne
  · rw [LocalOk, update_self]
    refine ⟨(hwork.wf.internal hnode).1, hcache, fun i => ?_⟩
    rw [update_of_ne (by simp)]
    exact hrefs i
  have hmono : ∀ i, stale (r ++ [i]) → stale' (r ++ [i]) := fun i =>
    hstale _ fun j heq => hne (List.append_inj' heq rfl).1
  by_cases hparent : ∃ i, p = r ++ [i]
  · obtain ⟨i, rfl⟩ := hparent
    obtain ⟨upper, ref, hr, href, hleaf, hhash⟩ := hwork.wf.parent hnode
    obtain ⟨hlen, hcacheUpper, hrefsUpper⟩ := hwork.wf.internal hr
    rw [LocalOk, update_of_ne hne, hr]
    refine ⟨hlen, fun cache hc => ?_, fun j => ?_⟩
    · obtain ⟨f, hf, heq⟩ := hcacheUpper cache hc
      exact ⟨f, fun j hj => hf j fun hs => hj (hmono j hs), heq⟩
    · rcases eq_or_ne j i with rfl | hj
      · rw [update_self, href]
        refine ⟨hleaf, fun hns => ?_⟩
        rcases hupper with hclone | hrenewed
        · have hhashes := childHashes_of_clone hclone
          rw [hhash fun hs => hns (hmono j hs), List.length_append, List.length_singleton]
          simp only [Node.hash, InternalNode.hash, hhashes]
        · exact absurd (hrenewed r j upper ref rfl hr href).1 hns
      · rw [update_of_ne (by simpa using hj)]
        exact (hrefsUpper j).mono (hmono j)
  · exact (hwork.wf r).congr (update_of_ne hne ..)
      (fun i => update_of_ne (fun heq => hparent ⟨i, heq.symm⟩) ..) hmono

theorem Working.setNode (hcache : CacheOk h stale' p node')
    (hrefs : ∀ i, RefOk h stale' (p ++ [i]) (node'.children i) (t (p ++ [i])))
    (hsame : ∀ i ref', node'.children i = some ref' → ∃ ref, node.children i = some ref ∧
      ref'.version = ref.version ∧ ref'.isLeaf = ref.isLeaf)
    (hupper : node'.clone = node.clone ∨ Renewed patch stale' t p)
    (hstale : ∀ q, (∀ i, q ≠ p ++ [i]) → stale q → stale' q) :
    Working h db (patch.insert p (.internal node')) stale'
      (update t p (some (.internal node'))) := by
  have hnode := hwork.agree p _ hp
  have hinsert : (patch.insert p (.internal node')).changes p = some ⟨.internal node', prev⟩ := by
    rw [changes_insert_self, prev_of_changes hp]
  refine ⟨hwork.wellFormed_setNode hp hcache hrefs hupper hstale, ?_, fun q w hq => ?_,
    fun q i hi => ?_, fun q i upper ref child hq href hchild => ?_⟩
  · rcases eq_or_ne [] p with rfl | hne
    · exact ⟨node', prev, hinsert⟩
    · rw [changes_insert_of_ne hne]
      exact hwork.root
  · rcases eq_or_ne q p with rfl | hne
    · rw [hinsert, Option.some.injEq] at hq
      rw [update_self, ← hq]
    · rw [changes_insert_of_ne hne] at hq
      rw [update_of_ne hne, hwork.agree q w hq]
  · refine changes_insert_ne_none (hwork.closed q i fun hnone => hi ?_)
    rw [changes_insert_of_ne, hnone]
    rintro rfl
    rw [hnone] at hp
    cases hp
  · rw [Tracked, rootVersion_insert]
    rcases eq_or_ne q p with rfl | hne
    · obtain rfl := internal_unique (update_self ..) hq
      rw [update_of_ne (by simp)] at hchild
      obtain ⟨old, hold, hversion, hleaf⟩ := hsame i ref href
      have htracked := hwork.tracked q i node old child hnode hold hchild
      rw [changes_insert_of_ne (by simp), hversion, hleaf]
      exact htracked
    · rw [update_of_ne hne] at hq
      rcases eq_or_ne (q ++ [i]) p with rfl | hne'
      · rw [update_self, Option.some.injEq] at hchild
        subst hchild
        have htracked := hwork.tracked q i upper ref _ hq href hnode
        rw [Tracked, hp] at htracked
        rw [hinsert]
        rcases htracked with hnew | ⟨hprev, hlt, hdb⟩
        · exact .inl hnew
        · rcases hupper with hclone | hrenewed
          · refine .inr ⟨hprev, hlt, ?_⟩
            simp only [Node.clone] at hdb ⊢
            rw [hdb, hclone]
          · exact absurd (hrenewed q i upper ref rfl hq href).2 hlt.ne
      · rw [update_of_ne hne'] at hchild
        rw [changes_insert_of_ne hne']
        exact hwork.tracked q i upper ref child hq href hchild

variable (node')

theorem Grows.setNode (hpath : OnPath key p) :
    Grows patch (patch.insert p (.internal node')) t
      (update t p (some (.internal node'))) key where
  version := rfl
  internal q inner hq := by
    rcases eq_or_ne q p with rfl | hne
    · exact ⟨node', update_self ..⟩
    · exact ⟨inner, by rw [update_of_ne hne, hq]⟩
  loaded key' hloaded n hn := by
    refine changes_insert_ne_none (hloaded n fun hnone => ?_)
    rcases eq_or_ne (new key' n) p with heq | hne
    · rw [heq, hwork.agree p _ hp] at hnone
      cases hnone
    · rw [update_of_ne hne] at hn
      exact hn hnone
  off i rest hi := by
    have hne : i :: rest ≠ p := by
      rintro rfl
      exact hi hpath.head
    exact ⟨changes_insert_of_ne hne, update_of_ne hne ..⟩

theorem Maps.setNode (hm : Maps t m) : Maps (Function.update t p (some (.internal node'))) m := by
  intro leaf
  rw [hm leaf]
  refine exists_congr fun q => ?_
  rcases eq_or_ne q p with rfl | hne
  · rw [update_self, hwork.agree q _ hp]
    simp
  · rw [update_of_ne hne]

end SetNode

theorem Working.mono (hwork : Working h db patch stale t) (hstale : ∀ q, stale q → stale' q) :
    Working h db patch stale' t :=
  { hwork with wf := fun p => (hwork.wf p).congr rfl (fun _ => rfl) fun _ => hstale _ }

/-- The siblings of a key in the plain tree from the leaves up to the depth of `n` nibbles. -/
def HashTree.siblingsFrom (h : HashTree) (m : Contents) (key : Key) (n : ℕ) : List ValueHash :=
  h.plain.siblings 0 (below (byBits m) (pathBits (new key n)))
    (bitRange key (4 * n) (treeDepth - 4 * n))

@[simp] theorem length_siblingsFrom (n : ℕ) :
    (h.siblingsFrom m key n).length = treeDepth - 4 * n := by
  rw [HashTree.siblingsFrom, length_siblings, length_bitRange]

theorem siblingsFrom_zero : h.siblingsFrom m key 0 = h.keySiblings m key := rfl

theorem siblingsFrom_eq_append (hn : n < keyNibbles) :
    h.siblingsFrom m key n = h.siblingsFrom m key (n + 1) ++
      h.plain.siblings (treeDepth - 4 * (n + 1)) (below (byBits m) (pathBits (new key n)))
        (bits 4 (nibble key n)) := by
  simp only [keyNibbles] at hn
  have hbits := bitRange_add key (4 * n) 4 (treeDepth - 4 * (n + 1))
  rw [show 4 + (treeDepth - 4 * (n + 1)) = treeDepth - 4 * n by simp only [treeDepth]; omega,
    ← bits_nibble key hn] at hbits
  rw [HashTree.siblingsFrom, HashTree.siblingsFrom, hbits, siblings_append, length_bitRange,
    below_below, ← pathBits_concat, ← new_succ, Nat.add_zero]
  rfl

theorem siblingsFrom_of_leaf (hw : WellFormed h stale t) (hm : Maps t m) {leaf : LeafNode}
    (hleaf : t (new key n) = some (.leaf leaf)) (hkey : leaf.fullKey = key) :
    h.siblingsFrom m key n = h.plain.emptySiblings 0 (treeDepth - 4 * n) := by
  have hnone := hm.byBits_of_leaf_ne hw hleaf
  rw [length_new, hkey] at hnone
  have hempty := siblings_of_none (h := h.plain) (d := 0)
    (m := below (byBits m) (pathBits (new key n)))
    (p := bitRange key (4 * n) (treeDepth - 4 * n)) fun q hq hpre =>
      hnone q (by simpa using hq) (by rintro rfl; exact hpre List.prefix_rfl)
  rwa [length_bitRange] at hempty

/-- The node with another reference and the cache that belongs to it. -/
def InternalNode.rehashed (h : HashTree) (node : InternalNode) (level : ℕ) (i : Nibble)
    (ref : ChildRef) : InternalNode :=
  { node.insertChildRef i ref with
    cache := some (hashInner h (node.insertChildRef i ref).childHashes level).2 }

section Node

variable {node : InternalNode} {level : ℕ} {i : Nibble} {ref : ChildRef}

@[simp] theorem childHashes_rehashed :
    (node.rehashed h level i ref).childHashes = (node.insertChildRef i ref).childHashes := rfl

theorem children_rehashed (j : Nibble) :
    (node.rehashed h level i ref).children j = (node.insertChildRef i ref).children j := rfl

theorem exists_ref_of_setHash (href : node.children i = some ref) (x : ValueHash) {j : Nibble}
    {ref' : ChildRef}
    (href' : (node.insertChildRef i { ref with hash := x }).children j = some ref') :
    ∃ old, node.children j = some old ∧ ref'.version = old.version ∧
      ref'.isLeaf = old.isLeaf := by
  rcases eq_or_ne j i with rfl | hne
  · rw [children_insertChildRef_self, Option.some.injEq] at href'
    subst href'
    exact ⟨ref, href, rfl, rfl⟩
  · rw [children_insertChildRef_of_ne hne] at href'
    exact ⟨ref', href', rfl, rfl⟩

theorem updateChildHash_eq (hcache : CacheOk h stale p node)
    (hother : ∀ j, j ≠ i → ¬stale (p ++ [j])) (href : node.children i = some ref) (x : ValueHash) :
    node.updateChildHash h (4 * p.length) i x =
      some ((node.rehashed h (4 * p.length) i { ref with hash := x }).hash h (4 * p.length),
        node.rehashed h (4 * p.length) i { ref with hash := x }) := by
  rw [InternalNode.updateChildHash, href, Option.bind_eq_bind, Option.bind_some]
  cases hc : node.cache with
  | none =>
    simp only [InternalNode.insertChildRef, hc]
    rfl
  | some cache =>
    obtain ⟨f, hf, rfl⟩ := hcache cache hc
    have hsame : ∀ j, j ≠ i →
        (node.insertChildRef i { ref with hash := x }).childHashes j = f j := by
      intro j hj
      rw [hf j (hother j hj), childHashes_insertChildRef_of_ne hj]
    have hupdate := updateNibble_eq (h := h) hsame (by simp [InternalNode.childHashes])
      (4 * p.length)
    have hcache' : (node.insertChildRef i { ref with hash := x }).cache =
        some (InternalNode.hashInner h f (4 * p.length)).2 := hc
    simp only [hcache', hupdate]
    rfl

end Node

/-- The references whose hashes are outdated while the loop is at depth `n`. -/
def PathStale (key : Key) (n : ℕ) (q : Nibbles) : Prop :=
  RootStale q ∨ (OnPath key q ∧ q.length ≤ n)

theorem InsertStale.pathStale {leafData : NewLeafData} (hs : InsertStale key leafData p)
    (hp : ∀ leaf, leafData.adjacentLeaf ≠ some (p, leaf)) :
    PathStale key leafData.nibbles.length p := by
  rcases hs with hroot | hon | ⟨leaf, hadj⟩
  · exact .inl hroot
  · exact .inr hon
  · exact absurd hadj (hp leaf)

theorem clean_of_lt (hroot : 1 < p.length) (hn : n < p.length) : Clean (PathStale key n) p := by
  intro q hq
  simp only [PathStale, RootStale, List.length_append] at hq
  omega

theorem not_pathStale_sibling {n n' : ℕ} (hpos : 0 < n) {i : Nibble} (hi : i ≠ nibble key n) :
    ¬PathStale key n' (new key n ++ [i]) := by
  intro hs
  rw [PathStale, RootStale, onPath_concat_iff, List.length_append, length_new,
    List.length_singleton] at hs
  rcases hs with hroot | ⟨⟨-, heq⟩, -⟩
  · omega
  · exact hi heq

theorem FreshTo.renewed {n j : ℕ} (hfresh : FreshTo patch t key n) (hj : j ≤ n)
    (hstale : stale (new key j)) : Renewed patch stale t (new key j) := by
  intro r i node ref heq hr href
  cases j with
  | zero => simp at heq
  | succ j =>
    rw [new_succ] at heq
    obtain ⟨rfl, hi⟩ := List.append_inj' heq rfl
    rw [← List.singleton_inj.mp hi] at href
    exact ⟨hstale, hfresh j (by omega) node ref hr href⟩

section Round

variable {node : InternalNode} {prev : Option ℕ} {ref : ChildRef}
  (hwork : Working h db patch (PathStale key (n + 1)) t) (hpos : 0 < n)
  (hnode : patch.changes (new key n) = some ⟨.internal node, prev⟩)
  (href : node.children (nibble key n) = some ref) (hx : t (new key (n + 1)) = some x)
  (hfresh : FreshTo patch t key (n + 1))

include hwork hpos hnode href hx hfresh

theorem Working.rehash :
    Working h db
      (patch.insert (new key n) (.internal (node.rehashed h (4 * n) (nibble key n)
        { ref with hash := x.hash h (4 * (n + 1)) })))
      (PathStale key n)
      (update t (new key n) (some (.internal (node.rehashed h (4 * n) (nibble key n)
        { ref with hash := x.hash h (4 * (n + 1)) })))) := by
  have hn := hwork.agree _ _ hnode
  refine hwork.setNode hnode ?_ (fun i => ?_) (fun i ref' => exists_ref_of_setHash href _)
    (.inr (hfresh.renewed (by omega) (.inr ⟨onPath_new _ _, by simp⟩))) fun q hq hs => ?_
  · intro cache hc
    refine ⟨_, fun _ _ => rfl, ?_⟩
    rw [InternalNode.rehashed, Option.some.injEq] at hc
    rw [length_new, ← hc]
    rfl
  · rw [children_rehashed]
    rcases eq_or_ne i (nibble key n) with rfl | hne
    · obtain ⟨-, -, hrefs⟩ := hwork.wf.internal hn
      have hok := hrefs (nibble key n)
      rw [href, ← new_succ, hx] at hok
      rw [children_insertChildRef_self, ← new_succ, hx]
      exact ⟨hok.1, fun _ => by rw [length_new]⟩
    · rw [children_insertChildRef_of_ne hne]
      exact ((hwork.wf.internal hn).2.2 i).mono fun hs =>
        absurd hs (not_pathStale_sibling hpos hne)
  · rcases hs with hroot | ⟨hpath, hlen⟩
    · exact .inl hroot
    · refine .inr ⟨hpath, ?_⟩
      rcases Nat.le_succ_iff.mp hlen with hle | heq
      · exact hle
      · rw [OnPath, heq, Nat.succ_eq_add_one, new_succ] at hpath
        exact absurd hpath (hq _)

end Round

/-- The hash of the subtree below a child of the root. -/
def HashTree.subtreeHash (h : HashTree) (m : Contents) (i : Nibble) : ValueHash :=
  h.plain.root (treeDepth - 4) (below (byBits m) (bits 4 i))

theorem WellFormed.subtreeHash_eq (hw : WellFormed h RootStale t) (hm : Maps t m) {i : Nibble}
    (hx : t [i] = some x) : x.hash h 4 = h.subtreeHash m i := by
  have heq := hw.hash_eq hm hx fun j q hq => by
    simp only [RootStale, List.length_append, List.length_singleton] at hq
    omega
  rwa [List.length_singleton, ← List.nil_append [i], pathBits_concat] at heq

/-- What is known of the loop at depth `n`. -/
structure RehashedTo (h : HashTree) (db : Database) (key : Key) (m : Contents)
    (n : ℕ) (x : Node) (path : MerklePath) (patch : WorkingPatchSet) (t : Layout) : Prop where
  working : Working h db patch (PathStale key n) t
  maps : Maps t m
  loaded : Loaded patch t key
  fresh : FreshTo patch t key n
  node : t (new key n) = some x
  path : path.Stands h (h.siblingsFrom m key n)

theorem FreshTo.setNode (hfresh : FreshTo patch t key n) {node node' : InternalNode}
    (hnode : t p = some (.internal node))
    (hsame : ∀ i ref', node'.children i = some ref' → ∃ ref, node.children i = some ref ∧
      ref'.version = ref.version ∧ ref'.isLeaf = ref.isLeaf) :
    FreshTo (patch.insert p (.internal node')) (update t p (some (.internal node')))
      key n := by
  intro j hj inner ref hinner href
  rcases eq_or_ne (new key j) p with heq | hne
  · rw [heq] at hinner
    obtain rfl := internal_unique (update_self ..) hinner
    obtain ⟨old, hold, hversion, -⟩ := hsame _ ref href
    rw [hversion]
    exact hfresh j hj node old (by rw [heq, hnode]) hold
  · rw [update_of_ne hne] at hinner
    exact hfresh j hj inner ref hinner href

theorem updateHashesUp_succ (hpos : 0 < n) (hstate : RehashedTo h db key m (n + 1) x path patch t) :
    ∃ x' path' patch' t', RehashedTo h db key m n x' path' patch' t' ∧
      Grows patch patch' t t' key ∧
      TreeUpdater.updateHashesUp h (new key (n + 1)).reverse (x.hash h (4 * (n + 1))) path patch =
        TreeUpdater.updateHashesUp h (new key n).reverse (x'.hash h (4 * n)) path' patch' := by
  obtain ⟨hwork, hm, hloaded, hfresh, hx, hpath⟩ := hstate
  obtain ⟨node, hnode⟩ := hwork.wf.internal_of_lt hx (Nat.lt_succ_self n)
  obtain ⟨ref, href, hchange, -, -⟩ := hwork.exists_ref hloaded hnode hx
  rw [InternalNode.insertChildRef_eq_self href] at hchange
  have hlt := (hwork.wf.internal hnode).1
  rw [length_new] at hlt
  set node' := node.rehashed h (4 * n) (nibble key n) { ref with hash := x.hash h (4 * (n + 1)) }
    with hnode'
  have hwork' := hwork.rehash hpos hchange href hx hfresh
  have hm' := hm.setNode node' hwork hchange
  have hgrows := Grows.setNode node' hwork hchange (onPath_new key n)
  have hlevels := hwork'.wf.levelHashes hm' (update_self ..) fun i =>
    clean_of_lt (by simp; omega) (by simp)
  rw [length_new] at hlevels
  have hlevel : 4 * n + 4 + (treeDepth - 4 * (n + 1)) = treeDepth := by
    simp only [treeDepth, keyNibbles] at hlt ⊢
    omega
  have hcache : node'.CacheOk h (4 * n) := by
    intro cache hc
    rw [hnode', InternalNode.rehashed, Option.some.injEq] at hc
    rw [hnode', childHashes_rehashed, hc]
  have hstands := stands_extendMerklePath hlevel hlevels hcache hpath (by simp) (nibble key n)
  rw [← siblingsFrom_eq_append hlt] at hstands
  have hupdate := updateChildHash_eq (p := new key n) (hwork.wf.internal hnode).2.1
    (fun j hj => not_pathStale_sibling hpos hj) href (x.hash h (4 * (n + 1)))
  rw [length_new, ← hnode'] at hupdate
  refine ⟨.internal node', _, patch.insert (new key n) (.internal node'),
    update t (new key n) (some (.internal node')),
    ⟨hwork', hm', hgrows.loaded key hloaded, ?_, update_self .., hstands⟩, hgrows, ?_⟩
  · exact FreshTo.setNode (fun j hj => hfresh j (by omega)) hnode
      fun i ref' => exists_ref_of_setHash href _
  · rw [reverse_new_succ, TreeUpdater.updateHashesUp, List.length_reverse, length_new,
      if_neg (by omega), List.reverse_reverse, get_of_changes hchange]
    simp only [Nat.mul_comm n 4, hupdate, Option.bind_eq_bind, Option.bind_some]
    rfl

/-- The path has the siblings of the key down from the depth `r`, and the patch still holds a tree
with this map. -/
structure Proved (h : HashTree) (db : Database) (stale : Nibbles → Prop)
    (m : Contents) (key : Key) (r : ℕ) (patch : WorkingPatchSet) (t : Layout)
    (path : MerklePath) (patch' : WorkingPatchSet) (t' : Layout) : Prop where
  path : path.Stands h (h.siblingsFrom m key r)
  working : Working h db patch' stale t'
  maps : Maps t' m
  grows : Grows patch patch' t t' key

theorem Proved.trans {r : ℕ} {patch₀ patch' : WorkingPatchSet} {t₀ t' : Layout}
    (hgrows : Grows patch₀ patch t₀ t key)
    (hproved : Proved h db stale m key r patch t path patch' t') :
    Proved h db stale m key r patch₀ t₀ path patch' t' :=
  { hproved with grows := hgrows.trans hproved.grows }

/-- The loop stops below the root, with the hash of the subtree there. -/
theorem updateHashesUp_eq (hpos : 0 < n) (hstate : RehashedTo h db key m n x path patch t) :
    ∃ path' patch' t',
      TreeUpdater.updateHashesUp h (new key n).reverse (x.hash h (4 * n)) path patch =
        some (h.subtreeHash m (nibble key 0), path', patch') ∧
      Proved h db RootStale m key 1 patch t path' patch' t' := by
  induction n, hpos using Nat.le_induction generalizing x path patch t with
  | base =>
    obtain ⟨hwork, hm, hloaded, hfresh, hx, hpath⟩ := hstate
    have hwork' : Working h db patch RootStale t := hwork.mono fun q hq => by
      simp only [PathStale, RootStale] at hq ⊢
      omega
    refine ⟨path, patch, t, ?_, hpath, hwork', hm, Grows.refl ..⟩
    rw [show x.hash h (4 * (0 + 1)) = h.subtreeHash m (nibble key 0) from
      hwork'.wf.subtreeHash_eq hm hx]
    rfl
  | succ n hn ih =>
    obtain ⟨x', path₁, patch₁, t₁, hstate₁, hgrows₁, hrun⟩ := updateHashesUp_succ hn hstate
    obtain ⟨path', patch', t', hrun', hproved⟩ := ih hstate₁
    exact ⟨path', patch', t', hrun.trans hrun', hproved.trans hgrows₁⟩

theorem rehashedTo_leaf {nibbles : Nibbles} (leaf : LeafNode)
    (hwork : Working h db patch (PathStale leaf.fullKey nibbles.length) t) (hm : Maps t m)
    (hloaded : Loaded patch t leaf.fullKey) (hfresh : FreshTo patch t leaf.fullKey nibbles.length)
    (hleaf : t nibbles = some (.leaf leaf)) :
    RehashedTo h db leaf.fullKey m nibbles.length (.leaf leaf)
      (MerklePath.new (nibbles.length * 4)) patch t := by
  have hle := hwork.wf.length_le hleaf
  have hpath := (hwork.wf.leaf hleaf).1
  rw [OnPath] at hpath
  rw [hpath] at hleaf
  refine ⟨hwork, hm, hloaded, hfresh, hleaf, ?_⟩
  rw [siblingsFrom_of_leaf hwork.wf hm hleaf rfl, Nat.mul_comm]
  exact MerklePath.stands_new (by simp only [treeDepth, keyNibbles] at hle ⊢; omega)

section Start

variable {patch₀ : WorkingPatchSet} {t₀ : Layout} {entry : TreeEntry} {leafData : NewLeafData}
  (hinserted : Inserted h db patch₀ patch t₀ t m entry leafData)
  (hloaded : Loaded patch₀ t₀ entry.key)

include hinserted hloaded

theorem exists_rehashedTo_of_moved {q : Nibbles} {moved : LeafNode}
    (hmoved : leafData.adjacentLeaf = some (q, moved)) :
    ∃ p i patch' t', q = p ++ [i] ∧
      (patch.modifyChildRef p i fun ref => { ref with hash := moved.hash h (q.length * 4) }) =
        some patch' ∧
      RehashedTo h db entry.key m leafData.nibbles.length (.leaf (LeafNode.new entry))
        (MerklePath.new (leafData.nibbles.length * 4)) patch' t' ∧
      Grows patch patch' t t' entry.key := by
  obtain ⟨p, i, node, prev, rfl, hnibbles, hi, hp, hnode, hcache, hq⟩ :=
    hinserted.adjacent q moved hmoved
  have hwork := hinserted.working
  have hpath : OnPath entry.key p := by
    have := hinserted.onPath
    rw [hnibbles, onPath_concat_iff] at this
    exact this.1
  obtain ⟨node', ref, hnode', href, hleaf, -⟩ := hwork.wf.parent hq
  obtain rfl := internal_unique (hwork.agree p _ hnode) hnode'
  set node' := node.insertChildRef i { ref with hash := moved.hash h ((p ++ [i]).length * 4) }
  have hwork' : Working h db (patch.insert p (.internal node'))
      (PathStale entry.key leafData.nibbles.length)
      (update t p (some (.internal node'))) := by
    refine hwork.setNode hnode (fun cache hc => ?_) (fun j => ?_)
      (fun j ref' => exists_ref_of_setHash href _) (.inr ?_) fun q' hq' hs => ?_
    · rw [show node'.cache = none from hcache] at hc
      cases hc
    · rcases eq_or_ne j i with rfl | hne
      · rw [children_insertChildRef_self, hq]
        exact ⟨hleaf, fun _ => by rw [Nat.mul_comm]; rfl⟩
      · rw [children_insertChildRef_of_ne hne]
        refine ((hwork.wf.internal (hwork.agree p _ hnode)).2.2 j).mono fun hs =>
          hs.pathStale fun leaf hadj => ?_
        rw [hmoved, Option.some.injEq, Prod.mk.injEq] at hadj
        exact hne (List.singleton_inj.mp (List.append_inj hadj.1 rfl).2).symm
    · rw [hpath]
      refine hinserted.fresh.renewed ?_ (.inr ⟨onPath_new _ _, ?_⟩) <;> simp [hnibbles]
    · refine hs.pathStale fun leaf hadj => ?_
      rw [hmoved, Option.some.injEq, Prod.mk.injEq] at hadj
      exact hq' i hadj.1.symm
  have hgrows := Grows.setNode node' hwork hnode hpath
  refine ⟨p, i, _, _, rfl, modifyChildRef_eq hnode href _, ?_, hgrows⟩
  refine rehashedTo_leaf (LeafNode.new entry) hwork' (hinserted.maps.setNode _ hwork hnode)
    (hgrows.loaded _ (hinserted.grows.loaded _ hloaded))
    (hinserted.fresh.setNode (hwork.agree p _ hnode) fun j ref' => exists_ref_of_setHash href _) ?_
  rw [update_of_ne, hinserted.leafAt]
  rw [hnibbles]
  simp

/-- `update_node_hashes` brings the hashes of the subtree up to date. It returns the hash of the
subtree and the lower part of the Merkle path of the entry. -/
theorem updateNodeHashes_eq :
    ∃ path patch' t', TreeUpdater.updateNodeHashes h patch leafData =
        some (h.subtreeHash m (nibble entry.key 0), path, patch') ∧
      Proved h db RootStale m entry.key 1 patch₀ t₀ path patch' t' := by
  have hloop : ∀ {patch₁ t₁}, RehashedTo h db entry.key m leafData.nibbles.length
        (.leaf (LeafNode.new entry)) (MerklePath.new (leafData.nibbles.length * 4)) patch₁ t₁ →
      ∃ path patch' t', TreeUpdater.updateHashesUp h leafData.nibbles.reverse
          (leafData.leaf.hash h (leafData.nibbles.length * 4))
          (MerklePath.new (leafData.nibbles.length * 4)) patch₁ =
        some (h.subtreeHash m (nibble entry.key 0), path, patch') ∧
      Proved h db RootStale m entry.key 1 patch₁ t₁ path patch' t' := by
    intro patch₁ t₁ hstate
    have hrun := updateHashesUp_eq hinserted.pos hstate
    rwa [← show leafData.nibbles = new entry.key leafData.nibbles.length from hinserted.onPath,
      Nat.mul_comm 4, Node.hash, ← hinserted.leaf] at hrun
  rw [TreeUpdater.updateNodeHashes]
  cases hmoved : leafData.adjacentLeaf with
  | none =>
    have hwork : Working h db patch (PathStale entry.key leafData.nibbles.length) t :=
      hinserted.working.mono fun q hq => hq.pathStale (by simp [hmoved])
    obtain ⟨path, patch', t', hrun, hproved⟩ :=
      hloop (rehashedTo_leaf (LeafNode.new entry) hwork hinserted.maps
        (hinserted.grows.loaded _ hloaded) hinserted.fresh hinserted.leafAt)
    exact ⟨path, patch', t', hrun, hproved.trans hinserted.grows⟩
  | some adjacent =>
    obtain ⟨q, moved⟩ := adjacent
    obtain ⟨p, i, patch₁, t₁, rfl, hmodify, hstate, hgrows₁⟩ :=
      exists_rehashedTo_of_moved hinserted hloaded hmoved
    obtain ⟨path, patch', t', hrun, hproved⟩ := hloop hstate
    refine ⟨path, patch', t', ?_, hproved.trans (hinserted.grows.trans hgrows₁)⟩
    simp only [splitLast_concat, Option.bind_eq_bind, Option.bind_some, hmodify]
    exact hrun

end Start

end RollupX.MerkleTree
