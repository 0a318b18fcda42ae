import RollupX.Verification.MerkleTree.Hashing

/-! The stored tree as a table of nodes by path. Every condition is about one node and its children,
so a change of a few nodes leaves most of it in place. -/

namespace RollupX.MerkleTree

open SparseMerkle Nibbles

/-- The node at every path of a version of the tree. -/
abbrev Layout := Nibbles → Option Node

/-- The reference to a child agrees with the child. A stale reference has an outdated hash. -/
def RefOk (h : HashTree) (stale : Nibbles → Prop) (q : Nibbles) :
    Option ChildRef → Option Node → Prop
  | none, none => True
  | some ref, some node =>
    ref.isLeaf = node.isLeaf ∧ (¬stale q → ref.hash = node.hash h (4 * q.length))
  | _, _ => False

/-- The cache of a node is that of its children, up to stale ones. -/
def CacheOk (h : HashTree) (stale : Nibbles → Prop) (p : Nibbles) (node : InternalNode) : Prop :=
  ∀ cache, node.cache = some cache → ∃ f : Nibble → Option ValueHash,
    (∀ i, ¬stale (p ++ [i]) → f i = node.childHashes i) ∧
      cache = (InternalNode.hashInner h f (4 * p.length)).2

/-- The node at a path against the nodes one level below. -/
def LocalOk (h : HashTree) (stale : Nibbles → Prop) (t : Layout) (p : Nibbles) : Prop :=
  match t p with
  | none => ∀ i, t (p ++ [i]) = none
  | some (.leaf leaf) => OnPath leaf.fullKey p ∧ ∀ i, t (p ++ [i]) = none
  | some (.internal node) =>
    p.length < keyNibbles ∧ CacheOk h stale p node ∧
      ∀ i, RefOk h stale (p ++ [i]) (node.children i) (t (p ++ [i]))

def WellFormed (h : HashTree) (stale : Nibbles → Prop) (t : Layout) : Prop :=
  ∀ p, LocalOk h stale t p

variable {h : HashTree} {stale : Nibbles → Prop} {t : Layout} {p : Nibbles} {i : Nibble} {key : Key}
  {n : ℕ} {x : Node} {node : InternalNode}

theorem internal_unique {node node' : InternalNode} (hp : t p = some (.internal node))
    (hp' : t p = some (.internal node')) : node = node' :=
  Node.internal.inj (Option.some.inj (hp.symm.trans hp'))

theorem leaf_unique {leaf leaf' : LeafNode} (hp : t p = some (.leaf leaf))
    (hp' : t p = some (.leaf leaf')) : leaf = leaf' :=
  Node.leaf.inj (Option.some.inj (hp.symm.trans hp'))

theorem refOk_iff {q : Nibbles} {ref : Option ChildRef} {node : Option Node} :
    RefOk h stale q ref node ↔ ref.map (·.isLeaf) = node.map Node.isLeaf ∧
      ∀ r x, ref = some r → node = some x → ¬stale q → r.hash = x.hash h (4 * q.length) := by
  cases ref <;> cases node <;> simp [RefOk]

theorem RefOk.mono {stale' : Nibbles → Prop} {q : Nibbles} {ref : Option ChildRef}
    {node : Option Node} (hok : RefOk h stale q ref node) (hstale : stale q → stale' q) :
    RefOk h stale' q ref node := by
  obtain ⟨hleaf, hhash⟩ := refOk_iff.mp hok
  exact refOk_iff.mpr ⟨hleaf, fun r x hr hx hq => hhash r x hr hx fun hs => hq (hstale hs)⟩

theorem LocalOk.congr {stale' : Nibbles → Prop} {t' : Layout} (hok : LocalOk h stale t p)
    (hp : t' p = t p) (hchild : ∀ i, t' (p ++ [i]) = t (p ++ [i]))
    (hstale : ∀ i, stale (p ++ [i]) → stale' (p ++ [i])) : LocalOk h stale' t' p := by
  unfold LocalOk at hok ⊢
  rw [hp]
  simp only [hchild]
  split at hok
  · exact hok
  · exact hok
  · obtain ⟨hlen, hcache, hrefs⟩ := hok
    refine ⟨hlen, fun cache hc => ?_, fun i => ?_⟩
    · obtain ⟨f, hf, heq⟩ := hcache cache hc
      exact ⟨f, fun i hi => hf i fun hs => hi (hstale i hs), heq⟩
    · exact (hrefs i).mono (hstale i)

namespace WellFormed

variable (hw : WellFormed h stale t)

include hw

theorem internal (hp : t p = some (.internal node)) :
    p.length < keyNibbles ∧ CacheOk h stale p node ∧
      ∀ i, RefOk h stale (p ++ [i]) (node.children i) (t (p ++ [i])) := by
  have hok := hw p
  rwa [LocalOk, hp] at hok

theorem leaf {leaf : LeafNode} (hp : t p = some (.leaf leaf)) :
    OnPath leaf.fullKey p ∧ ∀ i, t (p ++ [i]) = none := by
  have hok := hw p
  rwa [LocalOk, hp] at hok

theorem parent {child : Node} (hchild : t (p ++ [i]) = some child) :
    ∃ node ref, t p = some (.internal node) ∧ node.children i = some ref ∧
      ref.isLeaf = child.isLeaf ∧
      (¬stale (p ++ [i]) → ref.hash = child.hash h (4 * (p.length + 1))) := by
  have hok := hw p
  rw [LocalOk] at hok
  split at hok
  · rw [hok i] at hchild
    cases hchild
  · rw [hok.2 i] at hchild
    cases hchild
  · rename_i node hp
    have href := hok.2.2 i
    rw [hchild] at href
    cases hr : node.children i with
    | none => simp [hr, RefOk] at href
    | some ref =>
      rw [hr, RefOk, List.length_append, List.length_singleton] at href
      exact ⟨node, ref, hp, hr, href⟩

theorem child {ref : ChildRef} (hp : t p = some (.internal node))
    (href : node.children i = some ref) :
    ∃ child, t (p ++ [i]) = some child ∧ ref.isLeaf = child.isLeaf := by
  have hok := (hw.internal hp).2.2 i
  rw [href] at hok
  cases hc : t (p ++ [i]) with
  | none => simp [hc, RefOk] at hok
  | some child =>
    rw [hc] at hok
    exact ⟨child, rfl, hok.1⟩

theorem child_none (hp : t p = some (.internal node)) :
    node.children i = none ↔ t (p ++ [i]) = none := by
  have hok := (hw.internal hp).2.2 i
  cases hr : node.children i <;> cases hc : t (p ++ [i]) <;> simp_all [RefOk]

theorem eq_none_of_children (hroot : t [] = some (.internal node))
    (hnone : ∀ i, node.children i = none) (hp : p ≠ []) : t p = none := by
  induction p using List.reverseRecOn with
  | nil => exact absurd rfl hp
  | append_singleton q i ih =>
    rcases eq_or_ne q [] with rfl | hq
    · exact (hw.child_none hroot).mp (hnone i)
    · by_contra hsome
      obtain ⟨child, hchild⟩ := Option.ne_none_iff_exists'.mp hsome
      obtain ⟨parent, -, hparent, -⟩ := hw.parent hchild
      rw [ih hq] at hparent
      cases hparent

theorem internal_of_lt {n j : ℕ} (hx : t (new key n) = some x) (hj : j < n) :
    ∃ node, t (new key j) = some (.internal node) := by
  induction n, hj using Nat.le_induction generalizing x with
  | base =>
    rw [new_succ] at hx
    obtain ⟨node, -, hp, -⟩ := hw.parent hx
    exact ⟨node, hp⟩
  | succ n _ ih =>
    rw [new_succ] at hx
    obtain ⟨node, -, hp, -⟩ := hw.parent hx
    exact ih hp

theorem length_le (hx : t p = some x) : p.length ≤ keyNibbles := by
  rcases List.eq_nil_or_concat p with rfl | ⟨q, i, rfl⟩
  · simp
  · rw [List.concat_eq_append] at hx ⊢
    obtain ⟨node, -, hq, -⟩ := hw.parent hx
    have hlt := (hw.internal hq).1
    simp only [List.length_append, List.length_singleton]
    omega

end WellFormed

/-- The walk along a key passes internal nodes and ends at this depth. -/
structure Ends (t : Layout) (key : Key) (n : ℕ) : Prop where
  internal : ∀ j < n, ∃ node, t (new key j) = some (.internal node)
  last : ∀ node, t (new key n) ≠ some (.internal node)

theorem WellFormed.exists_ends (hw : WellFormed h stale t) (key : Key) :
    ∃ n ≤ keyNibbles, Ends t key n := by
  classical
  have hlast : ∀ node, t (new key keyNibbles) ≠ some (.internal node) := by
    intro node hnode
    have hlt := (hw.internal hnode).1
    rw [length_new] at hlt
    exact lt_irrefl _ hlt
  have hex : ∃ n, ∀ node, t (new key n) ≠ some (.internal node) := ⟨_, hlast⟩
  refine ⟨Nat.find hex, Nat.find_min' hex hlast, ⟨fun j hj => ?_, Nat.find_spec hex⟩⟩
  simpa using Nat.find_min hex hj

theorem Ends.cases (hends : Ends t key n) :
    t (new key n) = none ∨ ∃ leaf, t (new key n) = some (.leaf leaf) := by
  cases hx : t (new key n) with
  | none => exact .inl rfl
  | some x =>
    cases x with
    | internal node => exact absurd hx (hends.last node)
    | leaf leaf => exact .inr ⟨leaf, rfl⟩

theorem Ends.unique {n n' : ℕ} (h : Ends t key n) (h' : Ends t key n') : n = n' := by
  rcases lt_trichotomy n n' with hlt | heq | hgt
  · obtain ⟨node, hnode⟩ := h'.internal n hlt
    exact absurd hnode (h.last node)
  · exact heq
  · obtain ⟨node, hnode⟩ := h.internal n' hgt
    exact absurd hnode (h'.last node)

theorem Ends.le_of_internal {n start : ℕ} (hends : Ends t key n)
    (hstart : ∀ j < start, ∃ node, t (new key j) = some (.internal node)) : start ≤ n := by
  by_contra hlt
  obtain ⟨node, hnode⟩ := hstart n (by omega)
  exact hends.last node hnode

theorem WellFormed.ends_of_leaf {leaf : LeafNode} (hw : WellFormed h stale t)
    (hleaf : t (new key n) = some (.leaf leaf)) : Ends t key n where
  internal _ hj := hw.internal_of_lt hleaf hj
  last node hnode := by rw [hleaf] at hnode; cases hnode

theorem WellFormed.ends_of_none (hw : WellFormed h stale t)
    (hparent : t (new key n) = some (.internal node)) (hnone : t (new key (n + 1)) = none) :
    Ends t key (n + 1) where
  internal j hj := by
    rcases Nat.lt_succ_iff_lt_or_eq.mp hj with hlt | rfl
    · exact hw.internal_of_lt hparent hlt
    · exact ⟨node, hparent⟩
  last node hnode := by rw [hnone] at hnode; cases hnode

/-- The leaves of the tree are the values of the map. -/
def Maps (t : Layout) (m : Contents) : Prop :=
  ∀ leaf : LeafNode, m leaf.fullKey = some (leaf.valueHash, leaf.leafIndex) ↔
    ∃ p, t p = some (.leaf leaf)

section Maps

variable {m : Contents} {leaf : LeafNode} (hw : WellFormed h stale t) (hm : Maps t m)

include hw hm

theorem Maps.eq_none (hends : Ends t key n)
    (hleaf : ∀ leaf, t (new key n) = some (.leaf leaf) → leaf.fullKey ≠ key) : m key = none := by
  rw [Option.eq_none_iff_forall_ne_some]
  intro v hv
  obtain ⟨p, hp⟩ := (hm ⟨key, v.1, v.2⟩).mp hv
  have hpath := (hw.leaf hp).1
  rw [hpath] at hp
  obtain rfl := hends.unique (hw.ends_of_leaf hp)
  exact hleaf _ hp rfl

theorem Maps.eq_none_of_leaf (hleaf : t (new key n) = some (.leaf leaf))
    (hne : leaf.fullKey ≠ key) : m key = none :=
  hm.eq_none hw (hw.ends_of_leaf hleaf) fun _ hother => leaf_unique hleaf hother ▸ hne

theorem Maps.byBits_of_leaf (hp : t p = some (.leaf leaf)) :
    below (byBits m) (pathBits p)
        (bitRange leaf.fullKey (4 * p.length) (treeDepth - 4 * p.length)) =
      some (leaf.valueHash, leaf.leafIndex) := by
  rw [below_apply, byBits, keyOfBits_new (hw.length_le hp) (hw.leaf hp).1.symm]
  exact (hm leaf).mpr ⟨p, hp⟩

theorem Maps.byBits_of_leaf_ne (hp : t p = some (.leaf leaf)) (bs : List Bool)
    (hlen : bs.length = treeDepth - 4 * p.length)
    (hne : bs ≠ bitRange leaf.fullKey (4 * p.length) (treeDepth - 4 * p.length)) :
    below (byBits m) (pathBits p) bs = none := by
  have hle := hw.length_le hp
  have hlength : (pathBits p ++ bs).length = treeDepth := by
    simp only [List.length_append, length_pathBits, hlen, treeDepth, keyNibbles] at hle ⊢
    omega
  have hpre := new_keyOfBits hlength
  have hleaf : t (new (keyOfBits (pathBits p ++ bs)) p.length) = some (.leaf leaf) := by
    rw [hpre, hp]
  refine hm.eq_none_of_leaf hw hleaf fun heq => hne ?_
  have hbits := keyBits_keyOfBits hlength
  rw [← heq, keyBits_eq_append _ (show 4 * p.length ≤ treeDepth by
    simp only [treeDepth, keyNibbles] at hle ⊢; omega)] at hbits
  exact (List.append_inj hbits (by simp)).2.symm

theorem Maps.byBits_of_none (hp : t p = some (.internal node)) (hnone : t (p ++ [i]) = none)
    (bs : List Bool) (hlen : bs.length = treeDepth - 4 * (p.length + 1)) :
    below (byBits m) (pathBits (p ++ [i])) bs = none := by
  have hlt := (hw.internal hp).1
  have hlength : (pathBits (p ++ [i]) ++ bs).length = treeDepth := by
    simp only [List.length_append, length_pathBits, List.length_singleton, hlen, treeDepth,
      keyNibbles] at hlt ⊢
    omega
  have hpre := new_keyOfBits hlength
  rw [List.length_append, List.length_singleton, new_succ] at hpre
  obtain ⟨hparent, hlast⟩ := List.append_inj hpre (by simp)
  rw [below_apply, byBits]
  refine hm.eq_none hw (hw.ends_of_none (by rw [hparent, hp]) ?_) ?_
  · rw [new_succ, hparent, List.singleton_inj.mp hlast, hnone]
  · rw [new_succ, hparent, List.singleton_inj.mp hlast, hnone]
    rintro leaf ⟨⟩

end Maps

/-- No reference at or below the path is stale. -/
def Clean (stale : Nibbles → Prop) (p : Nibbles) : Prop :=
  ∀ q, ¬stale (p ++ q)

theorem Clean.concat (hp : Clean stale p) (i : Nibble) : Clean stale (p ++ [i]) := by
  intro q
  rw [List.append_assoc]
  exact hp _

section Hash

variable {m : Contents} (hw : WellFormed h stale t) (hm : Maps t m)

include hw hm

theorem childHash_of_hash (hp : t p = some (.internal node)) (hi : Clean stale (p ++ [i]))
    (hchild : ∀ child, t (p ++ [i]) = some child →
      child.hash h (4 * (p.length + 1)) =
        h.plain.root (treeDepth - 4 * (p.length + 1)) (below (byBits m) (pathBits (p ++ [i])))) :
    (node.childHashes i).getD (h.emptySubtreeHash (treeDepth - 4 * (p.length + 1))) =
      h.plain.root (treeDepth - 4 * (p.length + 1)) (below (byBits m) (pathBits (p ++ [i]))) := by
  cases hc : t (p ++ [i]) with
  | none =>
    rw [InternalNode.childHashes, (hw.child_none hp).mpr hc, Option.map_none, Option.getD_none]
    exact (root_of_none (h := h.plain) (hm.byBits_of_none hw hp hc)).symm
  | some child =>
    obtain ⟨node', ref, hp', href, -, hhash⟩ := hw.parent hc
    obtain rfl := internal_unique hp hp'
    have hstale : ¬stale (p ++ [i]) := by simpa using hi []
    rw [InternalNode.childHashes, href, Option.map_some, Option.getD_some, hhash hstale,
      hchild child hc]

/-- The hash of a node is that of the plain tree with what the map holds below its path. -/
theorem WellFormed.hash_eq (hx : t p = some x) (hclean : ∀ i, Clean stale (p ++ [i])) :
    x.hash h (4 * p.length) =
      h.plain.root (treeDepth - 4 * p.length) (below (byBits m) (pathBits p)) := by
  induction hn : keyNibbles - p.length generalizing p x with
  | zero =>
    cases x with
    | leaf leaf =>
      exact LeafNode.hash_eq leaf _ (hm.byBits_of_leaf hw hx)
        (hm.byBits_of_leaf_ne hw hx)
    | internal node =>
      have hlt := (hw.internal hx).1
      omega
  | succ n ih =>
    cases x with
    | leaf leaf =>
      exact LeafNode.hash_eq leaf _ (hm.byBits_of_leaf hw hx)
        (hm.byBits_of_leaf_ne hw hx)
    | internal node =>
      have hlt := (hw.internal hx).1
      have hlevels : LevelHashes h 4 (treeDepth - 4 * (p.length + 1)) node.childHashes
          (below (byBits m) (pathBits p)) := by
        intro i
        rw [below_below, ← pathBits_concat]
        refine childHash_of_hash hw hm hx (hclean i) fun child hchild => ?_
        have hlen : (p ++ [i]).length = p.length + 1 := by simp
        have hih := ih hchild (fun j => (hclean i).concat j) (by rw [hlen]; omega)
        rwa [hlen] at hih
      simp only [keyNibbles] at hlt
      have hdepth : 4 * p.length + 4 + (treeDepth - 4 * (p.length + 1)) = treeDepth := by
        simp only [treeDepth]
        omega
      have heq := hashInner_eq hdepth hlevels
      rwa [show treeDepth - 4 * (p.length + 1) + 4 = treeDepth - 4 * p.length by
        simp only [treeDepth]; omega] at heq

theorem WellFormed.childHash_eq (hp : t p = some (.internal node)) (hi : Clean stale (p ++ [i])) :
    (node.childHashes i).getD (h.emptySubtreeHash (treeDepth - 4 * (p.length + 1))) =
      h.plain.root (treeDepth - 4 * (p.length + 1)) (below (byBits m) (pathBits (p ++ [i]))) := by
  refine childHash_of_hash hw hm hp hi fun child hchild => ?_
  have heq := hw.hash_eq hm hchild fun j => hi.concat j
  rwa [List.length_append, List.length_singleton] at heq

theorem WellFormed.levelHashes (hp : t p = some (.internal node))
    (hclean : ∀ i, Clean stale (p ++ [i])) :
    LevelHashes h 4 (treeDepth - 4 * (p.length + 1)) node.childHashes
      (below (byBits m) (pathBits p)) := by
  intro i
  rw [below_below, ← pathBits_concat]
  exact hw.childHash_eq hm hp (hclean i)

end Hash

end RollupX.MerkleTree
