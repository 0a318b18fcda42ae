import RollupX.Verification.MerkleTree.Splice

/-! `TreeUpdater::insert` adds the entry to the map of the tree, wherever the walk of its key
ends. The hashes along the path are left to be updated. -/

namespace RollupX.MerkleTree

open Nibbles WorkingPatchSet

variable {h : HashTree} {db : Database} {patch patch' : WorkingPatchSet}
  {stale : Nibbles → Prop} {t : Layout} {key : Key} {n : ℕ}

@[simp] theorem InternalNode.insertChildRef_insertChildRef (node : InternalNode) (i : Nibble)
    (ref ref' : ChildRef) :
    (node.insertChildRef i ref).insertChildRef i ref' = node.insertChildRef i ref' := by
  simp [insertChildRef]

theorem InternalNode.insertChildRef_eq_self {node : InternalNode} {i : Nibble} {ref : ChildRef}
    (href : node.children i = some ref) : node.insertChildRef i ref = node := by
  rw [insertChildRef, ← href, Function.update_eq_self]

theorem Working.version_le (hwork : Working h db patch stale t) {p : Nibbles} {i : Nibble}
    {node : InternalNode} {ref : ChildRef} (hp : t p = some (.internal node))
    (href : node.children i = some ref) : ref.version ≤ patch.rootVersion := by
  obtain ⟨child, hchild, -⟩ := hwork.wf.child hp href
  have htracked := hwork.tracked p i node ref child hp href hchild
  rw [Tracked] at htracked
  split at htracked
  · rcases htracked with ⟨heq, -⟩ | ⟨-, hlt, -⟩
    · exact heq.le
    · exact hlt.le
  · exact htracked.1.le

theorem Working.exists_ref (hwork : Working h db patch stale t) (hloaded : Loaded patch t key)
    {j : ℕ} {node : InternalNode} {x : Node} (hnode : t (new key j) = some (.internal node))
    (hx : t (new key (j + 1)) = some x) :
    ∃ ref, node.children (nibble key j) = some ref ∧
      patch.changes (new key j) =
        some ⟨.internal (node.insertChildRef (nibble key j) ref), patch.prev (new key j)⟩ ∧
      ref.version ≤ patch.rootVersion ∧ ref.isLeaf = x.isLeaf := by
  rw [new_succ] at hx
  obtain ⟨node', ref, hnode', href, hleaf, -⟩ := hwork.wf.parent hx
  obtain rfl := internal_unique hnode hnode'
  obtain ⟨prev, hchange⟩ := hwork.exists_change hloaded hnode
  refine ⟨ref, href, ?_, hwork.version_le hnode href, hleaf⟩
  rw [InternalNode.insertChildRef_eq_self href, prev_of_changes hchange, hchange]

theorem Spine.congr {rel : ℕ → ℕ → Prop} {patch₁ : WorkingPatchSet} {isLeaf : Bool}
    (hspine : Spine rel patch patch₁ t key n isLeaf)
    (heq : ∀ j < n, patch'.changes (new key j) = patch₁.changes (new key j)) :
    Spine rel patch patch' t key n isLeaf := fun j hj node hnode => by
  rw [heq j hj]
  exact hspine j hj node hnode

theorem Working.spine_insert (hwork : Working h db patch stale t) (hloaded : Loaded patch t key)
    (hends : Ends t key (n + 1)) {parent : InternalNode} {ref : ChildRef}
    (hparent : t (new key n) = some (.internal parent))
    (hversion : ref.version ≤ patch.rootVersion) :
    Spine (· ≤ ·) patch (patch.insert (new key n)
      (.internal (parent.insertChildRef (nibble key n) ref))) t key (n + 1) ref.isLeaf := by
  intro j hj node hnode
  rcases Nat.lt_succ_iff_lt_or_eq.mp hj with hlt | rfl
  · obtain ⟨next, hnext⟩ := hends.internal (j + 1) (by omega)
    obtain ⟨ref, -, hold, hle, hleaf⟩ := hwork.exists_ref hloaded hnode hnext
    refine ⟨ref, ?_, hle, ?_⟩
    · rw [changes_insert_of_ne (new_ne (by omega)), hold]
    · rw [hleaf, decide_eq_false (by omega)]
      rfl
  · obtain rfl := internal_unique hparent hnode
    exact ⟨_, changes_insert_self, hversion, by simp⟩

theorem ne_new_of_below {p : Nibbles} (hp : new key n <+: p) : ∀ j < n, p ≠ new key j := by
  rintro j hj rfl
  have := hp.length_le
  simp only [length_new] at this
  omega

theorem exists_spliced (hends : Ends t key n) (patch₁ : WorkingPatchSet) (isLeaf : Bool)
    (hversion : patch₁.rootVersion = patch.rootVersion)
    (hoff : ∀ p, ¬new key n <+: p → (∀ j < n, p ≠ new key j) →
      patch₁.changes p = patch.changes p)
    (hspine : Spine (· ≤ ·) patch patch₁ t key n isLeaf) :
    ∃ patch', TreeUpdater.updateVersions patch.rootVersion (new key n).reverse patch₁ =
        some patch' ∧ Spliced patch patch' t key n isLeaf ∧
      ∀ p, new key n <+: p → patch'.changes p = patch₁.changes p := by
  have : Nonempty InternalNode := ⟨{}⟩
  have : Nonempty ChildRef := ⟨ChildRef.leaf 0⟩
  choose! node hnode using hends.internal
  choose! ref href using fun j hj => hspine j hj (node j) (hnode j hj)
  obtain ⟨patch', hrun, hversion', hnew, hrest⟩ := updateVersions_eq patch.rootVersion n
    (fun j hj => (href j hj).1) fun j _ => children_insertChildRef_self
  refine ⟨patch', hrun, ⟨hversion'.trans hversion, fun p hb hs => ?_, fun j hj node' hnode' => ?_⟩,
    fun p hp => hrest p (ne_new_of_below hp)⟩
  · rw [hrest p hs, hoff p hb hs]
  · obtain rfl := internal_unique (hnode j hj) hnode'
    refine ⟨{ ref j with version := max (ref j).version patch.rootVersion }, ?_, ?_,
      (href j hj).2.2⟩
    · rw [hnew j hj, InternalNode.insertChildRef_insertChildRef]
    · exact max_eq_right (href j hj).2.1

/-- The references whose hashes are outdated before and after every operation: those of the
root. They get their hashes when the logs are finalized. -/
def RootStale (q : Nibbles) : Prop :=
  q.length ≤ 1

/-- After an insertion also those on the path down to the new leaf, and the one to the leaf that
was moved. -/
def InsertStale (key : Key) (leafData : NewLeafData) (q : Nibbles) : Prop :=
  RootStale q ∨ (OnPath key q ∧ q.length ≤ leafData.nibbles.length) ∨
    ∃ leaf, leafData.adjacentLeaf = some (q, leaf)

def writeLog : Option TreeValue → TreeLogEntry
  | none => .inserted
  | some (value, leafIndex) => .updated leafIndex value

theorem Maps.update {t' : Layout} {m : Contents} (hm : Maps t m)
    (hw : WellFormed h stale t') {leaf : LeafNode} {p : Nibbles} (hp : t' p = some (.leaf leaf))
    (hother : ∀ other : LeafNode, other.fullKey ≠ leaf.fullKey →
      ((∃ q, t' q = some (.leaf other)) ↔ ∃ q, t q = some (.leaf other))) :
    Maps t' (Function.update m leaf.fullKey (some (leaf.valueHash, leaf.leafIndex))) := by
  intro other
  rcases eq_or_ne other.fullKey leaf.fullKey with hkey | hkey
  · rw [hkey, Function.update_self, Option.some.injEq, Prod.mk.injEq]
    constructor
    · rintro ⟨hvalue, hindex⟩
      refine ⟨p, ?_⟩
      rw [hp, show leaf = other from ?_]
      cases leaf
      cases other
      simp_all
    · rintro ⟨q, hq⟩
      have hpathp := (hw.leaf hp).1
      have hpathq := (hw.leaf hq).1
      rw [hkey] at hpathq
      rw [hpathp] at hp
      rw [hpathq] at hq
      have hlen := (hw.ends_of_leaf hp).unique (hw.ends_of_leaf hq)
      rw [← hlen] at hq
      obtain rfl := leaf_unique hp hq
      exact ⟨rfl, rfl⟩
  · rw [Function.update_of_ne hkey, hm other, hother other hkey]

def FreshTo (patch : WorkingPatchSet) (t : Layout) (key : Key) (n : ℕ) : Prop :=
  ∀ j < n, ∀ node ref, t (new key j) = some (.internal node) →
    node.children (nibble key j) = some ref → ref.version = patch.rootVersion

/-- The moved leaf hangs at a new node, whose cache is empty. -/
def Adjacent (patch : WorkingPatchSet) (t : Layout) (key : Key) (leafData : NewLeafData) : Prop :=
  ∀ q moved, leafData.adjacentLeaf = some (q, moved) → ∃ p i node prev, q = p ++ [i] ∧
    leafData.nibbles = p ++ [nibble key p.length] ∧ i ≠ nibble key p.length ∧ p ≠ [] ∧
    patch.changes p = some ⟨.internal node, prev⟩ ∧ node.cache = none ∧ t q = some (.leaf moved)

/-- What `insert` leaves behind, with the map after it. -/
structure Inserted (h : HashTree) (db : Database) (patch patch' : WorkingPatchSet) (t t' : Layout)
    (m : Contents) (entry : TreeEntry) (leafData : NewLeafData) : Prop where
  working : Working h db patch' (InsertStale entry.key leafData) t'
  maps : Maps t' m
  grows : Grows patch patch' t t' entry.key
  pos : 0 < leafData.nibbles.length
  onPath : OnPath entry.key leafData.nibbles
  leaf : leafData.leaf = LeafNode.new entry
  leafAt : t' leafData.nibbles = some (.leaf (LeafNode.new entry))
  fresh : FreshTo patch' t' entry.key leafData.nibbles.length
  adjacent : Adjacent patch' t' entry.key leafData

section Assemble

variable {entry : TreeEntry} {m : Contents} {leafData : NewLeafData} {isLeaf : Bool}

theorem inserted_of_spliced (hwork : Working h db patch RootStale t) (hm : Maps t m)
    (hends : Ends t entry.key n) (hn : 0 < n) (hspliced : Spliced patch patch' t entry.key n isLeaf)
    (hbottom : Bottom h db patch patch' (InsertStale entry.key leafData) (patch'.overlay t)
      entry.key n isLeaf)
    (hle : n ≤ leafData.nibbles.length) (honPath : OnPath entry.key leafData.nibbles)
    (hleaf : leafData.leaf = LeafNode.new entry)
    (hleafAt : patch'.overlay t leafData.nibbles = some (.leaf (LeafNode.new entry)))
    (hbelow : ∀ other : LeafNode, other.fullKey ≠ entry.key →
      ((∃ q, patch'.overlay t (new entry.key n ++ q) = some (.leaf other)) ↔
        ∃ q, t (new entry.key n ++ q) = some (.leaf other)))
    (hfresh : ∀ j, n ≤ j → j < leafData.nibbles.length → ∀ node ref,
      patch'.overlay t (new entry.key j) = some (.internal node) →
      node.children (nibble entry.key j) = some ref → ref.version = patch.rootVersion)
    (hadjacent : Adjacent patch' (patch'.overlay t) entry.key leafData) :
    Inserted h db patch patch' t (patch'.overlay t)
      (Function.update m entry.key (some entry.treeValue)) entry leafData := by
  have hworking := hspliced.working hwork hends hbottom (fun q hq => .inl hq)
    (fun j _ hj => .inr (.inl ⟨onPath_new _ _, by rw [length_new]; omega⟩)) hn
  refine ⟨hworking, ?_, hspliced.grows hwork hends hbottom hn, by omega, honPath, hleaf, hleafAt,
    fun j hj node ref hnode href => ?_, hadjacent⟩
  · exact hm.update hworking.wf hleafAt fun other hother =>
      hspliced.holds_iff hwork hends (hbelow other hother)
  · rw [hspliced.version]
    rcases Nat.lt_or_ge j n with hlt | hge
    · obtain ⟨old, ref', -, hnew, hversion, -⟩ := hspliced.internal hends hlt
      rw [internal_unique hnode (overlay_of_changes hnew), children_insertChildRef_self,
        Option.some.injEq] at href
      rw [← href, hversion]
    · exact hfresh j hge hj node ref hnode href

theorem exists_inserted_leaf (hwork : Working h db patch RootStale t) (hm : Maps t m)
    (hends : Ends t entry.key n) (hn : 0 < n)
    (hold : ∀ leaf, t (new entry.key n) = some (.leaf leaf) → leaf.fullKey = entry.key)
    (patch₁ : WorkingPatchSet) (hversion : patch₁.rootVersion = patch.rootVersion)
    (htop : patch₁.changes (new entry.key n) =
      some ⟨.leaf (LeafNode.new entry), patch.prev (new entry.key n)⟩)
    (hoff : ∀ p, p ≠ new entry.key n → (∀ j < n, p ≠ new entry.key j) →
      patch₁.changes p = patch.changes p)
    (hspine : Spine (· ≤ ·) patch patch₁ t entry.key n true) :
    ∃ patch', TreeUpdater.updateVersions patch.rootVersion (new entry.key n).reverse patch₁ =
        some patch' ∧
      Inserted h db patch patch' t (patch'.overlay t)
        (Function.update m entry.key (some entry.treeValue)) entry
        ⟨new entry.key n, LeafNode.new entry, none⟩ := by
  obtain ⟨patch', hrun, hspliced, hbelow⟩ := exists_spliced hends _ true hversion
    (fun p hp hs => hoff p (by rintro rfl; exact hp List.prefix_rfl) hs) hspine
  have htop' := (hbelow _ List.prefix_rfl).trans htop
  have hoff' : ∀ p, p ≠ new entry.key n → new entry.key n <+: p →
      patch'.changes p = patch.changes p := fun p hne hp => by
    rw [hbelow p hp, hoff p hne (ne_new_of_below hp)]
  refine ⟨patch', hrun, inserted_of_spliced hwork hm hends hn hspliced
    (Bottom.of_leaf hwork hends hoff' (onPath_new _ _) htop') (by simp) (onPath_new _ _) rfl
    (overlay_of_changes htop') (fun other hother => ?_)
    (fun j hj hlt => absurd hlt (by rw [length_new]; omega)) fun q moved heq => by cases heq⟩
  refine iff_of_false ?_ ?_
  · rintro ⟨q, hq⟩
    rcases eq_or_ne q [] with rfl | hne
    · rw [List.append_nil] at hq
      exact hother (leaf_unique hq (overlay_of_changes htop') ▸ rfl)
    · rw [(none_below_place hwork hends hoff' hne).2] at hq
      cases hq
  · rintro ⟨q, hq⟩
    rcases eq_or_ne q [] with rfl | hne
    · rw [List.append_nil] at hq
      exact hother (hold other hq)
    · rw [hwork.wf.none_below hends.last hne] at hq
      cases hq

/-- The reference to the moved leaf, the new internal nodes and then the two leaves: from these
changes come the part above and the part below. -/
theorem exists_forked (hwork : Working h db patch stale t) (hloaded : Loaded patch t entry.key)
    {k d : ℕ} (hends : Ends t entry.key (k + 1)) {moved : LeafNode}
    (hpath : new moved.fullKey (k + 1) = new entry.key (k + 1))
    (hsame : new moved.fullKey d = new entry.key d)
    (hdiffer : nibble moved.fullKey d ≠ nibble entry.key d) (hkd : k + 1 ≤ d)
    (hd : d < keyNibbles) {parent : InternalNode} {ref : ChildRef}
    (hparent : t (new entry.key k) = some (.internal parent))
    (hversion : ref.version ≤ patch.rootVersion) {patch₁ patch₂ : WorkingPatchSet}
    (hpatch₁ : patch₁ = patch.insert (new entry.key k)
      (.internal (parent.insertChildRef (nibble entry.key k) { ref with isLeaf := false })))
    (hversion₂ : patch₂.rootVersion = patch.rootVersion)
    (hfork : ∀ j, k + 1 ≤ j → j ≤ d → patch₂.changes (new entry.key j) =
      some ⟨.internal (forkNode patch.rootVersion moved.fullKey entry.key j),
        patch₁.prev (new entry.key j)⟩)
    (hoff₂ : ∀ p, (∀ j, k + 1 ≤ j → j ≤ d → p ≠ new entry.key j) →
      patch₂.changes p = patch₁.changes p) :
    ∃ patch', TreeUpdater.updateVersions patch.rootVersion (new entry.key (k + 1)).reverse
        ((patch₂.insert (new entry.key (d + 1)) (.leaf (LeafNode.new entry))).insert
          (new moved.fullKey (d + 1)) (.leaf moved)) = some patch' ∧
      Spliced patch patch' t entry.key (k + 1) false ∧
      Forked patch patch' entry.key (k + 1) d (LeafNode.new entry) moved := by
  subst hpatch₁
  have hne := diverging_ne hdiffer
  have hspine := hwork.spine_insert hloaded hends hparent
    (show ChildRef.version { ref with isLeaf := false } ≤ _ from hversion)
  obtain ⟨patch', hrun, hspliced, hbelow⟩ := exists_spliced hends
    ((patch₂.insert (new entry.key (d + 1)) (.leaf (LeafNode.new entry))).insert
      (new moved.fullKey (d + 1)) (.leaf moved)) false (hversion₂ : _ = patch.rootVersion)
    (fun p hp hs => by
      have hlow : ∀ j, k + 1 ≤ j → p ≠ new entry.key j := by
        rintro j hj rfl
        exact hp (new_mono _ hj)
      have hlow' : p ≠ new moved.fullKey (d + 1) := by
        rintro rfl
        exact hp (hpath ▸ new_mono _ (by omega))
      rw [changes_insert_of_ne hlow', changes_insert_of_ne (hlow _ (by omega)),
        hoff₂ p fun j hj _ => hlow j hj, changes_insert_of_ne (hs k (by omega))])
    (hspine.congr fun j hj => by
      rw [changes_insert_of_ne (hne j).symm, changes_insert_of_ne (new_ne (by omega)),
        hoff₂ _ fun j' hj' _ => new_ne (by omega)])
  refine ⟨patch', hrun, hspliced, hkd, hd, hsame, hdiffer, hspliced.version, fun j hj hjd => ?_,
    ?_, ?_, fun p hp hs hs' => ?_⟩
  · rw [hbelow _ (new_mono _ hj), changes_insert_of_ne (hne j).symm,
      changes_insert_of_ne (new_ne (by omega)), hfork j hj hjd,
      prev_insert_of_ne (new_ne (by omega))]
  · rw [hbelow _ (new_mono _ (by omega)), changes_insert_of_ne (hne _).symm,
      changes_insert_self, prev, hoff₂ _ fun j' _ hj' => new_ne (by omega),
      changes_insert_of_ne (new_ne (by omega)), prev]
  · rw [hbelow _ (hpath ▸ new_mono _ (by omega)), changes_insert_self,
      prev_insert_of_ne (hne _), prev, hoff₂ _ fun j' _ _ => hne j',
      changes_insert_of_ne (hne k), prev]
  · rw [hbelow p hp, changes_insert_of_ne hs', changes_insert_of_ne (hs _ (by omega) le_rfl),
      hoff₂ p fun j hj hjd => hs j hj (by omega),
      changes_insert_of_ne (ne_new_of_below hp k (by omega))]

end Assemble

/-- `insert` returns the log of the map, counts this many new leaves and adds the entry. -/
def Inserts (h : HashTree) (db : Database) (updater : TreeUpdater) (t : Layout)
    (m : Contents) (entry : TreeEntry) (start newLeaves : ℕ) : Prop :=
  ∃ leafData patch', updater.insert entry (new entry.key start) =
      some (writeLog (m entry.key), leafData, ⟨patch', updater.newLeaves + newLeaves⟩) ∧
    Inserted h db updater.patchSet patch' t (patch'.overlay t)
      (Function.update m entry.key (some entry.treeValue)) entry leafData

section Outcomes

variable {updater : TreeUpdater} {entry : TreeEntry} {m : Contents} {start : ℕ}
  (hwork : Working h db updater.patchSet RootStale t) (hm : Maps t m)
  (hloaded : Loaded updater.patchSet t entry.key) (hends : Ends t entry.key n) (hn : 0 < n)
  (hle : n ≤ keyNibbles) (hstart : start ≤ n)

include hwork hm hloaded hends hn hle hstart

theorem insert_of_match {leaf : LeafNode} (hleaf : t (new entry.key n) = some (.leaf leaf))
    (hkey : leaf.fullKey = entry.key) : Inserts h db updater t m entry start 0 := by
  have hvalue : m entry.key = some (leaf.valueHash, leaf.leafIndex) := by
    rw [← hkey]
    exact (hm leaf).mpr ⟨_, hleaf⟩
  have hnewLeaf : leaf.updateFrom entry = LeafNode.new entry := by
    rw [LeafNode.updateFrom, LeafNode.new, ← hkey]
  obtain ⟨patch', hrun, hinserted⟩ := exists_inserted_leaf hwork hm hends hn
    (fun other hother => by rw [leaf_unique hother hleaf, hkey])
    (updater.patchSet.insert (new entry.key n) (.leaf (LeafNode.new entry))) rfl
    changes_insert_self (fun p hp _ => changes_insert_of_ne hp) (fun j hj node hnode => by
      rw [changes_insert_of_ne (new_ne (by omega))]
      obtain ⟨x, hx, hxleaf⟩ : ∃ x, t (new entry.key (j + 1)) = some x ∧
          x.isLeaf = decide (j + 1 = n) := by
        rcases eq_or_ne (j + 1) n with rfl | hne
        · exact ⟨_, hleaf, by simp [Node.isLeaf]⟩
        · obtain ⟨next, hnext⟩ := hends.internal (j + 1) (by omega)
          exact ⟨_, hnext, by simp [Node.isLeaf, hne]⟩
      obtain ⟨ref, -, hchange, hversion, hrefLeaf⟩ := hwork.exists_ref hloaded hnode hx
      exact ⟨ref, hchange, hversion, by rw [hrefLeaf, hxleaf, Bool.and_true]⟩)
  refine ⟨_, patch', ?_, hinserted⟩
  rw [TreeUpdater.insert, hwork.traverse_eq hloaded hends hstart hle]
  simp only [outcomeAt, hleaf, hkey, if_true, Option.bind_eq_bind, Option.bind_some,
    TreeUpdater.insertAt, hnewLeaf, TraverseOutcome.position, hvalue, writeLog]
  simp only [reduceCtorEq, if_false, hrun, Option.bind_some]
  rfl

theorem insert_of_missing (hnone : t (new entry.key n) = none) :
    Inserts h db updater t m entry start 1 := by
  have hvalue : m entry.key = none := hm.eq_none hwork.wf hends (by simp [hnone])
  obtain ⟨n, rfl⟩ := Nat.exists_eq_succ_of_ne_zero hn.ne'
  obtain ⟨parent, hparent⟩ := hends.internal n (by omega)
  obtain ⟨prev, hchange⟩ := hwork.exists_change hloaded hparent
  have hspine := hwork.spine_insert hloaded hends hparent
    (show (ChildRef.leaf updater.patchSet.rootVersion).version ≤ _ from le_rfl)
  obtain ⟨patch', hrun, hinserted⟩ := exists_inserted_leaf hwork hm hends hn (by simp [hnone])
    ((updater.patchSet.insert (new entry.key n) (.internal (parent.insertChildRef
      (nibble entry.key n) (ChildRef.leaf updater.patchSet.rootVersion)))).insert
        (new entry.key (n + 1)) (.leaf (LeafNode.new entry))) rfl
    (by rw [changes_insert_self, prev_insert_of_ne (new_ne (by omega))])
    (fun p hp hs => by rw [changes_insert_of_ne hp, changes_insert_of_ne (hs n (by omega))])
    (hspine.congr fun j hj => changes_insert_of_ne (new_ne (by omega)))
  refine ⟨_, patch', ?_, hinserted⟩
  rw [TreeUpdater.insert, hwork.traverse_eq hloaded hends hstart hle]
  simp only [outcomeAt, hnone, Option.bind_eq_bind, Option.bind_some, TreeUpdater.insertAt,
    splitLast_new_succ, get_of_changes hchange, TraverseOutcome.position, hvalue, writeLog]
  simp only [if_true, TreeUpdater.insertNode, Node.isLeaf, Bool.and_self, hrun, Option.bind_some]
  rfl

theorem insert_of_mismatch {moved : LeafNode} (hmoved : t (new entry.key n) = some (.leaf moved))
    (hkey : moved.fullKey ≠ entry.key) : Inserts h db updater t m entry start 1 := by
  have hvalue := hm.eq_none_of_leaf hwork.wf hmoved hkey
  have hpath : new moved.fullKey n = new entry.key n := by
    have := (hwork.wf.leaf hmoved).1
    rw [OnPath, length_new] at this
    exact this.symm
  obtain ⟨d, hnd, hd, hsame, hdiffer⟩ := exists_diverging hkey hpath
  obtain ⟨k, rfl⟩ := Nat.exists_eq_succ_of_ne_zero hn.ne'
  obtain ⟨parent, hparent⟩ := hends.internal k (by omega)
  obtain ⟨ref, href, hchange, hversion, -⟩ := hwork.exists_ref hloaded hparent hmoved
  rw [InternalNode.insertChildRef_eq_self href] at hchange
  obtain ⟨patch₂, hinsertPath, hversion₂, hfork, hoff₂⟩ := insertPath_eq hdiffer
    (fun j hj => (new_eq_of_succ (new_eq_of_le (show j + 1 ≤ d by omega) hsame)).2)
    hnd (show d < k + 1 + (keyNibbles - (k + 1)) by omega)
    ⟨updater.patchSet.insert (new entry.key k) (.internal (parent.insertChildRef
      (nibble entry.key k) { ref with isLeaf := false })), updater.newLeaves⟩
  obtain ⟨patch', hrun, hspliced, hforked⟩ :=
    exists_forked hwork hloaded hends hpath hsame hdiffer hnd hd hparent hversion rfl
      hversion₂ hfork hoff₂
  refine ⟨⟨new entry.key (d + 1), LeafNode.new entry, some (new moved.fullKey (d + 1), moved)⟩,
    patch', ?_, inserted_of_spliced hwork hm hends hn hspliced ?_ ?_ (onPath_new _ _) rfl
      (overlay_of_changes hforked.leafChange) (fun other hother => ?_)
      (fun j hj hlt node ref' hnode href' => ?_) fun q moved' heq => ?_⟩
  · rw [TreeUpdater.insert, hwork.traverse_eq hloaded hends hstart hle]
    simp only [outcomeAt, hmoved, hkey, if_false, Option.bind_eq_bind, Option.bind_some,
      TreeUpdater.insertAt, TreeUpdater.updateMovedLeafRef, splitLast_new_succ, length_new,
      modifyChildRef_eq hchange href, hinsertPath, TraverseOutcome.position, hvalue, writeLog]
    simp only [Option.pure_def, Option.bind_some, if_true, TreeUpdater.insertNode, Node.isLeaf,
      Bool.and_self, Bool.and_false, Bool.false_eq_true, if_false, hrun]
  · exact Bottom.of_forked hwork hends hforked rfl
      (fun j _ hj => .inr (.inl ⟨onPath_new _ _, by simpa using hj⟩)) (.inr (.inr ⟨moved, rfl⟩))
  · rw [length_new]
    omega
  · constructor
    · rintro ⟨q, hq⟩
      rcases hforked.leaf_cases hwork hends (List.prefix_append ..) hq with rfl | ⟨rfl, -⟩
      · exact absurd rfl hother
      · exact ⟨[], by rw [List.append_nil, hmoved]⟩
    · rintro ⟨q, hq⟩
      rcases eq_or_ne q [] with rfl | hne
      · rw [List.append_nil] at hq
        obtain rfl := leaf_unique hmoved hq
        obtain ⟨q, hq⟩ := new_mono moved.fullKey (show k + 1 ≤ d + 1 by omega)
        rw [hpath] at hq
        exact ⟨q, by rw [hq]; exact overlay_of_changes hforked.movedChange⟩
      · rw [hwork.wf.none_below hends.last hne] at hq
        cases hq
  · rw [length_new] at hlt
    obtain rfl := internal_unique (overlay_of_changes (hforked.fork j hj (by omega))) hnode
    rw [children_forkNode, if_pos (.inl rfl)] at href'
    cases href'
    rfl
  · cases heq
    refine ⟨new entry.key d, nibble moved.fullKey d, _, _, hforked.moved_eq, ?_, ?_, ?_,
      hforked.fork d hnd le_rfl, ?_, overlay_of_changes hforked.movedChange⟩
    · rw [length_new, new_succ]
    · rwa [length_new]
    · rw [← List.length_pos_iff, length_new]
      omega
    · rw [forkNode, if_neg hdiffer]
      rfl

end Outcomes

/-- `insert` never panics. It returns the log of the map and leaves the tree with the entry. -/
theorem insert_eq {updater : TreeUpdater} {entry : TreeEntry} {m : Contents}
    {start : ℕ} (hwork : Working h db updater.patchSet RootStale t) (hm : Maps t m)
    (hloaded : Loaded updater.patchSet t entry.key)
    (hstart : ∀ j < start, ∃ node, t (new entry.key j) = some (.internal node)) :
    Inserts h db updater t m entry start (if (m entry.key).isSome then 0 else 1) := by
  obtain ⟨n, hle, hends⟩ := hwork.wf.exists_ends entry.key
  have hn := hwork.ends_pos hends
  have hstart' := hends.le_of_internal hstart
  rcases hends.cases with hx | ⟨leaf, hx⟩
  · rw [hm.eq_none hwork.wf hends (by simp [hx])]
    exact insert_of_missing hwork hm hloaded hends hn hle hstart' hx
  · by_cases hkey : leaf.fullKey = entry.key
    · have hvalue := (hm leaf).mpr ⟨_, hx⟩
      rw [hkey] at hvalue
      rw [hvalue]
      exact insert_of_match hwork hm hloaded hends hn hle hstart' hx hkey
    · rw [hm.eq_none_of_leaf hwork.wf hx hkey]
      exact insert_of_mismatch hwork hm hloaded hends hn hle hstart' hx hkey

end RollupX.MerkleTree
