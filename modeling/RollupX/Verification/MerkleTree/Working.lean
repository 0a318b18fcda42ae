import RollupX.Verification.MerkleTree.Shape

/-! A working patch set over the database: the nodes that are in it and the ones that are still only
in the database make up one tree, and the versions in the references tell where each node is to be
found. -/

namespace RollupX.MerkleTree

open Nibbles

section InternalNode

variable {node : InternalNode} {i j : Nibble} {ref : ChildRef}

@[simp] theorem children_insertChildRef_self : (node.insertChildRef i ref).children i = some ref :=
  Function.update_self ..

theorem children_insertChildRef_of_ne (hne : j ≠ i) :
    (node.insertChildRef i ref).children j = node.children j :=
  Function.update_of_ne hne ..

theorem childHashes_insertChildRef_of_ne (hne : j ≠ i) :
    (node.insertChildRef i ref).childHashes j = node.childHashes j := by
  rw [InternalNode.childHashes, InternalNode.childHashes, children_insertChildRef_of_ne hne]

end InternalNode

namespace WorkingPatchSet

variable {patch : WorkingPatchSet} {p q : Nibbles} {node : Node}

theorem changes_cons_self (version : ℕ) (w : WorkingNode) (entries : List (Nibbles × WorkingNode)) :
    changes ⟨version, (p, w) :: entries⟩ p = some w := by
  simp [changes]

theorem changes_cons_of_ne (hne : q ≠ p) (version : ℕ) (w : WorkingNode)
    (entries : List (Nibbles × WorkingNode)) :
    changes ⟨version, (p, w) :: entries⟩ q = changes ⟨version, entries⟩ q := by
  rw [changes, changes, List.lookup_cons, beq_false_of_ne hne]

theorem changes_cons_ne_none {entries : List (Nibbles × WorkingNode)} (version : ℕ)
    (w : WorkingNode) (hq : changes ⟨version, entries⟩ q ≠ none) :
    changes ⟨version, (p, w) :: entries⟩ q ≠ none := by
  rcases eq_or_ne q p with rfl | hne
  · simp [changes_cons_self]
  · rwa [changes_cons_of_ne hne]

theorem changes_filter (version : ℕ) (f : Nibbles → Bool)
    (entries : List (Nibbles × WorkingNode)) :
    changes ⟨version, entries.filter fun entry => f entry.1⟩ q =
      if f q then changes ⟨version, entries⟩ q else none := by
  induction entries with
  | nil => simp [changes]
  | cons entry entries ih =>
    obtain ⟨p, w⟩ := entry
    rcases eq_or_ne q p with rfl | hne
    · cases hf : f q with
      | true => simp [hf, changes_cons_self]
      | false => simpa [hf] using ih
    · rw [changes_cons_of_ne hne, ← ih, List.filter_cons]
      split
      · exact changes_cons_of_ne hne ..
      · rfl

theorem changes_ne_none_iff : patch.changes p ≠ none ↔ ∃ w, (p, w) ∈ patch.entries := by
  rw [changes, ← Option.isSome_iff_ne_none, List.lookup_isSome_iff]
  simp

@[simp] theorem rootVersion_insert : (patch.insert p node).rootVersion = patch.rootVersion := rfl

def prev (patch : WorkingPatchSet) (p : Nibbles) : Option ℕ :=
  (patch.changes p).bind (·.prevVersion)

theorem prev_of_changes {w : WorkingNode} (hp : patch.changes p = some w) :
    patch.prev p = w.prevVersion := by
  rw [prev, hp, Option.bind_some]

theorem changes_insert_self : (patch.insert p node).changes p = some ⟨node, patch.prev p⟩ :=
  changes_cons_self ..

theorem changes_insert_of_ne (hne : q ≠ p) : (patch.insert p node).changes q = patch.changes q :=
  changes_cons_of_ne hne ..

theorem prev_insert_of_ne (hne : q ≠ p) : (patch.insert p node).prev q = patch.prev q := by
  rw [prev, changes_insert_of_ne hne, prev]

theorem changes_insert_ne_none (hq : patch.changes q ≠ none) :
    (patch.insert p node).changes q ≠ none :=
  changes_cons_ne_none _ _ hq

theorem get_of_changes {w : WorkingNode} (hp : patch.changes p = some w) :
    patch.get p = some w.inner := by
  rw [get, hp, Option.map_some]

theorem modifyChildRef_eq {parent : InternalNode} {prev : Option ℕ} {i : Nibble} {ref : ChildRef}
    (hp : patch.changes p = some ⟨.internal parent, prev⟩) (href : parent.children i = some ref)
    (f : ChildRef → ChildRef) :
    patch.modifyChildRef p i f =
      some (patch.insert p (.internal (parent.insertChildRef i (f ref)))) := by
  rw [modifyChildRef, get_of_changes hp]
  simp only [href, Option.map_some]

def overlay (patch : WorkingPatchSet) (t : Layout) : Layout :=
  fun p => (patch.get p).or (t p)

theorem overlay_of_changes {t : Layout} {w : WorkingNode} (hp : patch.changes p = some w) :
    patch.overlay t p = some w.inner := by
  rw [overlay, get_of_changes hp, Option.some_or]

theorem overlay_of_none {t : Layout} (hp : patch.changes p = none) : patch.overlay t p = t p := by
  rw [overlay, get, hp, Option.map_none, Option.none_or]

theorem overlay_congr {patch' : WorkingPatchSet} {t : Layout}
    (hp : patch'.changes p = patch.changes p) (ht : patch.overlay t p = t p) :
    patch'.overlay t p = t p := by
  rw [overlay, get, hp]
  exact ht

end WorkingPatchSet

/-- Where the node that a reference leads to is kept. A node of the patch is new in this version,
or it is the one that was loaded. -/
def Tracked (db : Database) (patch : WorkingPatchSet) (q : Nibbles) (ref : ChildRef)
    (node : Node) : Prop :=
  match patch.changes q with
  | some w =>
    (ref.version = patch.rootVersion ∧ ∀ v, w.prevVersion = some v → v < patch.rootVersion) ∨
      (w.prevVersion = some ref.version ∧ ref.version < patch.rootVersion ∧
        db.treeNode ref.version q ref.isLeaf = some node.clone)
  | none =>
    ref.version < patch.rootVersion ∧ node.clone = node ∧
      db.treeNode ref.version q ref.isLeaf = some node

/-- The patch and the database hold the tree between them. -/
structure Working (h : HashTree) (db : Database) (patch : WorkingPatchSet)
    (stale : Nibbles → Prop) (t : Layout) : Prop where
  wf : WellFormed h stale t
  root : ∃ node prev, patch.changes [] = some ⟨.internal node, prev⟩
  agree : ∀ p w, patch.changes p = some w → t p = some w.inner
  closed : ∀ p i, patch.changes (p ++ [i]) ≠ none → patch.changes p ≠ none
  tracked : ∀ p i node ref child, t p = some (.internal node) → node.children i = some ref →
    t (p ++ [i]) = some child → Tracked db patch (p ++ [i]) ref child

/-- All nodes on the path of the key are in the patch. -/
def Loaded (patch : WorkingPatchSet) (t : Layout) (key : Key) : Prop :=
  ∀ n, t (new key n) ≠ none → patch.changes (new key n) ≠ none

variable {h : HashTree} {db : Database} {patch patch' : WorkingPatchSet}
  {stale stale' : Nibbles → Prop} {t : Layout} {key : Key}

namespace Working

variable (hwork : Working h db patch stale t)

include hwork

theorem overlay_eq (p : Nibbles) : patch.overlay t p = t p := by
  cases hp : patch.changes p with
  | none => exact WorkingPatchSet.overlay_of_none hp
  | some w => rw [WorkingPatchSet.overlay_of_changes hp, hwork.agree p w hp]

theorem get_eq (hloaded : Loaded patch t key) (n : ℕ) : patch.get (new key n) = t (new key n) := by
  cases hp : patch.changes (new key n) with
  | some w => rw [WorkingPatchSet.get_of_changes hp, hwork.agree _ w hp]
  | none =>
    rw [WorkingPatchSet.get, hp, Option.map_none]
    by_contra hne
    exact hloaded n (Ne.symm hne) hp

theorem exists_change (hloaded : Loaded patch t key) {n : ℕ} {node : InternalNode}
    (hn : t (new key n) = some (.internal node)) :
    ∃ prev, patch.changes (new key n) = some ⟨.internal node, prev⟩ := by
  obtain ⟨w, hwn⟩ := Option.ne_none_iff_exists'.mp (hloaded n (by simp [hn]))
  have heq := hwork.agree _ w hwn
  rw [hn, Option.some.injEq] at heq
  exact ⟨w.prevVersion, by rw [hwn, heq]⟩

theorem ends_pos {n : ℕ} (hends : Ends t key n) : 0 < n := by
  refine Nat.pos_of_ne_zero fun h0 => ?_
  obtain ⟨node, prev, hroot⟩ := hwork.root
  exact hends.last node (by rw [h0]; exact hwork.agree [] _ hroot)

theorem prev_lt {p : Nibbles} {i : Nibble} {w : WorkingNode} {v : ℕ}
    (hw : patch.changes (p ++ [i]) = some w) (hv : w.prevVersion = some v) :
    v < patch.rootVersion := by
  have hchild := hwork.agree _ w hw
  obtain ⟨node, ref, hp, href, -⟩ := hwork.wf.parent hchild
  have htracked := hwork.tracked p i node ref _ hp href hchild
  rw [Tracked, hw] at htracked
  rcases htracked with ⟨-, hlt⟩ | ⟨heq, hlt, -⟩
  · exact hlt v hv
  · rw [hv, Option.some.injEq] at heq
    omega

end Working

def outcomeAt (t : Layout) (key : Key) (n : ℕ) : TraverseOutcome :=
  match t (new key n) with
  | some (.leaf leaf) =>
    if leaf.fullKey = key then .leafMatch (new key n) leaf else .leafMismatch (new key n) leaf
  | _ => .missingChild (new key n)

theorem position_outcomeAt (t : Layout) (key : Key) (n : ℕ) :
    (outcomeAt t key n).position = new key n := by
  rw [outcomeAt]
  split
  · split <;> rfl
  · rfl

theorem traverseFrom_eq (hget : ∀ n, patch.get (new key n) = t (new key n)) {n : ℕ}
    (hends : Ends t key n) {fuel idx : ℕ} (hidx : idx ≤ n) (hfuel : n < idx + fuel) :
    patch.traverseFrom key fuel idx = some (outcomeAt t key n) := by
  induction fuel generalizing idx with
  | zero => omega
  | succ fuel ih =>
    rw [WorkingPatchSet.traverseFrom]
    rcases Nat.lt_or_ge idx n with hlt | hge
    · obtain ⟨node, hnode⟩ := hends.internal idx hlt
      simp only [hget, hnode]
      exact ih hlt (by omega)
    · obtain rfl : idx = n := by omega
      simp only [hget, outcomeAt]
      rcases hends.cases with hx | ⟨leaf, hx⟩ <;> simp only [hx]
      split <;> rfl

theorem Working.traverse_eq (hwork : Working h db patch stale t) (hloaded : Loaded patch t key)
    {n start : ℕ} (hends : Ends t key n) (hstart : start ≤ n) (hn : n ≤ keyNibbles) :
    patch.traverse key (new key start) = some (outcomeAt t key n) := by
  rw [WorkingPatchSet.traverse, length_new]
  exact traverseFrom_eq (hwork.get_eq hloaded) hends hstart (by omega)

theorem updateVersions_eq (version n : ℕ) {patch : WorkingPatchSet} {node : ℕ → InternalNode}
    {prev : ℕ → Option ℕ} {ref : ℕ → ChildRef}
    (hnode : ∀ j < n, patch.changes (new key j) = some ⟨.internal (node j), prev j⟩)
    (href : ∀ j < n, (node j).children (nibble key j) = some (ref j)) :
    ∃ patch', TreeUpdater.updateVersions version (new key n).reverse patch = some patch' ∧
      patch'.rootVersion = patch.rootVersion ∧
      (∀ j < n, patch'.changes (new key j) =
        some ⟨.internal ((node j).insertChildRef (nibble key j)
          { ref j with version := max (ref j).version version }), prev j⟩) ∧
      ∀ p, (∀ j < n, p ≠ new key j) → patch'.changes p = patch.changes p := by
  induction n generalizing patch with
  | zero => exact ⟨patch, rfl, rfl, by simp, fun _ _ => rfl⟩
  | succ n ih =>
    rw [reverse_new_succ, TreeUpdater.updateVersions, List.reverse_reverse,
      WorkingPatchSet.modifyChildRef_eq (hnode n (by omega)) (href n (by omega))]
    have hne : ∀ j < n, new key j ≠ new key n := fun j hj => new_ne hj.ne
    have hnode' : ∀ j < n, (patch.insert (new key n) (.internal ((node n).insertChildRef
        (nibble key n) { ref n with version := max (ref n).version version }))).changes
        (new key j) = some ⟨.internal (node j), prev j⟩ := by
      intro j hj
      rw [WorkingPatchSet.changes_insert_of_ne (hne j hj)]
      exact hnode j (by omega)
    obtain ⟨patch', hrun, hversion, hspine, hoff⟩ := ih hnode' fun j hj => href j (by omega)
    refine ⟨patch', hrun, hversion, fun j hj => ?_, fun p hp => ?_⟩
    · rcases Nat.lt_succ_iff_lt_or_eq.mp hj with hlt | rfl
      · exact hspine j hlt
      · rw [hoff _ fun i hi heq => hne i hi heq.symm, WorkingPatchSet.changes_insert_self,
          WorkingPatchSet.prev_of_changes (hnode j (by omega))]
    · rw [hoff p fun j hj => hp j (by omega),
        WorkingPatchSet.changes_insert_of_ne (hp n (by omega))]

end RollupX.MerkleTree
