import RollupX.Verification.MerkleTree.Working

/-! What an insertion does to the tree. -/

namespace RollupX.MerkleTree

open Nibbles WorkingPatchSet

variable {h : HashTree} {db : Database} {patch patch' : WorkingPatchSet}
  {stale stale' : Nibbles → Prop} {t : Layout} {key : Key} {n j : ℕ} {p : Nibbles} {i : Nibble}

theorem WellFormed.none_below (hw : WellFormed h stale t) (hp : ∀ node, t p ≠ some (.internal node))
    {q : Nibbles} (hq : q ≠ []) : t (p ++ q) = none := by
  have hchild : ∀ q i, (∀ node, t q ≠ some (.internal node)) → t (q ++ [i]) = none := by
    intro q i hq
    by_contra hne
    obtain ⟨x, hx⟩ := Option.ne_none_iff_exists'.mp hne
    obtain ⟨node, -, hnode, -⟩ := hw.parent hx
    exact hq node hnode
  induction q using List.reverseRecOn with
  | nil => exact absurd rfl hq
  | append_singleton q i ih =>
    rw [← List.append_assoc]
    refine hchild _ i fun node => ?_
    rcases eq_or_ne q [] with rfl | hne
    · rw [List.append_nil]
      exact hp node
    · rw [ih hne]
      rintro ⟨⟩

/-- What an operation on a key keeps of the patch and of the tree. -/
structure Grows (patch patch' : WorkingPatchSet) (t t' : Layout) (key : Key) : Prop where
  version : patch'.rootVersion = patch.rootVersion
  internal : ∀ p node, t p = some (.internal node) → ∃ node', t' p = some (.internal node')
  loaded : ∀ key', Loaded patch t key' → Loaded patch' t' key'
  off : ∀ i rest, i ≠ nibble key 0 →
    patch'.changes (i :: rest) = patch.changes (i :: rest) ∧ t' (i :: rest) = t (i :: rest)

theorem Grows.refl (patch : WorkingPatchSet) (t : Layout) (key : Key) :
    Grows patch patch t t key where
  version := rfl
  internal _ node hp := ⟨node, hp⟩
  loaded _ hloaded := hloaded
  off _ _ _ := ⟨rfl, rfl⟩

theorem Grows.trans {patch'' : WorkingPatchSet} {t' t'' : Layout}
    (h : Grows patch patch' t t' key) (h' : Grows patch' patch'' t' t'' key) :
    Grows patch patch'' t t'' key where
  version := h'.version.trans h.version
  internal p node hp := by
    obtain ⟨node', hp'⟩ := h.internal p node hp
    exact h'.internal p node' hp'
  loaded key' hloaded := h'.loaded key' (h.loaded key' hloaded)
  off i rest hi :=
    ⟨(h'.off i rest hi).1.trans (h.off i rest hi).1, (h'.off i rest hi).2.trans (h.off i rest hi).2⟩

/-- The nodes along the path have got references whose versions are so related to the new one;
`isLeaf` tells what the lowest of them leads to. -/
def Spine (rel : ℕ → ℕ → Prop) (patch patch' : WorkingPatchSet) (t : Layout) (key : Key) (n : ℕ)
    (isLeaf : Bool) : Prop :=
  ∀ j < n, ∀ node, t (new key j) = some (.internal node) → ∃ ref,
    patch'.changes (new key j) =
      some ⟨.internal (node.insertChildRef (nibble key j) ref), patch.prev (new key j)⟩ ∧
    rel ref.version patch.rootVersion ∧ ref.isLeaf = (decide (j + 1 = n) && isLeaf)

/-- The walk of the key ends at depth `n`. Above it only the references along the path have
changed. -/
structure Spliced (patch patch' : WorkingPatchSet) (t : Layout) (key : Key) (n : ℕ)
    (isLeaf : Bool) : Prop where
  version : patch'.rootVersion = patch.rootVersion
  off : ∀ p, ¬new key n <+: p → (∀ j < n, p ≠ new key j) → patch'.changes p = patch.changes p
  spine : Spine (· = ·) patch patch' t key n isLeaf

/-- What stands at and below the depth `n`, in the tree `t'` of the new patch. -/
structure Bottom (h : HashTree) (db : Database) (patch patch' : WorkingPatchSet)
    (stale' : Nibbles → Prop) (t' : Layout) (key : Key) (n : ℕ) (isLeaf : Bool) : Prop where
  ok : ∀ q, LocalOk h stale' t' (new key n ++ q)
  top : ∃ x, patch'.changes (new key n) =
    some ⟨x, patch.prev (new key n)⟩ ∧ x.isLeaf = isLeaf
  closed : ∀ q i, patch'.changes (new key n ++ q ++ [i]) ≠ none →
    patch'.changes (new key n ++ q) ≠ none
  tracked : ∀ q i node ref child, t' (new key n ++ q) = some (.internal node) →
    node.children i = some ref → t' (new key n ++ q ++ [i]) = some child →
    Tracked db patch' (new key n ++ q ++ [i]) ref child

/-- A path is below the place, on the way to it, or off both, and then its children are as
well. -/
theorem path_cases (key : Key) (n : ℕ) (p : Nibbles) :
    (∃ q, p = new key n ++ q) ∨ (∃ j < n, p = new key j) ∨
      (¬new key n <+: p ∧ (∀ j < n, p ≠ new key j) ∧
        ∀ i, ¬new key n <+: p ++ [i] ∧ ∀ j < n, p ++ [i] ≠ new key j) := by
  by_cases hbelow : new key n <+: p
  · obtain ⟨q, hq⟩ := hbelow
    exact .inl ⟨q, hq.symm⟩
  by_cases hspine : ∃ j < n, p = new key j
  · exact .inr (.inl hspine)
  have hparent : ∀ i j, p ++ [i] = new key j → j ≤ n → False := by
    intro i j heq hj
    cases j with
    | zero => simp at heq
    | succ j =>
      rw [new_succ] at heq
      exact hspine ⟨j, hj, (List.append_inj' heq rfl).1⟩
  refine .inr (.inr ⟨hbelow, fun j hj heq => hspine ⟨j, hj, heq⟩, fun i => ⟨?_, ?_⟩⟩)
  · rw [List.prefix_concat_iff]
    rintro (heq | hpre)
    · exact hparent i n heq.symm le_rfl
    · exact hbelow hpre
  · exact fun j hj heq => hparent i j heq hj.le

theorem sibling_ne (hi : i ≠ nibble key j) (j' : ℕ) : new key j ++ [i] ≠ new key j' := by
  intro heq
  obtain rfl : j' = j + 1 := by simpa using (congrArg List.length heq).symm
  rw [new_succ] at heq
  exact hi (List.singleton_inj.mp (List.append_inj heq rfl).2)

theorem sibling_off (hj : j < n) (hi : i ≠ nibble key j) :
    ¬new key n <+: new key j ++ [i] ∧ ∀ j' < n, new key j ++ [i] ≠ new key j' := by
  refine ⟨fun hpre => ?_, fun j' _ => sibling_ne hi j'⟩
  have hle := hpre.length_le
  simp only [length_new, List.length_append, List.length_singleton] at hle
  obtain rfl : n = j + 1 := by omega
  exact sibling_ne hi _ (hpre.eq_of_length (by simp)).symm

section Splice

variable {isLeaf : Bool} (hwork : Working h db patch stale t)
  (hspliced : Spliced patch patch' t key n isLeaf)

include hwork hspliced

theorem Spliced.overlay_off (hbelow : ¬new key n <+: p) (hspine : ∀ j < n, p ≠ new key j) :
    patch'.overlay t p = t p :=
  overlay_congr (hspliced.off p hbelow hspine) (hwork.overlay_eq p)

variable (hends : Ends t key n)

include hends

omit hwork in
theorem Spliced.internal (hj : j < n) :
    ∃ node ref, t (new key j) = some (.internal node) ∧
      patch'.changes (new key j) =
        some ⟨.internal (node.insertChildRef (nibble key j) ref), patch.prev (new key j)⟩ ∧
      ref.version = patch.rootVersion ∧ ref.isLeaf = (decide (j + 1 = n) && isLeaf) := by
  obtain ⟨node, hnode⟩ := hends.internal j hj
  obtain ⟨ref, href⟩ := hspliced.spine j hj node hnode
  exact ⟨node, ref, hnode, href⟩

variable (hbottom : Bottom h db patch patch' stale' (patch'.overlay t) key n isLeaf)

include hbottom

omit hwork in
theorem Spliced.isLeaf_next (hj : j < n) :
    ∃ x, patch'.overlay t (new key (j + 1)) = some x ∧
      x.isLeaf = (decide (j + 1 = n) && isLeaf) := by
  rcases eq_or_ne (j + 1) n with heq | hne
  · obtain ⟨x, hx, hleaf⟩ := hbottom.top
    refine ⟨x, ?_, by rw [hleaf, decide_eq_true heq, Bool.true_and]⟩
    rw [heq]
    exact overlay_of_changes hx
  · obtain ⟨_, _, -, hnew, -⟩ := hspliced.internal hends (show j + 1 < n by omega)
    exact ⟨_, overlay_of_changes hnew, by rw [decide_eq_false hne]; rfl⟩

variable (hstale : ∀ q, stale q → stale' q) (hpath : ∀ j, 1 ≤ j → j ≤ n → stale' (new key j))

include hstale hpath

theorem Spliced.wellFormed : WellFormed h stale' (patch'.overlay t) := by
  intro p
  rcases path_cases key n p with ⟨q, rfl⟩ | ⟨j, hj, rfl⟩ | ⟨hbelow, hspine, hchild⟩
  · exact hbottom.ok q
  · obtain ⟨node, ref, hnode, hnew, -, href⟩ := hspliced.internal hends hj
    obtain ⟨hlen, hcache, hrefs⟩ := hwork.wf.internal hnode
    have hnext : stale' (new key j ++ [nibble key j]) := by
      rw [← new_succ]
      exact hpath (j + 1) (by omega) hj
    rw [LocalOk, overlay_of_changes hnew]
    refine ⟨hlen, fun cache hc => ?_, fun i => ?_⟩
    · obtain ⟨f, hf, heq⟩ := hcache cache hc
      refine ⟨f, fun i hi => ?_, heq⟩
      have hne : i ≠ nibble key j := by
        rintro rfl
        exact hi hnext
      rw [hf i fun hs => hi (hstale _ hs), childHashes_insertChildRef_of_ne hne]
    · rcases eq_or_ne i (nibble key j) with rfl | hne
      · obtain ⟨x, hx, hleaf⟩ := hspliced.isLeaf_next hends hbottom hj
        rw [children_insertChildRef_self, ← new_succ, hx]
        exact ⟨href.trans hleaf.symm, fun hns => absurd (by rwa [← new_succ] at hnext) hns⟩
      · obtain ⟨hb, hs⟩ := sibling_off hj hne
        rw [children_insertChildRef_of_ne hne, hspliced.overlay_off hwork hb hs]
        exact (hrefs i).mono (hstale _)
  · exact (hwork.wf p).congr (hspliced.overlay_off hwork hbelow hspine)
      (fun i => hspliced.overlay_off hwork (hchild i).1 (hchild i).2) fun i => hstale _

/-- The new patch holds the new tree. -/
theorem Spliced.working (hn : 0 < n) : Working h db patch' stale' (patch'.overlay t) where
  wf := hspliced.wellFormed hwork hends hbottom hstale hpath
  root := by
    obtain ⟨_, _, -, hnew, -⟩ := hspliced.internal hends hn
    exact ⟨_, _, hnew⟩
  agree p w hp := overlay_of_changes hp
  closed p i hi := by
    rcases path_cases key n p with ⟨q, rfl⟩ | ⟨j, hj, rfl⟩ | ⟨hbelow, hspine, hchild⟩
    · exact hbottom.closed q i hi
    · obtain ⟨_, _, -, hnew, -⟩ := hspliced.internal hends hj
      simp [hnew]
    · rw [hspliced.off p hbelow hspine]
      rw [hspliced.off _ (hchild i).1 (hchild i).2] at hi
      exact hwork.closed p i hi
  tracked p i node ref child hp href hchild := by
    rcases path_cases key n p with ⟨q, rfl⟩ | ⟨j, hj, rfl⟩ | ⟨hbelow, hspine, hoff⟩
    · exact hbottom.tracked q i node ref child hp href hchild
    · obtain ⟨old, newRef, hold, hnew, hversion, -⟩ := hspliced.internal hends hj
      obtain rfl := internal_unique (overlay_of_changes hnew) hp
      rcases eq_or_ne i (nibble key j) with rfl | hne
      · rw [children_insertChildRef_self, Option.some.injEq] at href
        subst href
        obtain ⟨x, hx⟩ : ∃ x, patch'.changes (new key j ++ [nibble key j]) =
            some ⟨x, patch.prev (new key j ++ [nibble key j])⟩ := by
          rw [← new_succ]
          rcases eq_or_ne (j + 1) n with heq | hlt
          · obtain ⟨x, hx, -⟩ := hbottom.top
            exact ⟨x, by rw [heq, hx]⟩
          · obtain ⟨_, _, -, hnext, -⟩ := hspliced.internal hends (show j + 1 < n by omega)
            exact ⟨_, hnext⟩
        rw [Tracked, hx, hspliced.version]
        refine .inl ⟨hversion, fun v hv => ?_⟩
        obtain ⟨w, hw, hwv⟩ := Option.bind_eq_some_iff.mp hv
        exact hwork.prev_lt hw hwv
      · obtain ⟨hb, hs⟩ := sibling_off hj hne
        rw [children_insertChildRef_of_ne hne] at href
        rw [hspliced.overlay_off hwork hb hs] at hchild
        have htracked := hwork.tracked _ i old ref child hold href hchild
        rwa [Tracked, ← hspliced.off _ hb hs, ← hspliced.version] at htracked
    · rw [hspliced.overlay_off hwork hbelow hspine] at hp
      rw [hspliced.overlay_off hwork (hoff i).1 (hoff i).2] at hchild
      have htracked := hwork.tracked p i node ref child hp href hchild
      rwa [Tracked, ← hspliced.off _ (hoff i).1 (hoff i).2, ← hspliced.version] at htracked

omit hstale hpath in
theorem Spliced.grows (hn : 0 < n) : Grows patch patch' t (patch'.overlay t) key where
  version := hspliced.version
  internal p node hp := by
    rcases path_cases key n p with ⟨q, rfl⟩ | ⟨j, hj, rfl⟩ | ⟨hbelow, hspine, -⟩
    · rcases eq_or_ne q [] with rfl | hq
      · exact absurd (by simpa using hp) (hends.last node)
      · rw [hwork.wf.none_below hends.last hq] at hp
        cases hp
    · obtain ⟨_, _, -, hnew, -⟩ := hspliced.internal hends hj
      exact ⟨_, overlay_of_changes hnew⟩
    · exact ⟨node, by rw [hspliced.overlay_off hwork hbelow hspine, hp]⟩
  loaded key' hloaded j hj := by
    rcases path_cases key n (new key' j) with ⟨q, hq⟩ | ⟨j', hj', heq⟩ | ⟨hbelow, hspine, -⟩
    · rw [hq] at hj ⊢
      intro hnone
      rw [overlay_of_none hnone] at hj
      rcases eq_or_ne q [] with rfl | hne
      · obtain ⟨x, hx, -⟩ := hbottom.top
        rw [List.append_nil, hx] at hnone
        cases hnone
      · exact hj (hwork.wf.none_below hends.last hne)
    · obtain ⟨_, _, -, hnew, -⟩ := hspliced.internal hends hj'
      simp [heq, hnew]
    · rw [hspliced.overlay_off hwork hbelow hspine] at hj
      rw [hspliced.off _ hbelow hspine]
      exact hloaded j hj
  off i rest hi := by
    have hbelow : ∀ j, 0 < j → ¬new key j <+: i :: rest := by
      intro j hj hpre
      obtain ⟨j, rfl⟩ := Nat.exists_eq_succ_of_ne_zero hj.ne'
      have hfirst := (new_mono key (Nat.le_add_left 1 j)).trans hpre
      rw [show new key 1 = [nibble key 0] from rfl, List.cons_prefix_cons] at hfirst
      exact hi hfirst.1.symm
    have hspine : ∀ j < n, i :: rest ≠ new key j := by
      rintro (_ | j) hj heq
      · cases heq
      · exact hbelow (j + 1) (by omega) (heq ▸ List.prefix_rfl)
    exact ⟨hspliced.off _ (hbelow n hn) hspine, hspliced.overlay_off hwork (hbelow n hn) hspine⟩

omit hstale hpath hbottom in
theorem Spliced.holds_iff {leaf : LeafNode}
    (hbelow : (∃ q, patch'.overlay t (new key n ++ q) = some (.leaf leaf)) ↔
      ∃ q, t (new key n ++ q) = some (.leaf leaf)) :
    (∃ p, patch'.overlay t p = some (.leaf leaf)) ↔ ∃ p, t p = some (.leaf leaf) := by
  have hspine : ∀ j < n, patch'.overlay t (new key j) ≠ some (.leaf leaf) ∧
      t (new key j) ≠ some (.leaf leaf) := by
    intro j hj
    obtain ⟨node, ref, hold, hnew, -⟩ := hspliced.internal hends hj
    simp [hold, overlay_of_changes hnew]
  constructor
  · rintro ⟨p, hp⟩
    rcases path_cases key n p with ⟨q, rfl⟩ | ⟨j, hj, rfl⟩ | ⟨hb, hs, -⟩
    · obtain ⟨q', hq'⟩ := hbelow.mp ⟨q, hp⟩
      exact ⟨_, hq'⟩
    · exact absurd hp (hspine j hj).1
    · exact ⟨p, by rw [← hspliced.overlay_off hwork hb hs, hp]⟩
  · rintro ⟨p, hp⟩
    rcases path_cases key n p with ⟨q, rfl⟩ | ⟨j, hj, rfl⟩ | ⟨hb, hs, -⟩
    · obtain ⟨q', hq'⟩ := hbelow.mpr ⟨q, hp⟩
      exact ⟨_, hq'⟩
    · exact absurd hp (hspine j hj).2
    · exact ⟨p, by rw [hspliced.overlay_off hwork hb hs, hp]⟩

end Splice

theorem Working.changes_eq_none (hwork : Working h db patch stale t) (hp : t p = none) :
    patch.changes p = none := by
  by_contra hne
  obtain ⟨w, hw⟩ := Option.ne_none_iff_exists'.mp hne
  rw [hwork.agree p w hw] at hp
  cases hp

section Leaf

variable (hwork : Working h db patch stale t) (hends : Ends t key n)
  (hoff : ∀ p, p ≠ new key n → new key n <+: p → patch'.changes p = patch.changes p)

include hwork hends hoff

theorem none_below_place {q : Nibbles} (hq : q ≠ []) :
    patch'.changes (new key n ++ q) = none ∧ patch'.overlay t (new key n ++ q) = none := by
  have ht := hwork.wf.none_below hends.last hq
  have hchange : patch'.changes (new key n ++ q) = none := by
    rw [hoff _ (by simpa using hq) (List.prefix_append ..), hwork.changes_eq_none ht]
  exact ⟨hchange, by rw [overlay_of_none hchange, ht]⟩

theorem Bottom.of_leaf {leaf : LeafNode} (hleaf : OnPath leaf.fullKey (new key n))
    (htop : patch'.changes (new key n) =
      some ⟨.leaf leaf, patch.prev (new key n)⟩) :
    Bottom h db patch patch' stale' (patch'.overlay t) key n true := by
  have hchild : ∀ q i, patch'.changes (new key n ++ q ++ [i]) = none ∧
      patch'.overlay t (new key n ++ q ++ [i]) = none := by
    intro q i
    rw [List.append_assoc]
    exact none_below_place hwork hends hoff (by simp)
  refine ⟨fun q => ?_, ⟨_, htop, rfl⟩, fun q i hi => absurd (hchild q i).1 hi, ?_⟩
  · rcases eq_or_ne q [] with rfl | hq
    · rw [LocalOk, List.append_nil, overlay_of_changes htop]
      exact ⟨hleaf, fun i => by simpa using (hchild [] i).2⟩
    · rw [LocalOk, (none_below_place hwork hends hoff hq).2]
      exact fun i => (hchild q i).2
  · intro q i node ref child _ _ hc
    rw [(hchild q i).2] at hc
    cases hc

end Leaf

theorem exists_diverging {key' : Key} (hne : key' ≠ key) (hn : new key' n = new key n) :
    ∃ d, n ≤ d ∧ d < keyNibbles ∧ new key' d = new key d ∧ nibble key' d ≠ nibble key d := by
  have hex : ∃ d, new key' d ≠ new key d := ⟨keyNibbles, fun heq => hne (key_eq_of_new heq)⟩
  obtain ⟨d, hd⟩ : ∃ d, Nat.find hex = d + 1 :=
    Nat.exists_eq_succ_of_ne_zero fun h0 => Nat.find_spec hex (by rw [h0]; rfl)
  have hsame : new key' d = new key d := not_not.mp (Nat.find_min hex (by omega))
  have hdiffer : new key' (d + 1) ≠ new key (d + 1) := hd ▸ Nat.find_spec hex
  refine ⟨d, ?_, ?_, hsame, fun hlast => hdiffer ?_⟩
  · by_contra hlt
    exact hdiffer (new_eq_of_le (by omega) hn)
  · have hle := Nat.find_min' hex (m := keyNibbles) fun heq => hne (key_eq_of_new heq)
    omega
  · rw [new_succ, new_succ, hsame, hlast]

theorem diverging_ne {key' : Key} {d : ℕ} (hdiffer : nibble key' d ≠ nibble key d) (j : ℕ) :
    new key' (d + 1) ≠ new key j := by
  intro heq
  obtain rfl : j = d + 1 := by simpa using (congrArg List.length heq).symm
  exact hdiffer (new_eq_of_succ heq).2

/-- The new internal node at a depth at which the moved key and the new one agree, or part. -/
def forkNode (version : ℕ) (movedKey key : Key) (j : ℕ) : InternalNode :=
  if nibble movedKey j = nibble key j then
    InternalNode.default.insertChildRef (nibble key j) (ChildRef.internal version)
  else
    (InternalNode.default.insertChildRef (nibble key j) (ChildRef.leaf version)).insertChildRef
      (nibble movedKey j) (ChildRef.leaf version)

theorem insertPath_eq {movedKey : Key} {d : ℕ} (hdiffer : nibble movedKey d ≠ nibble key d)
    (hsame : ∀ j < d, nibble movedKey j = nibble key j) {fuel idx : ℕ} (hidx : idx ≤ d)
    (hfuel : d < idx + fuel) (updater : TreeUpdater) :
    ∃ patch', TreeUpdater.insertPath movedKey key fuel idx updater =
        some (d, ⟨patch', updater.newLeaves⟩) ∧
      patch'.rootVersion = updater.patchSet.rootVersion ∧
      (∀ j, idx ≤ j → j ≤ d → patch'.changes (new key j) =
        some ⟨.internal (forkNode updater.patchSet.rootVersion movedKey key j),
          updater.patchSet.prev (new key j)⟩) ∧
      ∀ p, (∀ j, idx ≤ j → j ≤ d → p ≠ new key j) →
        patch'.changes p = updater.patchSet.changes p := by
  induction fuel generalizing idx updater with
  | zero => omega
  | succ fuel ih =>
    rw [TreeUpdater.insertPath]
    rcases Nat.lt_or_ge idx d with hlt | hge
    · simp only [hsame idx hlt, if_true]
      obtain ⟨patch', hrun, hversion, hon, hoff⟩ := ih hlt (by omega)
        (updater.insertNode (new key idx) (.internal (InternalNode.default.insertChildRef
          (nibble key idx) (ChildRef.internal updater.patchSet.rootVersion))) true)
      refine ⟨patch', hrun, hversion, fun j hj hjd => ?_, fun p hp => ?_⟩
      · rcases Nat.lt_or_eq_of_le hj with hlt' | rfl
        · rw [hon j hlt' hjd]
          simp only [TreeUpdater.insertNode, rootVersion_insert]
          rw [prev_insert_of_ne (new_ne (by omega))]
        · rw [hoff _ fun j' hj' _ => new_ne (by omega), forkNode, if_pos (hsame idx hlt)]
          exact changes_insert_self
      · rw [hoff p fun j hj => hp j (by omega)]
        exact changes_insert_of_ne (hp idx le_rfl hlt.le)
    · obtain rfl : idx = d := by omega
      simp only [hdiffer, if_false]
      refine ⟨_, rfl, rfl, fun j hj hjd => ?_, fun p hp =>
        changes_insert_of_ne (hp idx le_rfl le_rfl)⟩
      obtain rfl : j = idx := by omega
      rw [forkNode, if_neg hdiffer]
      exact changes_insert_self

theorem children_forkNode (version : ℕ) (movedKey key : Key) (j : ℕ) (i : Nibble) :
    (forkNode version movedKey key j).children i =
      if i = nibble key j ∨ i = nibble movedKey j then
        some ⟨ValueHash.zero, version, decide (nibble movedKey j ≠ nibble key j)⟩
      else none := by
  rw [forkNode]
  split_ifs with hsame hi hi
  · have : i = nibble key j := by simpa [hsame] using hi
    subst this
    simp [hsame, ChildRef.internal]
  · rw [children_insertChildRef_of_ne fun heq => hi (.inl heq)]
    rfl
  · rcases eq_or_ne i (nibble movedKey j) with rfl | hne
    · simp [hsame, ChildRef.leaf]
    · obtain rfl : i = nibble key j := hi.resolve_right hne
      rw [children_insertChildRef_of_ne hne, children_insertChildRef_self]
      simp [hsame, ChildRef.leaf]
  · rw [children_insertChildRef_of_ne fun heq => hi (.inr heq),
      children_insertChildRef_of_ne fun heq => hi (.inl heq)]
    rfl

/-- Below the depth `n` there are the internal nodes down to the depth `d`, at which the moved
leaf and the new one part, and the two leaves. -/
structure Forked (patch patch' : WorkingPatchSet) (key : Key) (n d : ℕ) (leaf moved : LeafNode) :
    Prop where
  le : n ≤ d
  lt : d < keyNibbles
  same : new moved.fullKey d = new key d
  differ : nibble moved.fullKey d ≠ nibble key d
  version : patch'.rootVersion = patch.rootVersion
  fork : ∀ j, n ≤ j → j ≤ d → patch'.changes (new key j) =
    some ⟨.internal (forkNode patch.rootVersion moved.fullKey key j),
      patch.prev (new key j)⟩
  leafChange : patch'.changes (new key (d + 1)) =
    some ⟨.leaf leaf, patch.prev (new key (d + 1))⟩
  movedChange : patch'.changes (new moved.fullKey (d + 1)) =
    some ⟨.leaf moved, patch.prev (new moved.fullKey (d + 1))⟩
  off : ∀ p, new key n <+: p → (∀ j, n ≤ j → j ≤ d + 1 → p ≠ new key j) →
    p ≠ new moved.fullKey (d + 1) → patch'.changes p = patch.changes p

section Fork

variable {leaf moved : LeafNode} {d : ℕ} (hwork : Working h db patch stale t)
  (hends : Ends t key n) (hforked : Forked patch patch' key n d leaf moved)

include hforked

theorem Forked.nibble_eq (hj : j < d) : nibble moved.fullKey j = nibble key j :=
  (new_eq_of_succ (new_eq_of_le (show j + 1 ≤ d by omega) hforked.same)).2

theorem Forked.moved_eq : new moved.fullKey (d + 1) = new key d ++ [nibble moved.fullKey d] := by
  rw [new_succ, hforked.same]

include hwork hends

theorem Forked.none_of_off (hp : new key n <+: p) (hkey : ∀ j, n ≤ j → j ≤ d + 1 → p ≠ new key j)
    (hmoved : p ≠ new moved.fullKey (d + 1)) :
    patch'.changes p = none ∧ patch'.overlay t p = none := by
  obtain ⟨q, rfl⟩ := hp
  have hq : q ≠ [] := by
    rintro rfl
    have hle := hforked.le
    exact hkey n le_rfl (by omega) (List.append_nil _)
  have ht := hwork.wf.none_below hends.last hq
  have hchange : patch'.changes (new key n ++ q) = none := by
    rw [hforked.off _ (List.prefix_append ..) hkey hmoved, hwork.changes_eq_none ht]
  exact ⟨hchange, by rw [overlay_of_none hchange, ht]⟩

theorem Forked.none_of_sibling (hnj : n ≤ j) (hi : i ≠ nibble key j)
    (hmoved : j = d → i ≠ nibble moved.fullKey j) : patch'.overlay t (new key j ++ [i]) = none := by
  refine (hforked.none_of_off hwork hends ?_ (fun j' _ _ => sibling_ne hi j') fun heq => ?_).2
  · exact (new_mono key hnj).trans (List.prefix_append ..)
  · obtain rfl : j = d := by simpa using congrArg List.length heq
    rw [hforked.moved_eq] at heq
    exact hmoved rfl (List.singleton_inj.mp (List.append_inj heq rfl).2)

theorem Forked.none_of_child (hp : new key n <+: p) (hfork : ∀ j, n ≤ j → j ≤ d → p ≠ new key j)
    (i : Nibble) : patch'.changes (p ++ [i]) = none ∧ patch'.overlay t (p ++ [i]) = none := by
  refine hforked.none_of_off hwork hends (hp.trans (List.prefix_append ..))
    (fun j hnj hjd heq => ?_) fun heq => ?_
  · cases j with
    | zero => simp at heq
    | succ j =>
      rw [new_succ] at heq
      obtain ⟨rfl, -⟩ := List.append_inj' heq rfl
      have hle : n ≤ j := by simpa using hp.length_le
      exact hfork j hle (by omega) rfl
  · rw [hforked.moved_eq] at heq
    obtain ⟨rfl, -⟩ := List.append_inj' heq rfl
    exact hfork d hforked.le le_rfl rfl

theorem Forked.cases (hp : new key n <+: p) :
    (∃ j, n ≤ j ∧ j ≤ d ∧ p = new key j) ∨
      (∀ j, n ≤ j → j ≤ d → p ≠ new key j) ∧
        ∀ i, patch'.changes (p ++ [i]) = none ∧ patch'.overlay t (p ++ [i]) = none := by
  by_cases hfork : ∃ j, n ≤ j ∧ j ≤ d ∧ p = new key j
  · exact .inl hfork
  · have hne : ∀ j, n ≤ j → j ≤ d → p ≠ new key j := fun j hnj hjd heq =>
      hfork ⟨j, hnj, hjd, heq⟩
    exact .inr ⟨hne, hforked.none_of_child hwork hends hp hne⟩

theorem Forked.child (hnj : n ≤ j) (hjd : j ≤ d)
    (hi : i = nibble key j ∨ i = nibble moved.fullKey j) :
    ∃ x, patch'.changes (new key j ++ [i]) = some ⟨x, none⟩ ∧
      x.isLeaf = decide (nibble moved.fullKey j ≠ nibble key j) := by
  have hprev : patch.prev (new key j ++ [i]) = none := by
    obtain ⟨q, hq⟩ := new_mono key hnj
    have hnone := hwork.wf.none_below hends.last (q := q ++ [i]) (by simp)
    rw [← List.append_assoc, hq] at hnone
    rw [prev, hwork.changes_eq_none hnone, Option.bind_none]
  rcases Nat.lt_or_eq_of_le hjd with hlt | rfl
  · have hsame := hforked.nibble_eq hlt
    obtain rfl : i = nibble key j := by simpa [hsame] using hi
    rw [← new_succ] at hprev ⊢
    exact ⟨_, by rw [hforked.fork (j + 1) (by omega) hlt, hprev], by simp [hsame, Node.isLeaf]⟩
  · rcases hi with rfl | rfl
    · rw [← new_succ] at hprev ⊢
      exact ⟨_, by rw [hforked.leafChange, hprev], by simp [hforked.differ, Node.isLeaf]⟩
    · rw [← hforked.moved_eq] at hprev ⊢
      exact ⟨_, by rw [hforked.movedChange, hprev], by simp [hforked.differ, Node.isLeaf]⟩

theorem Forked.leaf_cases (hp : new key n <+: p) {other : LeafNode}
    (hother : patch'.overlay t p = some (.leaf other)) :
    other = leaf ∨ (other = moved ∧ p = new moved.fullKey (d + 1)) := by
  rcases eq_or_ne p (new moved.fullKey (d + 1)) with rfl | hmoved
  · exact .inr ⟨leaf_unique hother (overlay_of_changes hforked.movedChange), rfl⟩
  by_cases hpath : ∃ j, n ≤ j ∧ j ≤ d + 1 ∧ p = new key j
  · obtain ⟨j, hnj, hjd, rfl⟩ := hpath
    rcases Nat.le_succ_iff.mp hjd with hle | rfl
    · rw [overlay_of_changes (hforked.fork j hnj hle)] at hother
      cases hother
    · exact .inl (leaf_unique hother (overlay_of_changes hforked.leafChange))
  · rw [(hforked.none_of_off hwork hends hp (fun j hnj hjd heq => hpath ⟨j, hnj, hjd, heq⟩)
      hmoved).2] at hother
    cases hother

theorem Bottom.of_forked (hkey : leaf.fullKey = key)
    (hpath : ∀ j, 1 ≤ j → j ≤ d + 1 → stale' (new key j))
    (hmoved : stale' (new moved.fullKey (d + 1))) :
    Bottom h db patch patch' stale' (patch'.overlay t) key n false := by
  refine ⟨fun q => ?_, ⟨_, hforked.fork n le_rfl hforked.le, rfl⟩, fun q i hi => ?_, ?_⟩
  · have hp : new key n <+: new key n ++ q := List.prefix_append ..
    generalize new key n ++ q = p at hp
    rcases hforked.cases hwork hends hp with ⟨j, hnj, hjd, rfl⟩ | ⟨hfork, hchild⟩
    · have hlt := hforked.lt
      rw [LocalOk, overlay_of_changes (hforked.fork j hnj hjd)]
      refine ⟨by rw [length_new]; omega, fun cache hc => ?_, fun i => ?_⟩
      · rw [forkNode] at hc
        split at hc <;> cases hc
      · rw [children_forkNode]
        split_ifs with hi
        · obtain ⟨x, hx, hleaf⟩ := hforked.child hwork hends hnj hjd hi
          rw [overlay_of_changes hx]
          refine ⟨hleaf.symm, fun hns => absurd ?_ hns⟩
          rcases Nat.lt_or_eq_of_le hjd with hlt | rfl
          · obtain rfl : i = nibble key j := by simpa [hforked.nibble_eq hlt] using hi
            rw [← new_succ]
            exact hpath _ (by omega) (by omega)
          · rcases hi with rfl | rfl
            · rw [← new_succ]
              exact hpath _ (by omega) le_rfl
            · rwa [← hforked.moved_eq]
        · rw [hforked.none_of_sibling hwork hends hnj (fun h => hi (.inl h))
            fun _ h => hi (.inr h)]
          trivial
    · replace hchild := fun i => (hchild i).2
      rw [LocalOk]
      rcases eq_or_ne p (new key (d + 1)) with rfl | hleaf
      · rw [overlay_of_changes hforked.leafChange]
        exact ⟨hkey ▸ onPath_new _ _, hchild⟩
      · rcases eq_or_ne p (new moved.fullKey (d + 1)) with rfl | hmoved
        · rw [overlay_of_changes hforked.movedChange]
          exact ⟨onPath_new _ _, hchild⟩
        · have hkey' : ∀ j, n ≤ j → j ≤ d + 1 → p ≠ new key j := fun j hnj hjd => by
            rcases Nat.le_succ_iff.mp hjd with hle | rfl
            · exact hfork j hnj hle
            · exact hleaf
          rw [(hforked.none_of_off hwork hends hp hkey' hmoved).2]
          exact hchild
  · rcases hforked.cases hwork hends (List.prefix_append _ q) with
      ⟨j, hnj, hjd, heq⟩ | ⟨-, hchild⟩
    · simp [heq, hforked.fork j hnj hjd]
    · exact absurd (hchild i).1 hi
  · intro q i node ref child hnode href hchild
    have hp : new key n <+: new key n ++ q := List.prefix_append ..
    generalize new key n ++ q = p at hp hnode hchild
    rcases hforked.cases hwork hends hp with ⟨j, hnj, hjd, rfl⟩ | ⟨-, hnone⟩
    · obtain rfl := internal_unique (overlay_of_changes (hforked.fork j hnj hjd)) hnode
      rw [children_forkNode] at href
      split_ifs at href with hi
      obtain ⟨x, hx, -⟩ := hforked.child hwork hends hnj hjd hi
      rw [Tracked, hx, hforked.version]
      cases href
      exact .inl ⟨rfl, fun v hv => by cases hv⟩
    · rw [(hnone i).2] at hchild
      cases hchild

end Fork

end RollupX.MerkleTree
