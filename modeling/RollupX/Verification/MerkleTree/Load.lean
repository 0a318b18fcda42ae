import Mathlib.Data.Set.Card
import RollupX.Library.Fallible
import RollupX.Verification.MerkleTree.Reads

/-! The stored versions of the tree, and `load_ancestors`, which brings the nodes on the paths of
some keys into a patch. -/

namespace RollupX.MerkleTree

open Nibbles WorkingPatchSet

variable {h : HashTree} {db : Database} {patch patch' : WorkingPatchSet} {t : Layout} {key : Key}
  {m : Contents} {version depth : ℕ} {stale : Nibbles → Prop} {p : Nibbles} {node : InternalNode}

noncomputable def keyCount (m : Contents) : ℕ :=
  {key | m key ≠ none}.ncard

/-- The database holds the tree of a version, whose leaves are the values of the map. All hashes
are up to date, and no reference leads to a later version. -/
structure StoredAt (h : HashTree) (db : Database) (version : ℕ) (m : Contents)
    (t : Layout) : Prop where
  wf : WellFormed h (fun _ => False) t
  maps : Maps t m
  clone : ∀ p x, t p = some x → x.clone = x
  root : (t [] = none ∧ db.root version = some .empty) ∨
    ∃ node, t [] = some (.internal node) ∧
      db.root version = some (.filled (keyCount m) (.internal node)) ∧ keyCount m ≠ 0
  nodes : ∀ p i node ref, t p = some (.internal node) → node.children i = some ref →
    ref.version ≤ version ∧ db.treeNode ref.version (p ++ [i]) ref.isLeaf = t (p ++ [i])

def rootPatch (rootVersion : ℕ) (prev : Option ℕ) (node : Node) : WorkingPatchSet where
  rootVersion := rootVersion
  entries := [([], ⟨node, prev⟩)]

section RootPatch

variable (rootVersion : ℕ) (prev : Option ℕ) (node : Node)

theorem changes_rootPatch_nil :
    (rootPatch rootVersion prev node).changes [] = some ⟨node, prev⟩ :=
  changes_cons_self ..

theorem changes_rootPatch_of_ne (hp : p ≠ []) :
    (rootPatch rootVersion prev node).changes p = none :=
  changes_cons_of_ne hp ..

end RootPatch

theorem StoredAt.working_rootPatch (hstored : StoredAt h db version m t)
    (hroot : t [] = some (.internal node)) {rootVersion : ℕ} (hversion : version < rootVersion)
    (prev : Option ℕ) :
    Working h db (rootPatch rootVersion prev (.internal node)) (fun _ => False) t where
  wf := hstored.wf
  root := ⟨node, prev, changes_rootPatch_nil ..⟩
  agree p w hp := by
    rcases eq_or_ne p [] with rfl | hne
    · rw [changes_rootPatch_nil, Option.some.injEq] at hp
      rw [hroot, ← hp]
    · rw [changes_rootPatch_of_ne _ _ _ hne] at hp
      cases hp
  closed p i hi := absurd (changes_rootPatch_of_ne _ _ _ (by simp)) hi
  tracked p i inner ref child hp href hchild := by
    obtain ⟨hle, hdb⟩ := hstored.nodes p i inner ref hp href
    rw [Tracked, changes_rootPatch_of_ne _ _ _ (by simp)]
    exact ⟨hle.trans_lt hversion, hstored.clone _ _ hchild, hdb.trans hchild⟩

section Load

theorem Working.cons (hwork : Working h db patch (fun _ => False) t) {i : Nibble}
    {ref : ChildRef} {child : Node} (hp : t p = some (.internal node))
    (href : node.children i = some ref) (hchild : t (p ++ [i]) = some child)
    (hpatch : patch.changes p ≠ none) (hstored : StoredAt h db version m t)
    (hversion : version < patch.rootVersion) :
    Working h db ⟨patch.rootVersion, (p ++ [i], ⟨child, some ref.version⟩) :: patch.entries⟩
      (fun _ => False) t where
  wf := hwork.wf
  root := by
    obtain ⟨root, prev, hroot⟩ := hwork.root
    exact ⟨root, prev, (changes_cons_of_ne (by simp) ..).trans hroot⟩
  agree q w hq := by
    rcases eq_or_ne q (p ++ [i]) with rfl | hne
    · rw [changes_cons_self, Option.some.injEq] at hq
      rw [hchild, ← hq]
    · rw [changes_cons_of_ne hne] at hq
      exact hwork.agree q w hq
  closed q j hj := by
    refine changes_cons_ne_none _ _ ?_
    rcases eq_or_ne (q ++ [j]) (p ++ [i]) with heq | hne
    · obtain ⟨rfl, -⟩ := List.append_inj' heq rfl
      exact hpatch
    · rw [changes_cons_of_ne hne] at hj
      exact hwork.closed q j hj
  tracked q j inner ref' child' hq href' hchild' := by
    rw [Tracked]
    rcases eq_or_ne (q ++ [j]) (p ++ [i]) with heq | hne
    · obtain ⟨rfl, hj⟩ := List.append_inj' heq rfl
      obtain rfl := List.singleton_inj.mp hj
      obtain rfl := internal_unique hp hq
      obtain rfl := Option.some.inj (href.symm.trans href')
      obtain rfl := Option.some.inj (hchild.symm.trans hchild')
      obtain ⟨hle, hdb⟩ := hstored.nodes q j node ref hp href
      rw [changes_cons_self]
      exact .inr ⟨rfl, hle.trans_lt hversion, by rw [hdb, hchild, hstored.clone _ _ hchild]⟩
    · rw [changes_cons_of_ne hne]
      exact hwork.tracked q j inner ref' child' hq href' hchild'

theorem Working.loadNode (hwork : Working h db patch (fun _ => False) t) {i : Nibble}
    {ref : ChildRef} (hp : t p = some (.internal node)) (href : node.children i = some ref)
    (hpatch : patch.changes p ≠ none) (hstored : StoredAt h db version m t)
    (hversion : version < patch.rootVersion) :
    ∃ patch', WorkingPatchSet.loadNode db patch (p ++ [i], ref) = some patch' ∧
      Working h db patch' (fun _ => False) t ∧ patch'.rootVersion = patch.rootVersion ∧
      patch'.changes (p ++ [i]) ≠ none ∧
      ∀ q, patch.changes q ≠ none → patch'.changes q ≠ none := by
  obtain ⟨child, hchild, -⟩ := hwork.wf.child hp href
  have hdb := (hstored.nodes p i node ref hp href).2.trans hchild
  refine ⟨_, ?_, hwork.cons hp href hchild hpatch hstored hversion, rfl, ?_,
    fun q hq => changes_cons_ne_none _ _ hq⟩
  · rw [WorkingPatchSet.loadNode, hdb]
    rfl
  · simp [changes_cons_self]

/-- The path is a prefix of the key inside the tree, and all nodes on the way of the key are in
the patch. -/
structure Resolved (patch : WorkingPatchSet) (t : Layout) (key : Key) (p : Nibbles) : Prop where
  loaded : Loaded patch t key
  onPath : OnPath key p
  internal : ∀ j < p.length, ∃ node, t (new key j) = some (.internal node)

/-- The prefix cannot be made longer. -/
structure Longest (patch : WorkingPatchSet) (t : Layout) (key : Key) (p : Nibbles) : Prop
    extends Resolved patch t key p where
  last : t (new key (p.length + 1)) = none

theorem Longest.mono (hmono : ∀ q, patch.changes q ≠ none → patch'.changes q ≠ none)
    (hresolved : Longest patch t key p) : Longest patch' t key p :=
  { hresolved with loaded := fun n hn => hmono _ (hresolved.loaded n hn) }

/-- What is loaded for a key before a round: the path down to this depth, or all of it. -/
def EntryOk (patch : WorkingPatchSet) (t : Layout) (depth : ℕ) (entry : Key × Option Nibbles) :
    Prop :=
  match entry.2 with
  | none => ∀ n ≤ depth, patch.changes (new entry.1 n) ≠ none
  | some p => Longest patch t entry.1 p

theorem Working.resolved (hwork : Working h db patch stale t)
    (hpending : ∀ n ≤ depth, patch.changes (new key n) ≠ none)
    (hnone : t (new key (depth + 1)) = none) : Longest patch t key (new key depth) where
  loaded n hn := by
    rcases Nat.lt_or_ge depth n with hlt | hge
    · exfalso
      obtain ⟨x, hx⟩ := Option.ne_none_iff_exists'.mp hn
      rcases eq_or_ne n (depth + 1) with rfl | hne
      · exact hn hnone
      · obtain ⟨node, hnode⟩ := hwork.wf.internal_of_lt hx (show depth + 1 < n by omega)
        rw [hnone] at hnode
        cases hnode
    · exact hpending n hge
  onPath := onPath_new _ _
  internal j hj := by
    rw [length_new] at hj
    obtain ⟨w, hw⟩ := Option.ne_none_iff_exists'.mp (hpending depth le_rfl)
    exact hwork.wf.internal_of_lt (hwork.agree _ w hw) hj
  last := by rw [length_new, hnone]

theorem Working.ancestorRequest_cases (hwork : Working h db patch stale t)
    (hpending : ∀ n ≤ depth, patch.changes (new key n) ≠ none) :
    (∃ p, patch.ancestorRequest (depth + 1) key = .inl p ∧ Longest patch t key p) ∨
      ∃ node ref, patch.ancestorRequest (depth + 1) key = .inr (new key (depth + 1), ref) ∧
        t (new key depth) = some (.internal node) ∧
        node.children (nibble key depth) = some ref := by
  obtain ⟨w, hw⟩ := Option.ne_none_iff_exists'.mp (hpending depth le_rfl)
  have hnode := hwork.agree _ w hw
  rw [ancestorRequest, Nat.add_sub_cancel, childRef, get_of_changes hw]
  cases hinner : w.inner with
  | leaf leaf =>
    rw [hinner] at hnode
    have hnone : t (new key (depth + 1)) = none := by
      rw [new_succ]
      exact (hwork.wf.leaf hnode).2 _
    left
    split_ifs with hlt
    · have hle := hwork.wf.length_le hnode
      rw [length_new] at hle
      obtain rfl : depth = keyNibbles := by omega
      exact ⟨_, rfl, hwork.resolved hpending hnone⟩
    · exact ⟨_, rfl, hwork.resolved hpending hnone⟩
  | internal node =>
    rw [hinner] at hnode
    have hlt := (hwork.wf.internal hnode).1
    rw [length_new] at hlt
    rw [if_neg (by omega)]
    dsimp only
    cases href : node.children (nibble key depth) with
    | none =>
      left
      refine ⟨_, rfl, hwork.resolved hpending ?_⟩
      rw [new_succ]
      exact (hwork.wf.child_none hnode).mp href
    | some ref => exact .inr ⟨node, ref, rfl, hnode, href⟩

theorem Working.foldlM_loadNode (hstored : StoredAt h db version m t)
    {requested : List (Nibbles × ChildRef)} (hwork : Working h db patch (fun _ => False) t)
    (hversion : version < patch.rootVersion)
    (hrequested : ∀ r ∈ requested, ∃ p i node, r.1 = p ++ [i] ∧ patch.changes p ≠ none ∧
      t p = some (.internal node) ∧ node.children i = some r.2) :
    ∃ patch', requested.foldlM (WorkingPatchSet.loadNode db) patch = some patch' ∧
      Working h db patch' (fun _ => False) t ∧ patch'.rootVersion = patch.rootVersion ∧
      (∀ r ∈ requested, patch'.changes r.1 ≠ none) ∧
      ∀ q, patch.changes q ≠ none → patch'.changes q ≠ none := by
  induction requested generalizing patch with
  | nil => exact ⟨patch, rfl, hwork, rfl, by simp, fun _ hq => hq⟩
  | cons r requested ih =>
    obtain ⟨p, i, node, hr, hp, hnode, href⟩ := hrequested r List.mem_cons_self
    obtain ⟨patch₁, hload, hwork₁, hversion₁, hnew, hmono₁⟩ :=
      hwork.loadNode hnode href hp hstored hversion
    obtain ⟨patch', hrun, hwork', hversion', hloaded, hmono⟩ := ih hwork₁
      (by rw [hversion₁]; exact hversion) fun r' hr' => by
        obtain ⟨p', i', node', heq, hp', hrest⟩ := hrequested r' (List.mem_cons_of_mem _ hr')
        exact ⟨p', i', node', heq, hmono₁ p' hp', hrest⟩
    refine ⟨patch', ?_, hwork', hversion'.trans hversion₁, fun r' hr' => ?_,
      fun q hq => hmono q (hmono₁ q hq)⟩
    · rw [List.foldlM_cons, show r = (p ++ [i], r.2) by rw [← hr], hload, Option.bind_eq_bind,
        Option.bind_some, hrun]
    · rcases List.mem_cons.mp hr' with rfl | hmem
      · rw [hr]
        exact hmono _ hnew
      · exact hloaded r' hmem

theorem Working.requested {keys : List (Key × Option Nibbles)} (hwork : Working h db patch stale t)
    (hkeys : ∀ entry ∈ keys, EntryOk patch t depth entry) {r : Nibbles × ChildRef}
    (hr : r ∈ keys.filterMap fun entry =>
      if entry.2.isSome then none else (patch.ancestorRequest (depth + 1) entry.1).getRight?) :
    ∃ p i node, r.1 = p ++ [i] ∧ patch.changes p ≠ none ∧ t p = some (.internal node) ∧
      node.children i = some r.2 ∧ p.length = depth := by
  obtain ⟨entry, hentry, hsome⟩ := List.mem_filterMap.mp hr
  have hok := hkeys entry hentry
  split_ifs at hsome with hresult
  rw [EntryOk, show entry.2 = none by simpa using hresult] at hok
  rcases hwork.ancestorRequest_cases hok with ⟨p, hp, -⟩ | ⟨node, ref, hreq, hnode, href⟩
  · simp [hp] at hsome
  · rw [hreq, Sum.getRight?_inr, Option.some.injEq] at hsome
    subst hsome
    exact ⟨_, _, node, new_succ .., hok depth le_rfl, hnode, href, length_new ..⟩

theorem Working.entryOk_next {entry : Key × Option Nibbles} (hwork : Working h db patch stale t)
    (hok : EntryOk patch t depth entry)
    (hmono : ∀ q, patch.changes q ≠ none → patch'.changes q ≠ none)
    (hloaded : ∀ r, entry.2 = none → patch.ancestorRequest (depth + 1) entry.1 = .inr r →
      patch'.changes r.1 ≠ none) :
    EntryOk patch' t (depth + 1)
      (entry.1, entry.2.or (patch.ancestorRequest (depth + 1) entry.1).getLeft?) := by
  rw [EntryOk] at hok
  cases hresult : entry.2 with
  | some p =>
    rw [hresult] at hok
    exact hok.mono hmono
  | none =>
    rw [hresult] at hok
    rcases hwork.ancestorRequest_cases hok with ⟨p, hp, hresolved⟩ | ⟨node, ref, hr, -⟩
    · simp only [EntryOk, hp, Option.none_or, Sum.getLeft?_inl]
      exact hresolved.mono hmono
    · simp only [EntryOk, hr, Option.none_or, Sum.getLeft?_inr]
      intro n hn
      rcases Nat.le_succ_iff.mp hn with hle | rfl
      · exact hmono _ (hok n hle)
      · exact hloaded _ hresult hr

theorem Working.loadLevels_eq (hstored : StoredAt h db version m t) (fuel depth : ℕ)
    (hfuel : depth + fuel = keyNibbles + 1) (hdepth : depth ≤ keyNibbles)
    (keys : List (Key × Option Nibbles)) (hwork : Working h db patch (fun _ => False) t)
    (hversion : version < patch.rootVersion) (hkeys : ∀ entry ∈ keys, EntryOk patch t depth entry) :
    ∃ keys' patch', loadLevels db fuel (depth + 1) patch keys = some (keys', patch') ∧
      keys'.map Prod.fst = keys.map Prod.fst ∧
      (∀ entry ∈ keys', ∃ p, entry.2 = some p ∧ Longest patch' t entry.1 p) ∧
      Working h db patch' (fun _ => False) t ∧ patch'.rootVersion = patch.rootVersion := by
  induction fuel generalizing depth patch keys with
  | zero => omega
  | succ fuel ih =>
    rw [loadLevels]
    split_ifs with hrequested
    · refine ⟨_, patch, rfl, by simp, fun entry hentry => ?_, hwork, rfl⟩
      obtain ⟨old, hold, rfl⟩ := List.mem_map.mp hentry
      have hok := hkeys old hold
      rw [EntryOk] at hok
      cases hresult : old.2 with
      | some p =>
        rw [hresult] at hok
        exact ⟨p, rfl, hok⟩
      | none =>
        rw [hresult] at hok
        rcases hwork.ancestorRequest_cases hok with ⟨p, hp, hresolved⟩ | ⟨node, ref, hr, -⟩
        · exact ⟨p, by simp [hp], hresolved⟩
        · have hnone := List.filterMap_eq_nil_iff.mp hrequested old hold
          simp [hresult, hr] at hnone
    · obtain ⟨patch₁, hload, hwork₁, hversion₁, hloaded, hmono⟩ :=
        hwork.foldlM_loadNode hstored hversion fun r hr => by
          obtain ⟨p, i, node, heq, hp, hnode, href, -⟩ := hwork.requested hkeys hr
          exact ⟨p, i, node, heq, hp, hnode, href⟩
      have hlt : depth < keyNibbles := by
        obtain ⟨r, hr⟩ := List.exists_mem_of_ne_nil _ hrequested
        obtain ⟨p, i, node, -, -, hnode, -, hlen⟩ := hwork.requested hkeys hr
        rw [← hlen]
        exact (hwork.wf.internal hnode).1
      obtain ⟨keys', patch', hrun, hfst, hresolved, hwork', hversion'⟩ := ih (depth + 1)
        (by omega) (by omega)
        (keys.map fun entry =>
          (entry.1, entry.2.or (patch.ancestorRequest (depth + 1) entry.1).getLeft?))
        hwork₁ (by rw [hversion₁]; exact hversion) fun entry hentry => by
          obtain ⟨old, hold, rfl⟩ := List.mem_map.mp hentry
          exact hwork.entryOk_next (hkeys old hold) hmono fun r hnone hr =>
            hloaded r (List.mem_filterMap.mpr ⟨old, hold, by simp [hnone, hr]⟩)
      refine ⟨keys', patch', ?_, hfst.trans (by simp), hresolved, hwork',
        hversion'.trans hversion₁⟩
      rw [hload, Option.bind_eq_bind, Option.bind_some, hrun]

/-- `load_ancestors` brings in the paths of all keys and returns their longest prefixes. -/
theorem Working.loadAncestors_eq (hstored : StoredAt h db version m t)
    (hwork : Working h db patch (fun _ => False) t) (hversion : version < patch.rootVersion)
    (keys : List Key) :
    ∃ prefixes patch', patch.loadAncestors keys db = some (prefixes, patch') ∧
      List.Forall₂ (Longest patch' t) keys prefixes ∧
      Working h db patch' (fun _ => False) t ∧ patch'.rootVersion = patch.rootVersion := by
  obtain ⟨node, prev, hroot⟩ := hwork.root
  obtain ⟨keys', patch', hrun, hfst, hresolved, hwork', hversion'⟩ := hwork.loadLevels_eq hstored
    (keyNibbles + 1) 0 (by omega) (by omega) (keys.map fun key => (key, none)) hversion
    fun entry hentry => by
      obtain ⟨key, -, rfl⟩ := List.mem_map.mp hentry
      intro n hn
      obtain rfl : n = 0 := by omega
      simp [hroot]
  have hsome : (keys'.mapM fun e : Key × Option Nibbles => e.2).isSome = true :=
    (Fallible.isSome_mapM_iff _ _).mpr fun e he => by
      obtain ⟨p, hp, -⟩ := hresolved e he
      simp [hp]
  obtain ⟨prefixes, hprefixes⟩ := Option.isSome_iff_exists.mp hsome
  refine ⟨prefixes, patch', ?_, ?_, hwork', hversion'⟩
  · rw [loadAncestors, get_of_changes hroot]
    simp only [hrun, Option.bind_eq_bind, Option.bind_some, hprefixes]
    rfl
  · rw [List.map_map, show Prod.fst ∘ (fun key : Key => (key, (none : Option Nibbles))) = id from
      rfl, List.map_id] at hfst
    rw [← hfst, List.forall₂_map_left_iff]
    have hpairs := (Fallible.mapM_some_iff _ _ _).mp hprefixes
    refine (List.forall₂_iff_zip.mpr ⟨hpairs.length_eq, fun {e p} hmem => ?_⟩)
    obtain ⟨p', hp', hres⟩ := hresolved e (List.of_mem_zip hmem).1
    have hp := (List.forall₂_iff_zip.mp hpairs).2 hmem
    rw [hp', Option.some.injEq] at hp
    exact hp ▸ hres

end Load

end RollupX.MerkleTree
