import Mathlib.Data.List.Induction
import Mathlib.Data.List.Nodup

/-! Hash values that commit to a sequence: chains, in which every value is hashed with the next
entry, and trees, in which every level is hashed in pairs. -/

namespace Commitment

variable {M H E κ : Type*}

/-- Two of the messages are different and have one hash. -/
def Collision (hash : M → H) (messages : List M) : Prop :=
  ∃ m ∈ messages, ∃ m' ∈ messages, m ≠ m' ∧ hash m = hash m'

instance [DecidableEq M] [DecidableEq H] (hash : M → H) (messages : List M) :
    Decidable (Collision hash messages) :=
  inferInstanceAs (Decidable (∃ m ∈ messages, ∃ m' ∈ messages, m ≠ m' ∧ hash m = hash m'))

theorem Collision.mono {hash : M → H} {ms ms' : List M} (h : Collision hash ms)
    (hsub : ms ⊆ ms') : Collision hash ms' := by
  obtain ⟨m, hm, m', hm', hne, heq⟩ := h
  exact ⟨m, hsub hm, m', hsub hm', hne, heq⟩

theorem eq_of_not_collision {hash : M → H} {ms : List M} (h : ¬Collision hash ms) {m m' : M}
    (hm : m ∈ ms) (hm' : m' ∈ ms) (heq : hash m = hash m') : m = m' := by
  by_contra hne
  exact h ⟨m, hm, m', hm', hne, heq⟩

theorem eq_or_collision_iff {hash : M → H} {m m' : M} :
    m = m' ∨ Collision hash [m, m'] ↔ hash m = hash m' := by
  constructor
  · rintro (rfl | ⟨a, ha, b, hb, hne, heq⟩)
    · rfl
    · simp only [List.mem_cons, List.not_mem_nil, or_false] at ha hb
      rcases ha with rfl | rfl <;> rcases hb with rfl | rfl
      · exact absurd rfl hne
      · exact heq
      · exact heq.symm
      · exact absurd rfl hne
  · intro heq
    by_cases hne : m = m'
    · exact .inl hne
    · exact .inr ⟨m, by simp, m', by simp, hne, heq⟩

theorem map_inj_of_not_collision {hash : M → H} {ms ms₁ ms₂ : List M}
    (h : ¬Collision hash ms) (h₁ : ms₁ ⊆ ms) (h₂ : ms₂ ⊆ ms)
    (heq : ms₁.map hash = ms₂.map hash) : ms₁ = ms₂ := by
  induction ms₁ generalizing ms₂ with
  | nil => rw [List.map_eq_nil_iff.mp heq.symm]
  | cons m ms₁ ih =>
    cases ms₂ with
    | nil => cases heq
    | cons m' ms₂ =>
      rw [List.map_cons, List.map_cons, List.cons.injEq] at heq
      rw [eq_of_not_collision h (h₁ List.mem_cons_self) (h₂ List.mem_cons_self) heq.1,
        ih (List.subset_of_cons_subset h₁) (List.subset_of_cons_subset h₂) heq.2]

section Chain

variable (hash : M → H) (message : H → E → M)

/-- The value after hashing in the entries. -/
def chain (value : H) (entries : List E) : H :=
  entries.foldl (fun value entry => hash (message value entry)) value

def chainMessages : H → List E → List M
  | _, [] => []
  | value, entry :: entries =>
    message value entry :: chainMessages (hash (message value entry)) entries

/-- The chain comes back to the value it started from. -/
def Recurs (value : H) (entries : List E) : Prop :=
  ∃ n, 0 < n ∧ n ≤ entries.length ∧ chain hash message value (entries.take n) = value

@[simp] theorem chain_concat (value : H) (entries : List E) (entry : E) :
    chain hash message value (entries ++ [entry]) =
      hash (message (chain hash message value entries) entry) := by
  simp [chain]

theorem chainMessages_concat (value : H) (entries : List E) (entry : E) :
    chainMessages hash message value (entries ++ [entry]) =
      chainMessages hash message value entries ++
        [message (chain hash message value entries) entry] := by
  induction entries generalizing value with
  | nil => rfl
  | cons first entries ih => simp [chainMessages, chain, ih]

variable {hash message}

theorem mem_map_chainMessages_iff {value target : H} {entries : List E} :
    target ∈ (chainMessages hash message value entries).map hash ↔
      ∃ n, 0 < n ∧ n ≤ entries.length ∧
        chain hash message value (entries.take n) = target := by
  induction entries generalizing value with
  | nil =>
    constructor
    · intro h
      simp [chainMessages] at h
    · intro h
      obtain ⟨n, hpos, hle, -⟩ := h
      exact absurd hpos (Nat.not_lt.mpr hle)
  | cons entry entries ih =>
    simp only [chainMessages, List.map_cons, List.mem_cons, ih]
    constructor
    · rintro (rfl | ⟨n, -, hle, rfl⟩)
      · exact ⟨1, Nat.one_pos, by simp, rfl⟩
      · exact ⟨n + 1, Nat.succ_pos n, Nat.succ_le_succ hle, rfl⟩
    · rintro ⟨n, hpos, hle, rfl⟩
      obtain ⟨k, rfl⟩ := Nat.exists_eq_add_of_lt hpos
      cases k with
      | zero => exact .inl rfl
      | succ k => exact .inr ⟨k + 1, by omega, by simp at hle; omega, by simp [chain]⟩

theorem recurs_of_concat {value : H} {entries : List E} {entry : E}
    (h : value = chain hash message value (entries ++ [entry])) :
    Recurs hash message value (entries ++ [entry]) :=
  ⟨(entries ++ [entry]).length, by simp, Nat.le_refl _, by rw [List.take_length]; exact h.symm⟩

theorem Recurs.concat {value : H} {entries : List E} (h : Recurs hash message value entries)
    (entry : E) : Recurs hash message value (entries ++ [entry]) := by
  obtain ⟨n, hpos, hle, hvalue⟩ := h
  refine ⟨n, hpos, by simp only [List.length_append]; omega, ?_⟩
  rw [List.take_append_of_le_length hle]
  exact hvalue

/-- Two chains from one value to one value have the same entries, as far as a message tells its
entry, unless there is a collision or one of them comes back to where it started. -/
theorem chain_binding {key : E → κ}
    (hmessage : ∀ v e v' e', message v e = message v' e' → v = v' ∧ key e = key e') {value : H}
    {es es' : List E} (h : chain hash message value es = chain hash message value es') :
    es.map key = es'.map key ∨
      Collision hash (chainMessages hash message value es ++
        chainMessages hash message value es') ∨
      Recurs hash message value es ∨ Recurs hash message value es' := by
  induction es using List.reverseRecOn generalizing es' with
  | nil =>
    cases es' using List.reverseRecOn with
    | nil => exact .inl rfl
    | append_singleton es' e' => exact .inr (.inr (.inr (recurs_of_concat h)))
  | append_singleton es e ih =>
    cases es' using List.reverseRecOn with
    | nil => exact .inr (.inr (.inl (recurs_of_concat h.symm)))
    | append_singleton es' e' =>
      rw [chainMessages_concat, chainMessages_concat]
      rw [chain_concat, chain_concat] at h
      by_cases hlast : message (chain hash message value es) e =
          message (chain hash message value es') e'
      · obtain ⟨hvalue, hkey⟩ := hmessage _ _ _ _ hlast
        rcases ih hvalue with hkeys | hcollision | hrecurs | hrecurs
        · left
          rw [List.map_append, List.map_append, hkeys]
          simp [hkey]
        · refine .inr (.inl (hcollision.mono ?_))
          exact List.append_subset.mpr ⟨fun m hm => by simp [hm], fun m hm => by simp [hm]⟩
        · exact .inr (.inr (.inl (hrecurs.concat e)))
        · exact .inr (.inr (.inr (hrecurs.concat e')))
      · exact .inr (.inl ⟨_, by simp, _, by simp, hlast, h⟩)

end Chain

section Tree

variable (hash : M → H) (pair : H → H → M)

/-- The messages of one level: neighbours in pairs, a last odd node with itself. -/
def levelMessages : List H → List M
  | [] => []
  | [x] => [pair x x]
  | x :: y :: rest => pair x y :: levelMessages rest

theorem length_levelMessages (level : List H) :
    (levelMessages pair level).length = (level.length + 1) / 2 := by
  induction level using levelMessages.induct with
  | case1 | case2 x => simp [levelMessages]
  | case3 x y rest ih =>
    simp only [levelMessages, List.length_cons, ih]
    omega

def nextLevel (level : List H) : List H :=
  (levelMessages pair level).map hash

theorem length_nextLevel (level : List H) :
    (nextLevel hash pair level).length = (level.length + 1) / 2 := by
  rw [nextLevel, List.length_map, length_levelMessages]

/-- The levels are hashed until one node is left. -/
def top (level : List H) : List H :=
  if 1 < level.length then top (nextLevel hash pair level) else level
termination_by level.length
decreasing_by
  rw [length_nextLevel]
  omega

def treeMessages (level : List H) : List M :=
  if 1 < level.length then
    levelMessages pair level ++ treeMessages (nextLevel hash pair level)
  else []
termination_by level.length
decreasing_by
  rw [length_nextLevel]
  omega

def height (level : List H) : ℕ :=
  if 1 < level.length then height (nextLevel hash pair level) + 1 else 0
termination_by level.length
decreasing_by
  rw [length_nextLevel]
  omega

variable {hash pair}

section

variable {level : List H}

theorem top_of_long (h : 1 < level.length) :
    top hash pair level = top hash pair (nextLevel hash pair level) := by
  rw [top, if_pos h]

theorem top_of_short (h : ¬1 < level.length) : top hash pair level = level := by
  rw [top, if_neg h]

theorem treeMessages_of_long (h : 1 < level.length) :
    treeMessages hash pair level =
      levelMessages pair level ++ treeMessages hash pair (nextLevel hash pair level) := by
  rw [treeMessages, if_pos h]

theorem height_of_long (h : 1 < level.length) :
    height hash pair level = height hash pair (nextLevel hash pair level) + 1 := by
  rw [height, if_pos h]

theorem height_of_short (h : ¬1 < level.length) : height hash pair level = 0 := by
  rw [height, if_neg h]

end

theorem length_top_le (level : List H) : (top hash pair level).length ≤ 1 := by
  induction level using top.induct hash pair with
  | case1 level h ih =>
    rw [top_of_long h]
    exact ih
  | case2 level h =>
    rw [top_of_short h]
    omega

theorem head_nextLevel (hash : M → H) (pair : H → H → M) (x : H) (rest : List H) :
    ∃ y, (nextLevel hash pair (x :: rest)).head? = some (hash (pair x y)) ∧
      pair x y ∈ levelMessages pair (x :: rest) := by
  cases rest with
  | nil => exact ⟨x, rfl, List.mem_cons_self⟩
  | cons y rest => exact ⟨y, rfl, List.mem_cons_self⟩

variable (hpair : ∀ x y x' y', pair x y = pair x' y' → x = x' ∧ y = y')

theorem exists_pair_of_mem {level : List H} {m : M} (h : m ∈ levelMessages pair level) :
    ∃ x ∈ level, ∃ y, m = pair x y := by
  induction level using levelMessages.induct with
  | case1 => simp [levelMessages] at h
  | case2 x => exact ⟨x, List.mem_cons_self, x, List.mem_singleton.mp h⟩
  | case3 x y rest ih =>
    rcases List.mem_cons.mp h with rfl | hrest
    · exact ⟨x, List.mem_cons_self, y, rfl⟩
    · obtain ⟨x', hx', hm⟩ := ih hrest
      exact ⟨x', List.mem_cons_of_mem x (List.mem_cons_of_mem y hx'), hm⟩

include hpair

theorem nodup_levelMessages {level : List H} (hnodup : level.Nodup) :
    (levelMessages pair level).Nodup := by
  induction level using levelMessages.induct with
  | case1 => exact List.nodup_nil
  | case2 x => exact List.nodup_singleton _
  | case3 x y rest ih =>
    rw [List.nodup_cons, List.nodup_cons] at hnodup
    refine List.nodup_cons.mpr ⟨fun hmem => ?_, ih hnodup.2.2⟩
    obtain ⟨x', hx', y', heq⟩ := exists_pair_of_mem hmem
    rw [(hpair _ _ _ _ heq).1] at hnodup
    exact hnodup.1 (List.mem_cons_of_mem y hx')

/-- Levels of distinct nodes can be told from their messages. In general they cannot: a last odd
node and a last pair of equal nodes give the same message. -/
theorem levelMessages_inj {level level' : List H} (hnodup : level.Nodup)
    (hnodup' : level'.Nodup) (h : levelMessages pair level = levelMessages pair level') :
    level = level' := by
  induction level using levelMessages.induct generalizing level' with
  | case1 =>
    rcases level' with _ | ⟨x', _ | ⟨y', rest'⟩⟩
    · rfl
    · cases h
    · cases h
  | case2 x =>
    rcases level' with _ | ⟨x', _ | ⟨y', rest'⟩⟩
    · cases h
    · rw [(hpair _ _ _ _ (List.cons.inj h).1).1]
    · obtain ⟨hx, hy⟩ := hpair _ _ _ _ (List.cons.inj h).1
      simp [← hx, ← hy] at hnodup'
  | case3 x y rest ih =>
    rcases level' with _ | ⟨x', _ | ⟨y', rest'⟩⟩
    · cases h
    · obtain ⟨hx, hy⟩ := hpair _ _ _ _ (List.cons.inj h).1
      simp [hx, hy] at hnodup
    · obtain ⟨hx, hy⟩ := hpair _ _ _ _ (List.cons.inj h).1
      rw [hx, hy, ih hnodup.of_cons.of_cons hnodup'.of_cons.of_cons (List.cons.inj h).2]

theorem nodup_nextLevel {ms : List M} (hms : ¬Collision hash ms) {level : List H}
    (hsub : levelMessages pair level ⊆ ms) (hnodup : level.Nodup) :
    (nextLevel hash pair level).Nodup := by
  refine List.Nodup.map_on (fun m hm m' hm' heq => ?_) (nodup_levelMessages hpair hnodup)
  exact eq_of_not_collision hms (hsub hm) (hsub hm') heq

theorem eq_of_top_eq {ms : List M} (hms : ¬Collision hash ms) {level level' : List H}
    (hsub : treeMessages hash pair level ⊆ ms) (hsub' : treeMessages hash pair level' ⊆ ms)
    (hnodup : level.Nodup) (hnodup' : level'.Nodup)
    (hheight : height hash pair level = height hash pair level')
    (h : top hash pair level = top hash pair level') : level = level' := by
  induction level using top.induct hash pair generalizing level' with
  | case1 level hlong ih =>
    have hlong' : 1 < level'.length := by
      by_contra hshort
      rw [height_of_long hlong, height_of_short hshort] at hheight
      cases hheight
    rw [treeMessages_of_long hlong, List.append_subset] at hsub
    rw [treeMessages_of_long hlong', List.append_subset] at hsub'
    rw [height_of_long hlong, height_of_long hlong', Nat.add_right_cancel_iff] at hheight
    rw [top_of_long hlong, top_of_long hlong'] at h
    have hnext := ih hsub.2 hsub'.2 (nodup_nextLevel hpair hms hsub.1 hnodup)
      (nodup_nextLevel hpair hms hsub'.1 hnodup') hheight h
    exact levelMessages_inj hpair hnodup hnodup'
      (map_inj_of_not_collision hms hsub.1 hsub'.1 hnext)
  | case2 level hshort =>
    have hshort' : ¬1 < level'.length := by
      intro hlong'
      rw [height_of_short hshort, height_of_long hlong'] at hheight
      cases hheight
    rwa [top_of_short hshort, top_of_short hshort'] at h

omit hpair

variable (hash pair) in
/-- From the node `x`, hashing `n` times with a node to the right leads to the last node. -/
inductive LeftPath (ms : List M) (x : H) : ℕ → H → Prop where
  | here : LeftPath ms x 0 x
  | up {n : ℕ} {z : H} (y : H) : LeftPath ms x n z → pair z y ∈ ms →
      LeftPath ms x (n + 1) (hash (pair z y))

theorem LeftPath.top {ms : List M} {x : H} {n : ℕ} {level : List H} {z : H}
    (hsub : treeMessages hash pair level ⊆ ms) (hz : level.head? = some z)
    (h : LeftPath hash pair ms x n z) :
    ∃ r, top hash pair level = [r] ∧
      LeftPath hash pair ms x (n + height hash pair level) r := by
  induction level using top.induct hash pair generalizing n z with
  | case1 level hlong ih =>
    rw [treeMessages_of_long hlong, List.append_subset] at hsub
    obtain ⟨rest, rfl⟩ := List.head?_eq_some_iff.mp hz
    obtain ⟨y, hhead, hmem⟩ := head_nextLevel hash pair z rest
    rw [top_of_long hlong, height_of_long hlong, ← Nat.add_assoc, Nat.add_right_comm]
    exact ih hsub.2 hhead (h.up y (hsub.1 hmem))
  | case2 level hshort =>
    obtain ⟨rest, rfl⟩ := List.head?_eq_some_iff.mp hz
    have hrest : rest = [] := List.length_eq_zero_iff.mp (by
      rw [List.length_cons] at hshort
      omega)
    subst hrest
    rw [top_of_short hshort, height_of_short hshort]
    exact ⟨z, rfl, h⟩

include hpair in
theorem LeftPath.split {ms : List M} (hms : ¬Collision hash ms) {x x' : H} {n k : ℕ} {r : H}
    (h : LeftPath hash pair ms x n r) (h' : LeftPath hash pair ms x' (n + k) r) :
    LeftPath hash pair ms x' k x := by
  induction h with
  | here => rwa [Nat.zero_add] at h'
  | @up n z y _ hmem ih =>
    rw [Nat.add_right_comm] at h'
    generalize hr : hash (pair z y) = r at h'
    cases h' with
    | @up _ z' y' hpath hmem' =>
      have heq := eq_of_not_collision hms hmem hmem' hr
      rw [← (hpair _ _ _ _ heq).1] at hpath
      exact ih hpath

section Entries

variable (hash pair) (leaf : E → M)

def leaves (entries : List E) : List H :=
  entries.map fun entry => hash (leaf entry)

/-- All that is hashed for the entries. -/
def entryMessages (entries : List E) : List M :=
  entries.map leaf ++ treeMessages hash pair (leaves hash leaf entries)

variable {hash pair leaf} {es es' : List E}

theorem nodup_leaves {ms : List M} (hms : ¬Collision hash ms)
    (hsub : entryMessages hash pair leaf es ⊆ ms) (hleaf : Function.Injective leaf)
    (hnodup : es.Nodup) : (leaves hash leaf es).Nodup := by
  refine List.Nodup.map_on (fun e he e' he' heq => hleaf ?_) hnodup
  have hmem : ∀ e ∈ es, leaf e ∈ ms := fun e he =>
    hsub (List.mem_append_left _ (List.mem_map_of_mem he))
  exact eq_of_not_collision hms (hmem e he) (hmem e' he') heq

theorem exists_leftPath {ms : List M} (hsub : entryMessages hash pair leaf es ⊆ ms)
    (hne : es ≠ []) :
    ∃ e ∈ es, ∃ r, top hash pair (leaves hash leaf es) = [r] ∧
      LeftPath hash pair ms (hash (leaf e)) (height hash pair (leaves hash leaf es)) r := by
  obtain ⟨e, rest, rfl⟩ := List.exists_cons_of_ne_nil hne
  obtain ⟨r, htop, hpath⟩ := LeftPath.top (List.append_subset.mp hsub).2
    (rfl : (leaves hash leaf (e :: rest)).head? = some (hash (leaf e))) LeftPath.here
  rw [Nat.zero_add] at hpath
  exact ⟨e, List.mem_cons_self, r, htop, hpath⟩

theorem exists_message_of_top (hne : es ≠ []) :
    ∃ m ∈ entryMessages hash pair leaf es, top hash pair (leaves hash leaf es) = [hash m] := by
  obtain ⟨e, he, r, htop, hpath⟩ := exists_leftPath (List.Subset.refl _) hne
  rw [htop]
  generalize height hash pair (leaves hash leaf es) = n at hpath
  cases hpath with
  | here => exact ⟨leaf e, List.mem_append_left _ (List.mem_map_of_mem he), rfl⟩
  | up y _ hmem => exact ⟨_, hmem, rfl⟩

theorem eq_nil_of_top_eq
    (h : top hash pair (leaves hash leaf []) = top hash pair (leaves hash leaf es)) : es = [] := by
  by_contra hne
  obtain ⟨m, -, htop⟩ : ∃ m ∈ entryMessages hash pair leaf es,
      top hash pair (leaves hash leaf es) = [hash m] := exists_message_of_top hne
  rw [htop, leaves, List.map_nil, top_of_short (by simp)] at h
  cases h

/-- A leaf is no inner node, so a tree is not higher than another with its root. -/
theorem height_le_of_top_eq (hpair : ∀ x y x' y', pair x y = pair x' y' → x = x' ∧ y = y')
    (hsep : ∀ e x y, leaf e ≠ pair x y) {ms : List M} (hms : ¬Collision hash ms)
    (hsub : entryMessages hash pair leaf es ⊆ ms) (hsub' : entryMessages hash pair leaf es' ⊆ ms)
    (hne : es ≠ []) (hne' : es' ≠ [])
    (h : top hash pair (leaves hash leaf es) = top hash pair (leaves hash leaf es')) :
    height hash pair (leaves hash leaf es') ≤ height hash pair (leaves hash leaf es) := by
  obtain ⟨e, he, r, htop, hpath⟩ := exists_leftPath hsub hne
  obtain ⟨e', -, r', htop', hpath'⟩ := exists_leftPath hsub' hne'
  have hr : r' = r := by
    rw [htop, htop'] at h
    exact (List.cons.inj h).1.symm
  subst hr
  by_contra hlt
  obtain ⟨k, hk⟩ := Nat.exists_eq_add_of_lt (Nat.lt_of_not_le hlt)
  rw [hk, Nat.add_assoc] at hpath'
  have hsplit := hpath.split hpair hms hpath'
  generalize hx : hash (leaf e) = x at hsplit
  cases hsplit with
  | up y _ hmem =>
    have hmem' : leaf e ∈ ms := hsub (List.mem_append_left _ (List.mem_map_of_mem he))
    exact hsep _ _ _ (eq_of_not_collision hms hmem' hmem hx)

/-- The tops of two trees over distinct entries differ, or the entries are the same, or there
is a collision. The trees may differ in size and height. -/
theorem tree_binding (hpair : ∀ x y x' y', pair x y = pair x' y' → x = x' ∧ y = y')
    (hsep : ∀ e x y, leaf e ≠ pair x y) (hleaf : Function.Injective leaf) (hnodup : es.Nodup)
    (hnodup' : es'.Nodup)
    (h : top hash pair (leaves hash leaf es) = top hash pair (leaves hash leaf es')) :
    es = es' ∨
      Collision hash (entryMessages hash pair leaf es ++ entryMessages hash pair leaf es') := by
  by_cases hms : Collision hash
      (entryMessages hash pair leaf es ++ entryMessages hash pair leaf es')
  · exact .inr hms
  left
  by_cases hne : es = []
  · subst hne
    exact (eq_nil_of_top_eq h).symm
  by_cases hne' : es' = []
  · subst hne'
    exact eq_nil_of_top_eq h.symm
  have hsub := List.subset_append_left (entryMessages hash pair leaf es)
    (entryMessages hash pair leaf es')
  have hsub' := List.subset_append_right (entryMessages hash pair leaf es)
    (entryMessages hash pair leaf es')
  have hheight : height hash pair (leaves hash leaf es) =
      height hash pair (leaves hash leaf es') :=
    Nat.le_antisymm (height_le_of_top_eq hpair hsep hms hsub' hsub hne' hne h.symm)
      (height_le_of_top_eq hpair hsep hms hsub hsub' hne hne' h)
  have hleaves : leaves hash leaf es = leaves hash leaf es' :=
    eq_of_top_eq hpair hms (List.append_subset.mp hsub).2 (List.append_subset.mp hsub').2
      (nodup_leaves hms hsub hleaf hnodup) (nodup_leaves hms hsub' hleaf hnodup') hheight h
  refine List.map_injective_iff.mpr hleaf
    (map_inj_of_not_collision hms (List.append_subset.mp hsub).1
      (List.append_subset.mp hsub').1 ?_)
  rw [List.map_map, List.map_map]
  exact hleaves

end Entries

end Tree

end Commitment
