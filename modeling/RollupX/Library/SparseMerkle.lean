import Mathlib.Data.List.Induction
import Mathlib.Data.List.TakeDrop
import Mathlib.Logic.Function.Basic
import RollupX.Library.Commitment

/-! Binary Merkle trees of a fixed depth over a partial map from paths to values. A path is a list
of bits, the one at the root first. -/

/-- What a tree is hashed with. -/
structure SparseMerkle (H V : Type*) where
  leaf : V → H
  branch : H → H → H
  /-- The hash of a tree of this depth without values. -/
  empty : ℕ → H
  empty_succ : ∀ d, empty (d + 1) = branch (empty d) (empty d)

namespace SparseMerkle

variable {H V : Type*} (h : SparseMerkle H V) {d : ℕ} {m m' : List Bool → Option V}
  {p : List Bool}

def leafHash (v : Option V) : H :=
  v.elim (h.empty 0) h.leaf

/-- What the map holds below a path. -/
def below (m : List Bool → Option V) (p : List Bool) : List Bool → Option V :=
  fun q => m (p ++ q)

@[simp] theorem below_nil (m : List Bool → Option V) : below m [] = m := rfl

@[simp] theorem below_apply (m : List Bool → Option V) (p q : List Bool) :
    below m p q = m (p ++ q) := rfl

@[simp] theorem below_below (m : List Bool → Option V) (p q : List Bool) :
    below (below m p) q = below m (p ++ q) := by
  funext r
  simp only [below_apply, List.append_assoc]

/-- The hash of the tree of depth `d`. -/
def root : ℕ → (List Bool → Option V) → H
  | 0, m => h.leafHash (m [])
  | d + 1, m => h.branch (root d (below m [false])) (root d (below m [true]))

@[simp] theorem root_zero (m : List Bool → Option V) : h.root 0 m = h.leafHash (m []) := rfl

theorem root_succ (d : ℕ) (m : List Bool → Option V) :
    h.root (d + 1) m = h.branch (h.root d (below m [false])) (h.root d (below m [true])) := rfl

variable {h}

theorem root_congr (hm : ∀ p, p.length = d → m p = m' p) : h.root d m = h.root d m' := by
  induction d generalizing m m' with
  | zero => rw [root_zero, root_zero, hm [] rfl]
  | succ d ih =>
    have hchild : ∀ b, h.root d (below m [b]) = h.root d (below m' [b]) := fun b =>
      ih fun p hp => hm (b :: p) (by rw [List.length_cons, hp])
    rw [root_succ, root_succ, hchild, hchild]

theorem root_of_none (hm : ∀ p, p.length = d → m p = none) : h.root d m = h.empty d := by
  induction d generalizing m with
  | zero => rw [root_zero, hm [] rfl, leafHash, Option.elim_none]
  | succ d ih =>
    have hchild : ∀ b, h.root d (below m [b]) = h.empty d := fun b =>
      ih fun p hp => hm (b :: p) (by rw [List.length_cons, hp])
    rw [root_succ, hchild, hchild, h.empty_succ]

/-- The hashes beside a path, the lowest first. The subtree at its end has depth `d`. -/
def siblings (h : SparseMerkle H V) (d : ℕ) (m : List Bool → Option V) : List Bool → List H
  | [] => []
  | b :: p => siblings h d (below m [b]) p ++ [h.root (p.length + d) (below m [!b])]

/-- Hashing upwards from `x`. The bits and the siblings are those of the lowest level first. -/
def climb (h : SparseMerkle H V) : List Bool → List H → H → H
  | b :: bits, s :: sibs, x => climb h bits sibs (if b then h.branch s x else h.branch x s)
  | _, _, x => x

@[simp] theorem climb_nil (bits : List Bool) (x : H) : h.climb bits [] x = x := by
  cases bits <;> rfl

@[simp] theorem climb_cons (b : Bool) (bits : List Bool) (s : H) (sibs : List H) (x : H) :
    h.climb (b :: bits) (s :: sibs) x =
      h.climb bits sibs (if b then h.branch s x else h.branch x s) := rfl

theorem climb_append {bits : List Bool} {sibs : List H} (hlen : bits.length = sibs.length)
    (bits' : List Bool) (sibs' : List H) (x : H) :
    h.climb (bits ++ bits') (sibs ++ sibs') x = h.climb bits' sibs' (h.climb bits sibs x) := by
  induction bits generalizing sibs x with
  | nil =>
    rw [List.length_eq_zero_iff.mp hlen.symm]
    rfl
  | cons b bits ih =>
    cases sibs with
    | nil => cases hlen
    | cons s sibs =>
      simp only [List.cons_append, climb_cons]
      exact ih (by simpa using hlen) _

@[simp] theorem length_siblings (d : ℕ) (m : List Bool → Option V) (p : List Bool) :
    (h.siblings d m p).length = p.length := by
  induction p generalizing m with
  | nil => rfl
  | cons b p ih => rw [siblings, List.length_append, ih, List.length_singleton, List.length_cons]

theorem siblings_append (d : ℕ) (m : List Bool → Option V) (p q : List Bool) :
    h.siblings d m (p ++ q) =
      h.siblings d (below m p) q ++ h.siblings (q.length + d) m p := by
  induction p generalizing m with
  | nil => simp [siblings]
  | cons b p ih =>
    rw [List.cons_append, siblings, siblings, ih, below_below, List.length_append, Nat.add_assoc,
      List.append_assoc, List.singleton_append]

theorem branch_siblings (b : Bool) (d : ℕ) (m : List Bool → Option V) :
    (if b then h.branch (h.root d (below m [!b])) (h.root d (below m [b]))
      else h.branch (h.root d (below m [b])) (h.root d (below m [!b]))) = h.root (d + 1) m := by
  cases b <;> rfl

/-- Hashing a subtree up along its siblings gives the root. -/
theorem climb_siblings (d : ℕ) (m : List Bool → Option V) (p : List Bool) :
    h.climb p.reverse (h.siblings d m p) (h.root d (below m p)) = h.root (p.length + d) m := by
  induction p generalizing m with
  | nil => simp [siblings]
  | cons b p ih =>
    have hbelow : below m (b :: p) = below (below m [b]) p := by rw [below_below]; rfl
    rw [List.reverse_cons, siblings, hbelow, climb_append (by simp), ih, climb_cons, climb_nil,
      branch_siblings, List.length_cons, Nat.add_right_comm]

theorem siblings_congr (hm : ∀ q, q.length = p.length + d → ¬p <+: q → m q = m' q) :
    h.siblings d m p = h.siblings d m' p := by
  induction p generalizing m m' with
  | nil => rfl
  | cons b p ih =>
    have hlower : h.siblings d (below m [b]) p = h.siblings d (below m' [b]) p := by
      refine ih fun q hq hp => hm (b :: q) (by simp only [List.length_cons]; omega) ?_
      rwa [List.cons_prefix_cons, and_iff_right rfl]
    have hupper : h.root (p.length + d) (below m [!b]) =
        h.root (p.length + d) (below m' [!b]) := by
      refine root_congr fun q hq => hm ((!b) :: q) (by simp only [List.length_cons]; omega) ?_
      rw [List.cons_prefix_cons]
      exact fun hb => (Bool.eq_not_self b).mp hb.1
    rw [siblings, siblings, hlower, hupper]

/-- The siblings of a path beside which there is nothing. -/
def emptySiblings (h : SparseMerkle H V) (d n : ℕ) : List H :=
  (List.range n).map fun i => h.empty (d + i)

@[simp] theorem length_emptySiblings (d n : ℕ) : (h.emptySiblings d n).length = n := by
  simp [emptySiblings]

theorem emptySiblings_succ (d n : ℕ) :
    h.emptySiblings d (n + 1) = h.emptySiblings d n ++ [h.empty (d + n)] := by
  simp [emptySiblings, List.range_succ]

theorem siblings_of_none (hm : ∀ q, q.length = p.length + d → ¬p <+: q → m q = none) :
    h.siblings d m p = h.emptySiblings d p.length := by
  have hnone : h.siblings d m p = h.siblings d (fun _ => none) p := siblings_congr hm
  rw [hnone]
  clear hm hnone
  induction p with
  | nil => rfl
  | cons b p ih =>
    have hupper : h.root (p.length + d) (below (fun _ => none) [!b]) = h.empty (p.length + d) :=
      root_of_none fun _ _ => rfl
    rw [siblings, hupper, List.length_cons, emptySiblings_succ, Nat.add_comm d, ← ih]
    rfl

theorem root_of_lone (hm : ∀ q, q.length = p.length → q ≠ p → m q = none) :
    h.root p.length m =
      h.climb p.reverse (h.emptySiblings 0 p.length) (h.leafHash (m p)) := by
  have hsiblings : h.siblings 0 m p = h.emptySiblings 0 p.length :=
    siblings_of_none fun q hq hp => hm q hq (by rintro rfl; exact hp List.prefix_rfl)
  have hroot := climb_siblings (h := h) 0 m p
  rwa [root_zero, below_apply, List.append_nil, hsiblings, Nat.add_zero, eq_comm] at hroot

theorem siblings_of_lone_other {c s u : List Bool} {b : Bool}
    (hm : ∀ q, q.length = c.length + (s.length + 1) → q ≠ c ++ (!b) :: u → m q = none) :
    h.siblings 0 m (c ++ b :: s) =
      h.emptySiblings 0 s.length ++ [h.root s.length (below m (c ++ [!b]))] ++
        h.emptySiblings (s.length + 1) c.length := by
  have hlower : h.siblings 0 (below (below m c) [b]) s = h.emptySiblings 0 s.length := by
    refine siblings_of_none fun q hq _ => hm _ ?_ fun heq => ?_
    · simp only [List.length_append, List.length_singleton]
      omega
    · have hhead := (List.append_inj heq rfl).2
      rw [List.singleton_append] at hhead
      exact (Bool.eq_not_self b).mp (List.cons.inj hhead).1
  have hupper : h.siblings (s.length + 1) m c = h.emptySiblings (s.length + 1) c.length := by
    refine siblings_of_none fun q hq hpre => hm q hq ?_
    rintro rfl
    exact hpre (List.prefix_append ..)
  rw [siblings_append, siblings, hlower, List.length_cons, Nat.add_zero, Nat.add_zero, hupper,
    below_below]

def climbPairs (h : SparseMerkle H V) : List Bool → List H → H → List (H × H)
  | b :: bits, s :: sibs, x =>
    (if b then (s, x) else (x, s)) ::
      climbPairs h bits sibs (if b then h.branch s x else h.branch x s)
  | _, _, _ => []

/-- The pairs that the tree hashes along a path. -/
def pathPairs (h : SparseMerkle H V) (d : ℕ) (m : List Bool → Option V) : List Bool → List (H × H)
  | [] => []
  | b :: p => pathPairs h d (below m [b]) p ++
      [(h.root (p.length + d) (below m [false]), h.root (p.length + d) (below m [true]))]

theorem climbPairs_append {bits : List Bool} {sibs : List H} (hlen : bits.length = sibs.length)
    (bits' : List Bool) (sibs' : List H) (x : H) :
    h.climbPairs (bits ++ bits') (sibs ++ sibs') x =
      h.climbPairs bits sibs x ++ h.climbPairs bits' sibs' (h.climb bits sibs x) := by
  induction bits generalizing sibs x with
  | nil =>
    rw [List.length_eq_zero_iff.mp hlen.symm]
    simp [climbPairs]
  | cons b bits ih =>
    cases sibs with
    | nil => cases hlen
    | cons s sibs =>
      simp only [List.cons_append, climbPairs, climb_cons]
      rw [ih (by simpa using hlen)]

theorem climbPairs_siblings (d : ℕ) (m : List Bool → Option V) (p : List Bool) :
    h.climbPairs p.reverse (h.siblings d m p) (h.root d (below m p)) = h.pathPairs d m p := by
  induction p generalizing m with
  | nil => rfl
  | cons b p ih =>
    have hbelow : below m (b :: p) = below (below m [b]) p := by rw [below_below]; rfl
    rw [List.reverse_cons, siblings, hbelow, climbPairs_append (by simp), ih, climb_siblings,
      pathPairs]
    cases b <;> rfl

/-- Whoever hashes a value up to the root of a tree has the value and the siblings of the
tree, or a collision. -/
theorem climb_binding {sibs : List H} {x : H} (hlen : sibs.length = p.length)
    (hroot : h.climb p.reverse sibs x = h.root (p.length + d) m) :
    (x = h.root d (below m p) ∧ sibs = h.siblings d m p) ∨
      Commitment.Collision (fun pair : H × H => h.branch pair.1 pair.2)
        (h.climbPairs p.reverse sibs x ++ h.pathPairs d m p) := by
  induction p generalizing m sibs with
  | nil =>
    obtain rfl := List.length_eq_zero_iff.mp hlen
    left
    simpa [siblings] using hroot
  | cons b p ih =>
    rcases List.eq_nil_or_concat sibs with rfl | ⟨lower, s, rfl⟩
    · cases hlen
    rw [List.concat_eq_append] at *
    have hlower : lower.length = p.length := by simpa using hlen
    rw [List.reverse_cons, climb_append (by simp [hlower]), climb_cons, climb_nil,
      List.length_cons, Nat.add_right_comm, root_succ] at hroot
    rw [List.reverse_cons, climbPairs_append (by simp [hlower]), pathPairs]
    by_cases hpair : (if b then (s, h.climb p.reverse lower x)
        else (h.climb p.reverse lower x, s)) =
          (h.root (p.length + d) (below m [false]), h.root (p.length + d) (below m [true]))
    · have hboth : h.climb p.reverse lower x = h.root (p.length + d) (below m [b]) ∧
          s = h.root (p.length + d) (below m [!b]) := by
        cases b <;> simp_all
      rcases ih hlower hboth.1 with ⟨hx, hsibs⟩ | hcollision
      · left
        rw [below_below, List.singleton_append] at hx
        exact ⟨hx, by rw [siblings, hsibs, hboth.2]⟩
      · right
        refine hcollision.mono fun pair hpair => ?_
        simp only [List.mem_append] at hpair ⊢
        tauto
    · right
      refine ⟨_, ?_, _, ?_, hpair, ?_⟩
      · simp [climbPairs]
      · simp
      · cases b <;> simpa using hroot

/-- Trees with one root hold the same, or there is a collision along some path. -/
theorem root_binding (hroot : h.root d m = h.root d m') (hp : p.length = d) :
    h.leafHash (m p) = h.leafHash (m' p) ∨
      Commitment.Collision (fun pair : H × H => h.branch pair.1 pair.2)
        (h.pathPairs 0 m p ++ h.pathPairs 0 m' p) := by
  subst hp
  have hclimb := climb_siblings (h := h) 0 m p
  rw [Nat.add_zero, hroot] at hclimb
  rcases climb_binding (d := 0) (length_siblings 0 m p) hclimb with ⟨hleaf, -⟩ | hcollision
  · left
    simpa using hleaf
  · right
    rwa [climbPairs_siblings] at hcollision

end SparseMerkle
