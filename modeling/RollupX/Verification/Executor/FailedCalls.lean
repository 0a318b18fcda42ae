import RollupX.Verification.Executor.AccountTree

/-! What a call of the RocksDB store leaves behind when it returns an error. -/

namespace RollupX.Executor.Faulty

open Commitment Machine RollupX.MerkleTree
open RocksDbStateManager (accountValueHash keyFromAddress zksyncTree treeKey Mirrored Sound
  leafIndex_of_assigned sound_fresh mirrored_fresh accountTree_treeKey
  zksyncTree_extendWithProofs)

variable {J : Type*} {jmtTree : JmtTree J}

theorem Handles.eq_ofOpen {h : Handles J} {s : RocksDbStateManager J} (hopen : h.opened = some s) :
    h = .ofOpen s := by
  obtain ⟨jmt, db⟩ := h
  cases jmt with
  | none => cases hopen
  | some jmt =>
    cases db with
    | none => cases hopen
    | some db =>
      cases hopen
      rfl

theorem Handles.getAccount_ofOpen (s : RocksDbStateManager J) (address : Address) :
    (Handles.ofOpen s).getAccount address = some (s.getAccount address) := by
  simp only [Handles.getAccount, Handles.ofOpen, RocksDbStateManager.getAccount]
  cases s.accountDb (RocksDbStateManager.accountKey address) with
  | none => rfl
  | some v => rfl

theorem Handles.currentRoot_ofOpen (s : RocksDbStateManager J) :
    (Handles.ofOpen s).currentRoot jmtTree = some (jmtTree.latestRootHash s.jmt) :=
  rfl

/-- A call of the store, with the faults that strike it. -/
inductive FallibleCall where
  | setAccount (address : Address) (account : Account) (faults : SetAccountFaults)
  | resetToGenesis (faults : ResetFaults)

def Handles.failure (jmtTree : JmtTree J) (emptyTree : J) (h : Handles J) :
    FallibleCall → Option (ExecutorError × Handles J)
  | .setAccount address account faults =>
    match h.setAccount jmtTree faults address account with
    | some (h', .error e) => some (e, h')
    | _ => none
  | .resetToGenesis faults =>
    match h.resetToGenesis emptyTree faults with
    | (h', .error e) => some (e, h')
    | _ => none

/-- Reads of `h'` do not panic, and give what reads of `h` give. -/
def Harmless (jmtTree : JmtTree J) (h h' : Handles J) : Prop :=
  (∀ a, h'.getAccount a ≠ none ∧ h'.getAccount a = h.getAccount a) ∧
    h'.currentRoot jmtTree ≠ none ∧ h'.currentRoot jmtTree = h.currentRoot jmtTree

def Handles.Sound (h : HashTree) (handles : Handles Database) : Prop :=
  ∀ s, handles.opened = some s → RocksDbStateManager.Sound h s

theorem resetToGenesis_error {emptyTree : J} {faults : ResetFaults} {h h' : Handles J}
    {e : ExecutorError} (hreset : h.resetToGenesis emptyTree faults = (h', .error e)) :
    h' = ⟨none, none⟩ := by
  unfold Handles.resetToGenesis at hreset
  simp only at hreset
  split at hreset
  · exact (Prod.mk.inj hreset).1.symm
  · split at hreset
    · exact (Prod.mk.inj hreset).1.symm
    · cases hreset

def Handles.call (h : HashTree) (handles : Handles Database) : FallibleCall → Handles Database
  | .setAccount address account faults =>
    match handles.opened with
    | none => handles
    | some s => .ofOpen (left (Faulty.setAccount (zksyncTree h) faults s address account))
  | .resetToGenesis faults => (handles.resetToGenesis Database.empty faults).1

theorem Handles.Sound.call {h : HashTree} {handles : Handles Database} (hsound : handles.Sound h)
    (call : FallibleCall) : (handles.call h call).Sound h := by
  cases call with
  | setAccount address account faults =>
    unfold Handles.call
    cases hopen : handles.opened with
    | none => exact hsound
    | some s =>
      rintro _ ⟨⟩
      exact (hsound s hopen).setAccount faults address account
  | resetToGenesis faults =>
    unfold Handles.call Handles.resetToGenesis openAt
    simp only
    split
    · rintro _ ⟨⟩
    · cases openSteps faults.reopen with
      | error e => rintro _ ⟨⟩
      | ok u =>
        rintro _ ⟨⟩
        exact sound_fresh

/-- Whatever calls a new store has seen, and whatever failed in them, it is sound. -/
theorem sound_calls (h : HashTree) (calls : List FallibleCall) :
    (calls.foldl (Handles.call h) (.ofOpen RocksDbStateManager.fresh)).Sound h := by
  have hr := run_foldl (Handles.call h) (.ofOpen RocksDbStateManager.fresh) calls
  refine hr.invariant_of_step (I := Handles.Sound h) (fun handles call _ hsound hstep => ?_) ?_
  · exact hstep ▸ hsound.call call
  · rintro _ ⟨⟩
    exact sound_fresh

/-- What the tree's `entries` reads for an address in the last version. -/
def treeLeaf (jmt : Database) (address : Address) : Option TreeEntry :=
  match Tree.latestVersion jmt with
  | none => none
  | some version =>
    match Tree.entries jmt version [treeKey address] with
    | .ok (some [entry]) => some entry
    | _ => none

/-- The tree has the account already, under the leaf index on record. -/
def LeafHolds (s : RocksDbStateManager Database) (address : Address) (account : Account) : Prop :=
  ∃ idx, leafIndex s.accountDb address = some idx ∧
    treeLeaf s.jmt address = some ⟨treeKey address, accountValueHash account, idx⟩

theorem treeLeaf_eq {h : HashTree} {jmt : Database} {maps : List Contents}
    (hhist : History h jmt maps) (address : Address) :
    treeLeaf jmt address = maps.getLast?.map fun m => entryAt m (treeKey address) := by
  unfold treeLeaf
  rw [hhist.latestVersion_eq]
  rcases List.eq_nil_or_concat maps with rfl | ⟨before, m, rfl⟩
  · rfl
  · rw [List.concat_eq_append] at hhist ⊢
    obtain ⟨t, hstored⟩ := hhist.stored before.length m (by simp)
    rw [List.length_append, List.length_singleton,
      show checkedPred (before.length + 1) = some before.length from rfl]
    simp only [hstored.entries_eq, List.map_cons, List.map_nil, List.getLast?_concat,
      Option.map_some]

section Leaf

variable {h : HashTree} {s : RocksDbStateManager Database} {maps : List Contents}
  {address : Address} {account : Account} {idx : UInt64}

theorem eq_some_of_entryAt {m : Contents} {key : Key} {value : Hash} (hidx : idx ≠ 0)
    (hentry : entryAt m key = ⟨key, value, idx⟩) : m key = some (value, idx) := by
  unfold entryAt at hentry
  cases hvalue : m key with
  | none =>
    rw [hvalue] at hentry
    exact absurd (congrArg TreeEntry.leafIndex hentry).symm hidx
  | some v =>
    rw [hvalue] at hentry
    cases hentry
    rfl

theorem leafHolds_iff (hhist : History h s.jmt maps)
    (hpos : RocksDbStateManager.Positive s.accountDb) :
    LeafHolds s address account ↔ ∃ idx, leafIndex s.accountDb address = some idx ∧
      latest maps (treeKey address) = some (accountValueHash account, idx) := by
  unfold LeafHolds
  rw [treeLeaf_eq hhist]
  refine exists_congr fun idx => and_congr_right fun hidx => ?_
  rcases List.eq_nil_or_concat maps with rfl | ⟨before, m, rfl⟩
  · exact iff_of_false (by rintro ⟨⟩) (by rintro ⟨⟩)
  · rw [List.concat_eq_append, List.getLast?_concat, Option.map_some, Option.some.injEq,
      latest_concat]
    refine ⟨eq_some_of_entryAt (hpos.leaf address idx hidx), fun hvalue => ?_⟩
    rw [entryAt, hvalue]

/-- Two inputs of the hasher collide, on the way to the leaf of the address before or after the
account is written to it. -/
def LeafCollides (h : HashTree) (s : RocksDbStateManager Database) (address : Address)
    (account : Account) : Prop :=
  ∃ maps idx, History h s.jmt maps ∧
    Collision h.hashInput (h.keyInputs (latest maps) (treeKey address) ++
      h.keyInputs (TreeInstruction.apply (latest maps)
        (.write ⟨treeKey address, accountValueHash account, idx⟩)) (treeKey address))

/-- The root after an update of the tree is the one before it exactly when the leaf holds the
account already. -/
theorem latestRootHash_extended {faults : LeafIndexFaults} {db : KvStore} {jmt : Database}
    {path : List Hash} (hs : Sound h s)
    (hidx : getOrAssignLeafIndex faults s.accountDb address = .ok (idx, db))
    (hext : (zksyncTree h).extendWithProofs s.jmt
      ⟨keyFromAddress address, idx, accountValueHash account⟩ = .ok (path, jmt)) :
    (LeafHolds s address account →
      (zksyncTree h).latestRootHash jmt = (zksyncTree h).latestRootHash s.jmt) ∧
    ((zksyncTree h).latestRootHash jmt = (zksyncTree h).latestRootHash s.jmt →
      LeafHolds s address account ∨ LeafCollides h s address account) := by
  obtain ⟨maps, hhist, hleaves⟩ := hs.tree
  have heffect := getOrAssignLeafIndex_effect faults s.accountDb address
  rw [hidx] at heffect
  obtain ⟨path', jmt', hext', hhist'⟩ :=
    zksyncTree_extendWithProofs hhist address idx (accountValueHash account)
  rw [hext, Except.ok.injEq, Prod.mk.injEq] at hext'
  obtain ⟨-, rfl⟩ := hext'
  have hrecord : leafIndex db address = some idx := by
    rw [leafIndex_of_assigned heffect, Function.update_self]
  have hroot : (zksyncTree h).latestRootHash jmt = _ := hhist'.latestRootHash_eq
  have hroot' : (zksyncTree h).latestRootHash s.jmt = _ := hhist.latestRootHash_eq
  rw [hroot, hroot', latest_concat, leafHolds_iff hhist hs.positive]
  constructor
  · rintro ⟨i, hi, hvalue⟩
    obtain rfl : idx = i := by
      have hkept := heffect.leafIndex_kept hi
      rw [left, hrecord, Option.some.injEq] at hkept
      exact hkept
    rw [TreeInstruction.apply, Function.update_eq_self_iff.mpr hvalue.symm]
  · intro heq
    have hne : idx ≠ 0 := (hs.positive.assigned heffect).leaf address idx hrecord
    refine (treeHash_binding heq.symm (treeKey address)).imp (fun hentry => ?_) fun hcoll =>
      ⟨maps, idx, hhist, hcoll⟩
    rw [entryAt_write ⟨treeKey address, accountValueHash account, idx⟩] at hentry
    have hvalue := eq_some_of_entryAt hne hentry
    exact ⟨idx, hleaves address _ idx hvalue, hvalue⟩

end Leaf

/-- The step that fails comes before the update of the tree, or is the update, or the update
writes what the tree has. A failed reset is never harmless. -/
def FallibleCall.Spares (handles : Handles Database) : FallibleCall → Prop
  | .setAccount address account faults => ∃ s, handles.opened = some s ∧
      (faults.leafIndex.strike (hasLeafIndex s.accountDb address) = true ∨
        faults.writeTree = true ∨ LeafHolds s address account)
  | .resetToGenesis _ => False

def FallibleCall.Collides (h : HashTree) (handles : Handles Database) : FallibleCall → Prop
  | .setAccount address account _ => ∃ s, handles.opened = some s ∧
      LeafCollides h s address account
  | .resetToGenesis _ => False

theorem latestRootHash_failed {h : HashTree} {s s' : RocksDbStateManager Database}
    {faults : SetAccountFaults} {address : Address} {account : Account} {e : ExecutorError}
    (hs : Sound h s)
    (hset : setAccount (zksyncTree h) faults s address account = .error (.error e, s')) :
    ((faults.leafIndex.strike (hasLeafIndex s.accountDb address) = true ∨
        faults.writeTree = true ∨ LeafHolds s address account) →
      (zksyncTree h).latestRootHash s'.jmt = (zksyncTree h).latestRootHash s.jmt) ∧
    ((zksyncTree h).latestRootHash s'.jmt = (zksyncTree h).latestRootHash s.jmt →
      (faults.leafIndex.strike (hasLeafIndex s.accountDb address) = true ∨
        faults.writeTree = true ∨ LeafHolds s address account) ∨
      LeafCollides h s address account) := by
  have hindex : (∃ r, getOrAssignLeafIndex faults.leafIndex s.accountDb address = .ok r) ↔ _ :=
    getOrAssignLeafIndex_ok_iff hs.indexed address
  have hassign := getOrAssignLeafIndex_effect faults.leafIndex s.accountDb address
  have heffect := setAccount_effect (zksyncTree h) faults s address account
  rw [hset] at heffect
  cases heffect with
  | indexFailed _ db hidx =>
    rw [hidx] at hindex
    refine ⟨fun _ => rfl, fun _ => .inl (.inl ?_)⟩
    simpa using hindex
  | treeFailed _ idx db jmt hidx hext =>
    rw [hidx] at hassign
    obtain ⟨path, jmt', hext', -⟩ := hs.tree.extended hassign (accountValueHash account)
    rw [extendWithProofs_of_ok hext'] at hext
    split_ifs at hext with hread hwrite
    · cases hext
    · cases hext
      exact ⟨fun _ => rfl, fun _ => .inl (.inr (.inl hwrite))⟩
  | accountFailed _ idx db path jmt hidx hext _ =>
    have hstrike := hindex.mp ⟨_, hidx⟩
    rw [hidx] at hassign
    obtain ⟨path', jmt', hext', -⟩ := hs.tree.extended hassign (accountValueHash account)
    rw [extendWithProofs_of_ok hext'] at hext
    split_ifs at hext with hread hwrite
    cases hext
    obtain ⟨hholds, hroot⟩ := latestRootHash_extended hs hidx hext'
    simp only [hstrike, Bool.false_eq_true, false_or, hwrite]
    exact ⟨hholds, hroot⟩

theorem harmless_ofOpen_iff {s s' : RocksDbStateManager J}
    (haccounts : s'.getAccount = s.getAccount) :
    Harmless jmtTree (.ofOpen s) (.ofOpen s') ↔
      jmtTree.latestRootHash s'.jmt = jmtTree.latestRootHash s.jmt := by
  simp [Harmless, Handles.getAccount_ofOpen, Handles.currentRoot_ofOpen, haccounts]

/-- A call that returns an error is harmless exactly when it is a write and fails at the leaf
index or at the update of the tree, or the tree has the account already. In the other direction
this is so unless two inputs of the hasher collide. -/
theorem failure_harmless_iff (h : HashTree) (handles handles' : Handles Database)
    (hsound : handles.Sound h) (call : FallibleCall) (e : ExecutorError)
    (hfailure : handles.failure (zksyncTree h) Database.empty call = some (e, handles')) :
    (call.Spares handles → Harmless (zksyncTree h) handles handles') ∧
      (Harmless (zksyncTree h) handles handles' →
        call.Spares handles ∨ call.Collides h handles) := by
  cases call with
  | setAccount address account faults =>
    simp only [Handles.failure, Handles.setAccount] at hfailure
    cases hopen : handles.opened with
    | none => simp [hopen] at hfailure
    | some s =>
      simp only [FallibleCall.Spares, FallibleCall.Collides, hopen, Option.some.injEq,
        exists_eq_left']
      rw [Handles.eq_ofOpen hopen]
      cases hset : setAccount (zksyncTree h) faults s address account with
      | ok pair => simp [hopen, hset] at hfailure
      | error failure =>
        obtain ⟨⟨err⟩ | -, s'⟩ := failure
        · simp only [hopen, hset, Option.some.injEq, Prod.mk.injEq] at hfailure
          rw [← hfailure.2, harmless_ofOpen_iff (getAccount_setAccount_error hset)]
          exact latestRootHash_failed (hsound s hopen) hset
        · simp [hopen, hset] at hfailure
  | resetToGenesis faults =>
    simp only [Handles.failure, FallibleCall.Spares, FallibleCall.Collides] at hfailure ⊢
    cases hreset : handles.resetToGenesis Database.empty faults with
    | mk left result =>
      cases result with
      | ok u => simp [hreset] at hfailure
      | error err =>
        simp only [hreset, Option.some.injEq, Prod.mk.injEq] at hfailure
        rw [← hfailure.2, resetToGenesis_error hreset]
        exact ⟨False.elim, fun hharmless => absurd rfl hharmless.2.1⟩

section Witness

variable {h : HashTree} {s : RocksDbStateManager Database} {address : Address}

theorem leafHolds_of_mirrored (hs : Mirrored h s) {idx : UInt64}
    (hidx : leafIndex s.accountDb address = some idx) :
    LeafHolds s address (s.getAccount address) := by
  obtain ⟨maps, hhist, hlatest⟩ := hs.tree
  refine (leafHolds_iff hhist hs.positive).mpr ⟨idx, hidx, ?_⟩
  rw [hlatest, accountTree_treeKey, hidx, Option.map_some]

theorem exists_failure (hs : Sound h s) (account : Account) {faults : SetAccountFaults}
    (hfail : faults.fail (hasLeafIndex s.accountDb address) = true) :
    ∃ e handles', (Handles.ofOpen s).failure (zksyncTree h) Database.empty
      (.setAccount address account faults) = some (e, handles') := by
  obtain ⟨e, s', hset⟩ := setAccount_of_fail (hs.exists_extended address account) hs.indexed hfail
  refine ⟨e, .ofOpen s', ?_⟩
  simp only [Handles.failure, Handles.setAccount, Handles.opened, Handles.ofOpen, hset]

end Witness

theorem failure_harmless_aliceStored :
    ∃ s, Sound sha256Tree s ∧ s.getAccount alice = ⟨100, 0⟩ ∧
      ∀ call ∈ [.setAccount alice ⟨90, 1⟩ { leafIndex := { readLeafIndex := some "IO error" } },
          .setAccount bob ⟨10, 0⟩ { writeTree := true },
          .setAccount alice ⟨100, 0⟩ { writeAccount := some "IO error" }],
        ∃ e handles', (Handles.ofOpen s).failure (zksyncTree sha256Tree) Database.empty call =
            some (e, handles') ∧
          Harmless (zksyncTree sha256Tree) (.ofOpen s) handles' := by
  obtain ⟨idx, -, diff, s, hset, hs, hidx, -⟩ :=
    mirrored_fresh.setAccount_eq (h := sha256Tree) alice ⟨100, 0⟩
  have halice : s.getAccount alice = ⟨100, 0⟩ := by
    have haccounts := (RocksDbStateManager.lawful (zksyncTree sha256Tree)
      Database.empty).getAccount_setAccount hset
    exact (congrFun haccounts alice).trans (Function.update_self ..)
  have hsound : (Handles.ofOpen s).Sound sha256Tree := by
    rintro _ ⟨⟩
    exact hs.sound
  have hall : ∀ address account faults,
      faults.fail (hasLeafIndex s.accountDb address) = true →
      FallibleCall.Spares (.ofOpen s) (.setAccount address account faults) →
      ∃ e handles', (Handles.ofOpen s).failure (zksyncTree sha256Tree) Database.empty
          (.setAccount address account faults) = some (e, handles') ∧
        Harmless (zksyncTree sha256Tree) (.ofOpen s) handles' := by
    intro address account faults hfail hspares
    obtain ⟨e, handles', hfailure⟩ := exists_failure hs.sound account hfail
    exact ⟨e, handles', hfailure, (failure_harmless_iff sha256Tree _ handles' hsound _ e
      hfailure).1 hspares⟩
  refine ⟨s, hs.sound, halice, ?_⟩
  simp only [List.forall_mem_cons, List.not_mem_nil, false_imp_iff, implies_true, and_true]
  refine ⟨hall _ _ _ rfl ⟨s, rfl, .inl rfl⟩, ?_, ?_⟩
  · exact hall _ _ _ (by simp [SetAccountFaults.fail]) ⟨s, rfl, .inr (.inl rfl)⟩
  · refine hall _ _ _ (by simp [SetAccountFaults.fail]) ⟨s, rfl, .inr (.inr ?_)⟩
    exact halice ▸ leafHolds_of_mirrored hs hidx

def lastValueTree : JmtTree Hash where
  extendWithProofs _ w := .ok ([], w.value)
  latestRootHash root := root

def openEmpty : Handles Hash :=
  .ofOpen ⟨Vector.replicate 32 0, fun _ => none⟩

/-- After a reset that cannot delete the directory, reading an account panics. After a write
that fails at the account, the root is another one, and the account is as it was. -/
theorem failure_harmful :
    (openEmpty.failure lastValueTree (Vector.replicate 32 0)
        (.resetToGenesis { deleteDir := some "Permission denied (os error 13)" })).map
          (fun r => (r.1, r.2.getAccount alice, r.2.currentRoot lastValueTree)) =
        some (.state "reset delete dir: Permission denied (os error 13)", none, none) ∧
      (openEmpty.failure lastValueTree (Vector.replicate 32 0)
        (.setAccount alice ⟨100, 0⟩ { writeAccount := some "IO error" })).map
          (fun r => (r.1, r.2.getAccount alice,
            decide (r.2.currentRoot lastValueTree = openEmpty.currentRoot lastValueTree))) =
        some (.state "write account blob: IO error", some ⟨0, 0⟩, false) := by
  decide +kernel

end RollupX.Executor.Faulty
