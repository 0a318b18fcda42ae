import RollupX.Verification.Submitter.Lifecycle

/-! The gas price of a transaction that stays pending. -/

namespace RollupX.Submitter

open Machine

theorem u256_eq_some_iff {n m : ℕ} : u256 n = some m ↔ n < 2 ^ 256 ∧ n = m := by
  rw [u256, Option.ite_none_right_eq_some, Option.some.injEq]

/-- The price after `price`, if the first one was `origGp`; `some none` where the batch is given
up. -/
def nextPrice (origGp price : ℕ) : Option (Option ℕ) := do
  let newGasPrice ← u256 (price + price / 5)
  let maxGasPrice ← u256 (origGp * 3)
  if maxGasPrice < newGasPrice then do
    let scaled ← u256 (maxGasPrice * 99)
    pure (if scaled / 100 ≤ price then none else some maxGasPrice)
  else pure (some newGasPrice)

theorem nextPrice_of_fits {origGp price : ℕ} (hnew : price + price / 5 < 2 ^ 256)
    (hscaled : origGp * 3 * 99 < 2 ^ 256) :
    nextPrice origGp price =
      if origGp * 3 < price + price / 5 then
        some (if origGp * 3 * 99 / 100 ≤ price then none else some (origGp * 3))
      else some (some (price + price / 5)) := by
  have hmax : origGp * 3 < 2 ^ 256 := by omega
  unfold nextPrice u256
  rw [if_pos hnew, if_pos hmax]
  simp only [Option.bind_eq_bind, Option.bind_some, if_pos hscaled]
  rfl

/-- From a price of five on, the next one is higher and within the cap. -/
theorem nextPrice_productive {origGp price : ℕ} (hfive : 5 ≤ origGp)
    (hfits : origGp * 297 < 2 ^ 256) (hlow : origGp ≤ price) (hhigh : price ≤ origGp * 3) :
    nextPrice origGp price = some none ∨
      ∃ next, nextPrice origGp price = some (some next) ∧ price < next ∧ next ≤ origGp * 3 := by
  rw [nextPrice_of_fits (by omega) (by omega)]
  by_cases hcap : origGp * 3 < price + price / 5
  · rw [if_pos hcap]
    by_cases hstop : origGp * 3 * 99 / 100 ≤ price
    · exact .inl (by rw [if_pos hstop])
    · exact .inr ⟨origGp * 3, by rw [if_neg hstop], by omega, le_rfl⟩
  · rw [if_neg hcap]
    exact .inr ⟨_, rfl, by omega, by omega⟩

theorem nextPrice_of_small {origGp : ℕ} (hpos : 0 < origGp) (hsmall : origGp < 5) :
    nextPrice origGp origGp = some (some origGp) := by
  rw [nextPrice_of_fits (by omega) (by omega), if_neg (by omega)]
  congr
  omega

theorem not_giveUp_first {origGp : ℕ} (hpos : 0 < origGp) :
    nextPrice origGp origGp ≠ some none := by
  intro h
  simp only [nextPrice, Option.bind_eq_bind, Option.bind_eq_some_iff, u256_eq_some_iff] at h
  obtain ⟨newGasPrice, ⟨-, rfl⟩, maxGasPrice, ⟨-, rfl⟩, h⟩ := h
  rw [if_neg (by omega)] at h
  cases h

theorem fits_of_giveUp {origGp price : ℕ} (h : nextPrice origGp price = some none) :
    origGp * 297 < 2 ^ 256 := by
  simp only [nextPrice, Option.bind_eq_bind, Option.bind_eq_some_iff, u256_eq_some_iff] at h
  obtain ⟨newGasPrice, -, maxGasPrice, ⟨-, rfl⟩, h⟩ := h
  split at h
  · obtain ⟨scaled, hscaled, -⟩ := Option.bind_eq_some_iff.mp h
    have hlt := (u256_eq_some_iff.mp hscaled).1
    omega
  · cases h

theorem u256FromDecStr_toDigits {n : ℕ} (h : n < 2 ^ 256) :
    u256FromDecStr (Nat.toDigits 10 n) = some n := by
  have hdigits : (Nat.toDigits 10 n).all Char.isDigit = true := by
    rw [List.all_eq_true]
    exact fun c hc => Nat.isDigit_of_mem_toDigits (by decide) le_rfl hc
  have hvalue : (Nat.toDigits 10 n).foldl (fun n c => 10 * n + (c.toNat - 48)) 0 = n :=
    Nat.ofDigitChars_toDigits (by decide) le_rfl
  rw [u256FromDecStr, if_pos hdigits, hvalue, if_pos h]

namespace TypedTransaction

def transactionType : TypedTransaction → ℕ
  | legacy _ _ => 0
  | eip2930 _ _ => 1
  | eip1559 _ _ _ => 2

/-- What the transaction offers for a unit of gas at most. -/
def price : TypedTransaction → Option ℕ
  | legacy _ gasPrice => gasPrice
  | eip2930 _ gasPrice => gasPrice
  | eip1559 _ maxFeePerGas _ => maxFeePerGas

end TypedTransaction

/-- What the conversion `(&tx).into()` of ethers is documented to copy: the fees of an EIP-1559
transaction, and the gas price of any other. -/
structure CopiesPrices (into : L1Transaction → TypedTransaction) : Prop where
  eip1559 : ∀ tx, tx.transactionType = some 2 →
    into tx = .eip1559 tx.nonce tx.maxFeePerGas tx.maxPriorityFeePerGas
  other : ∀ tx, tx.transactionType ≠ some 2 →
    into tx = .legacy tx.nonce tx.gasPrice ∨ into tx = .eip2930 tx.nonce tx.gasPrice

/-- A row, with the type and the price of the last transaction that was broadcast for it. -/
structure StuckRow where
  record : BatchSagaRecord
  type : ℕ
  price : ℕ
  deriving DecidableEq, Repr

/-- What a recovery pass meets: the nonce and the tip of the transaction, the hash of the one it
broadcasts and the time of its update. -/
structure RecoveryPass where
  nonce : ℕ
  tip : Option ℕ
  newHash : H256
  now : ℤ
  deriving DecidableEq, Repr

/-- The transaction as it is found pending. The gas price that a node gives for a pending
EIP-1559 transaction is its maximal fee. -/
def StuckRow.found (s : StuckRow) (p : RecoveryPass) : L1Transaction where
  nonce := p.nonce
  gasPrice := some s.price
  transactionType := some s.type
  maxFeePerGas := if s.type = 2 then some s.price else none
  maxPriorityFeePerGas := if s.type = 2 then p.tip else none

section

variable (into : L1Transaction → TypedTransaction)

/-- A pass that finds the transaction pending at the last price and whose calls succeed. Only a
row in the third state is looked at. `none` where the arithmetic panics. -/
def StuckRow.pass (s : StuckRow) (p : RecoveryPass) : Option StuckRow :=
  if s.record.state = .submittedToL1 then
    (bumpGas s.record (s.found p)).map fun
      | .giveUp => { s with record := { s.record with state := .failed, lastUpdated := p.now } }
      | .send tx =>
        ⟨{ s.record with txHash := some p.newHash.debug, lastUpdated := p.now },
          (into tx).transactionType, (into tx).price.getD s.price⟩
  else some s

def PassStep (s : StuckRow) (p : RecoveryPass) (s' : StuckRow) : Prop :=
  s.pass into p = some s'

end

def BatchSagaRecord.NonceFits (record : BatchSagaRecord) : Prop :=
  ∀ n, record.nonce = some n → 0 ≤ n

def Bump.ofPrice (tx : L1Transaction) : Option ℕ → Bump
  | none => .giveUp
  | some next => .send { tx with gasPrice := some next }

theorem bumpGas_nonce {record : BatchSagaRecord} (tx : L1Transaction) (hnonce : record.NonceFits) :
    ∃ nonce, bumpGas record tx = bumpGas { record with nonce := none } { tx with nonce } := by
  cases hn : record.nonce with
  | none => exact ⟨tx.nonce, by simp only [bumpGas, hn]⟩
  | some n => exact ⟨n.toNat, by simp only [bumpGas, hn, if_pos (hnonce n hn)]⟩

theorem bumpGas_eq {record : BatchSagaRecord} {origGp price : ℕ} {tx : L1Transaction}
    (htx : tx.gasPrice = some price) (hnonce : record.NonceFits)
    (hprice : record.originalGasPrice.bind u256FromDecStr = some origGp) :
    ∃ nonce, bumpGas record tx =
      (nextPrice origGp price).map (Bump.ofPrice { tx with nonce }) := by
  obtain ⟨nonce, hput⟩ := bumpGas_nonce tx hnonce
  refine ⟨nonce, ?_⟩
  rw [hput]
  simp only [bumpGas, nextPrice, hprice, htx, Option.bind_eq_bind, Option.bind_some]
  cases u256 (price + price / 5) with
  | none => rfl
  | some newGasPrice =>
    cases u256 (origGp * 3) with
    | none => rfl
    | some maxGasPrice =>
      simp only [Option.bind_some]
      split
      · cases u256 (maxGasPrice * 99) with
        | none => rfl
        | some scaled =>
          simp only [Option.bind_some, Option.pure_def, Option.map_some]
          split <;> rfl
      · rfl

/-- The row after a pass that broadcast a transaction of this type and price, or gave up. -/
def StuckRow.after (s : StuckRow) (p : RecoveryPass) (type : ℕ) : Option ℕ → StuckRow
  | none => { s with record := { s.record with state := .failed, lastUpdated := p.now } }
  | some next =>
    ⟨{ s.record with txHash := some p.newHash.debug, lastUpdated := p.now }, type, next⟩

section

variable {into : L1Transaction → TypedTransaction} {origGp : ℕ} {s s' : StuckRow}
  {p : RecoveryPass} {passes : List RecoveryPass}

/-- The columns that a bump reads. -/
structure StuckRow.Priced (origGp : ℕ) (s : StuckRow) : Prop where
  first : s.record.originalGasPrice = some (Nat.toDigits 10 origGp)
  nonceFits : s.record.NonceFits

theorem StuckRow.Priced.after (h : s.Priced origGp) (p : RecoveryPass) (type : ℕ)
    (next : Option ℕ) : (s.after p type next).Priced origGp := by
  cases next with
  | none | some next => exact ⟨h.first, h.nonceFits⟩

variable (into) in
theorem pass_of_submitted (h : s.Priced origGp) (horig : origGp < 2 ^ 256)
    (hstate : s.record.state = .submittedToL1) (p : RecoveryPass) :
    ∃ nonce, s.pass into p = (nextPrice origGp s.price).map fun
      | none => { s with record := { s.record with state := .failed, lastUpdated := p.now } }
      | some next => ⟨{ s.record with txHash := some p.newHash.debug, lastUpdated := p.now },
          (into { s.found p with nonce, gasPrice := some next }).transactionType,
          (into { s.found p with nonce, gasPrice := some next }).price.getD s.price⟩ := by
  have hread : s.record.originalGasPrice.bind u256FromDecStr = some origGp := by
    rw [h.first, Option.bind_some, u256FromDecStr_toDigits horig]
  obtain ⟨nonce, hbump⟩ := bumpGas_eq (rfl : (s.found p).gasPrice = some s.price) h.nonceFits hread
  refine ⟨nonce, ?_⟩
  rw [StuckRow.pass, if_pos hstate, hbump, Option.map_map]
  congr 1
  funext next
  cases next <;> rfl

/-- Any transaction but one of EIP-1559 goes out at the next price. -/
theorem pass_of_other (hinto : CopiesPrices into) (h : s.Priced origGp) (horig : origGp < 2 ^ 256)
    (hstate : s.record.state = .submittedToL1) (htype : s.type ≠ 2) (p : RecoveryPass) :
    ∃ type, type ≠ 2 ∧
      s.pass into p = (nextPrice origGp s.price).map (s.after p type) := by
  obtain ⟨nonce, hpass⟩ := pass_of_submitted into h horig hstate p
  rw [hpass]
  cases nextPrice origGp s.price with
  | none => exact ⟨0, by decide, rfl⟩
  | some next =>
    cases next with
    | none => exact ⟨0, by decide, rfl⟩
    | some next =>
      simp only [Option.map_some]
      rcases hinto.other { s.found p with nonce, gasPrice := some next }
        (by simpa [StuckRow.found] using htype) with hlegacy | haccess
      · rw [hlegacy]
        exact ⟨0, by decide, rfl⟩
      · rw [haccess]
        exact ⟨1, by decide, rfl⟩

/-- One of EIP-1559 goes out at the same maximal fee again. -/
theorem pass_of_eip1559 (hinto : CopiesPrices into) (h : s.Priced origGp)
    (horig : origGp < 2 ^ 256) (hstate : s.record.state = .submittedToL1) (htype : s.type = 2)
    (p : RecoveryPass) :
    s.pass into p = (nextPrice origGp s.price).map fun next =>
      s.after p 2 (next.map fun _ => s.price) := by
  obtain ⟨nonce, hpass⟩ := pass_of_submitted into h horig hstate p
  rw [hpass]
  congr 1
  funext next
  cases next with
  | none => rfl
  | some next =>
    simp only
    rw [hinto.eip1559 _ (by simp [StuckRow.found, htype])]
    simp [StuckRow.after, StuckRow.found, htype, TypedTransaction.transactionType,
      TypedTransaction.price]

theorem pass_of_not_submitted (hstate : s.record.state ≠ .submittedToL1) (p : RecoveryPass) :
    s.pass into p = some s :=
  if_neg hstate

/-- The row is in the third state, with a price that grows by one a pass at least, or has been
given up. -/
structure StuckRow.Bumped (origGp : ℕ) (passes : List RecoveryPass) (s : StuckRow) : Prop where
  priced : s.Priced origGp
  type : s.type ≠ 2
  within : origGp ≤ s.price ∧ s.price ≤ origGp * 3
  grown : s.record.state = .failed ∨
    s.record.state = .submittedToL1 ∧ origGp + passes.length ≤ s.price

theorem StuckRow.Bumped.pass (hinto : CopiesPrices into) (h : s.Bumped origGp passes)
    (hfive : 5 ≤ origGp) (hfits : origGp * 297 < 2 ^ 256)
    (hstate : s.record.state = .submittedToL1) (p : RecoveryPass) :
    ∃ s', PassStep into s p s' ∧ s'.Bumped origGp (passes ++ [p]) ∧ (s'.record.state = .failed ∨
      s'.record.state = .submittedToL1 ∧ s.price < s'.price ∧ s'.price ≤ origGp * 3) := by
  obtain ⟨type, htype, hpass⟩ := pass_of_other hinto h.priced (by omega) hstate h.type p
  obtain ⟨hlow, hhigh⟩ := h.within
  rcases nextPrice_productive hfive hfits hlow hhigh with hnone | ⟨next, hnext, hmore, hcap⟩
  · rw [hnone] at hpass
    exact ⟨_, hpass, ⟨h.priced.after p type none, h.type, ⟨hlow, hhigh⟩, .inl rfl⟩, .inl rfl⟩
  · rw [hnext] at hpass
    refine ⟨_, hpass, ⟨h.priced.after p type (some next), htype, ⟨?_, hcap⟩, .inr ⟨hstate, ?_⟩⟩,
      .inr ⟨hstate, hmore, hcap⟩⟩
    · exact (Nat.le_of_lt hmore).trans' hlow
    · rcases h.grown with hfailed | ⟨-, hgrown⟩
      · rw [hstate] at hfailed
        contradiction
      · rw [List.length_append, List.length_singleton]
        exact Nat.lt_of_le_of_lt hgrown hmore

theorem run_bumped {record : BatchSagaRecord} {type : ℕ} (hinto : CopiesPrices into)
    (htype : type ≠ 2) (hfive : 5 ≤ origGp) (hfits : origGp * 297 < 2 ^ 256)
    (hstart : StuckRow.Priced origGp ⟨record, type, origGp⟩)
    (hstate : record.state = .submittedToL1)
    (hrun : Run (PassStep into) ⟨record, type, origGp⟩ passes s) :
    s.Bumped origGp passes := by
  refine hrun.history (I := fun done s => s.Bumped origGp done) ?_
    ⟨hstart, htype, ⟨le_rfl, Nat.le_mul_of_pos_right origGp (by decide)⟩, .inr ⟨hstate, le_rfl⟩⟩
  intro done s p s' h hstep
  by_cases hs : s.record.state = .submittedToL1
  · obtain ⟨t, ht, hbumped, -⟩ := h.pass hinto hfive hfits hs p
    cases Option.some.inj (hstep.symm.trans ht)
    exact hbumped
  · have hsame := hstep.symm.trans (pass_of_not_submitted hs p)
    cases hsame
    exact ⟨h.priced, h.type, h.within, .inl (h.grown.resolve_right fun hg => hs hg.1)⟩

/-- A row that was given up was so by arithmetic that did not overflow. -/
theorem run_givenUp {start : StuckRow} (horig : origGp < 2 ^ 256)
    (hstart : start.Priced origGp) (hstate : start.record.state = .submittedToL1)
    (hrun : Run (PassStep into) start passes s) :
    s.Priced origGp ∧ (s.record.state = .failed → origGp * 297 < 2 ^ 256) := by
  refine hrun.invariant_of_step
    (I := fun s => s.Priced origGp ∧ (s.record.state = .failed → origGp * 297 < 2 ^ 256)) ?_
    ⟨hstart, fun h => by rw [hstate] at h; contradiction⟩
  rintro s p s' ⟨hpriced, hfailed⟩ hstep
  by_cases hs : s.record.state = .submittedToL1
  · obtain ⟨nonce, hpass⟩ := pass_of_submitted into hpriced horig hs p
    obtain ⟨next, hnext, rfl⟩ := Option.map_eq_some_iff.mp (hpass.symm.trans hstep)
    cases next with
    | none => exact ⟨⟨hpriced.first, hpriced.nonceFits⟩, fun _ => fits_of_giveUp hnext⟩
    | some next =>
      exact ⟨⟨hpriced.first, hpriced.nonceFits⟩, fun hstop =>
        absurd (hs.symm.trans hstop) (by decide)⟩
  · cases hstep.symm.trans (pass_of_not_submitted hs p)
    exact ⟨hpriced, hfailed⟩

/-- A row at its first price keeps it, and stays in the third state, if the price is below five or
the transaction is one of EIP-1559. -/
theorem run_stays {record : BatchSagaRecord} {type : ℕ} (hinto : CopiesPrices into)
    (hpos : 0 < origGp) (hword : origGp < 2 ^ 256) (hsame : origGp < 5 ∨ type = 2)
    (hstart : StuckRow.Priced origGp ⟨record, type, origGp⟩)
    (hstate : record.state = .submittedToL1)
    (hrun : Run (PassStep into) ⟨record, type, origGp⟩ passes s) :
    s.record.state = .submittedToL1 ∧ s.price = origGp := by
  have hend : s.Priced origGp ∧ s.record.state = .submittedToL1 ∧ s.price = origGp ∧
      (origGp < 5 ∨ s.type = 2) := by
    refine hrun.invariant_of_step (I := fun s => s.Priced origGp ∧
      s.record.state = .submittedToL1 ∧ s.price = origGp ∧ (origGp < 5 ∨ s.type = 2)) ?_
      ⟨hstart, hstate, rfl, hsame⟩
    rintro s p s' ⟨hpriced, hs, hprice, hsame⟩ hstep
    have hnever : nextPrice origGp s.price ≠ some none := by
      rw [hprice]
      exact not_giveUp_first hpos
    by_cases htype : s.type = 2
    · rw [PassStep, pass_of_eip1559 hinto hpriced hword hs htype] at hstep
      obtain ⟨next, hnext, rfl⟩ := Option.map_eq_some_iff.mp hstep
      cases next with
      | none => exact absurd hnext hnever
      | some next => exact ⟨hpriced.after p 2 (some s.price), hs, hprice, .inr rfl⟩
    · have hsmall := hsame.resolve_right htype
      obtain ⟨type', -, hpass⟩ := pass_of_other hinto hpriced hword hs htype p
      rw [hprice, nextPrice_of_small hpos hsmall] at hpass
      cases hstep.symm.trans hpass
      exact ⟨hpriced.after p type' (some origGp), hs, rfl, .inl hsmall⟩
  exact ⟨hend.2.1, hend.2.2.1⟩

/-- If no pass over a pending row panics, there is a run of any length. -/
theorem exists_run_of_length (hprogress : ∀ passes t, Run (PassStep into) s passes t →
      t.record.state = .submittedToL1 → ∀ p, ∃ t', PassStep into t p t')
    (p : RecoveryPass) (n : ℕ) :
    ∃ passes t, passes.length = n ∧ Run (PassStep into) s passes t := by
  induction n with
  | zero => exact ⟨[], s, rfl, .nil s⟩
  | succ n ih =>
    obtain ⟨passes, t, hlength, hrun⟩ := ih
    obtain ⟨t', hstep⟩ : ∃ t', PassStep into t p t' := by
      by_cases ht : t.record.state = .submittedToL1
      · exact hprogress passes t hrun ht p
      · exact ⟨t, pass_of_not_submitted ht p⟩
    refine ⟨passes ++ [p], t', by rw [List.length_append, hlength]; rfl, ?_⟩
    exact run_append_iff.mpr ⟨t, hrun, .cons hstep (.nil t')⟩

end

/-- A pass over the row is what the daemon's scan does with it. -/
theorem scan_pass {into : L1Transaction → TypedTransaction} {rt : Runtime} {cfg : Config}
    {d : Daemon} {rest : List BatchSagaRecord} {batchesToResume : List (Batch × Text)}
    {s s' : StuckRow} {p : RecoveryPass} {time : ℤ}
    (hphase : d.phase = .running cfg (.scanning s.record rest batchesToResume))
    (hrow : s.record ∈ d.outbox.rows)
    (hstuck : s.record.stuck time (some (s.found p)) = some (s.found p))
    (hpass : PassStep into s p s') :
    ∃ events d', Run (DaemonStep rt) d events d' ∧
      d'.phase = .running cfg (.scan rest batchesToResume) ∧ s'.record ∈ d'.outbox.rows := by
  have hstate := stuck_state hstuck
  have hscan : daemonStep rt d (.scan time (some (s.found p)) (.ok p.newHash) ⟨p.now, true⟩) =
      some (d.scan rt cfg s.record rest batchesToResume time (some (s.found p))
        (.ok p.newHash) ⟨p.now, true⟩) := by
    simp only [daemonStep, hphase, Daemon.advance]
  rw [PassStep, StuckRow.pass, if_pos hstate] at hpass
  obtain ⟨bump, hbump, rfl⟩ := Option.map_eq_some_iff.mp hpass
  simp only [Daemon.scan, hstuck, hbump] at hscan
  cases bump with
  | giveUp =>
    exact ⟨_, _, .cons hscan (.nil _), rfl, mem_updateState_self hrow⟩
  | send tx =>
    refine ⟨_, _, .cons hscan (.cons (a := .write ⟨p.now, true⟩) rfl (.nil _)), rfl, ?_⟩
    have hsame : { s.record with txHash := some p.newHash.debug, lastUpdated := p.now } =
        { s.record with
          state := .submittedToL1
          txHash := some p.newHash.debug
          lastUpdated := p.now } := by
      rw [← hstate]
    rw [hsame]
    exact mem_updateSubmission_self hrow

/-- Each pass over the row at its last price broadcasts a higher one within the cap or gives the
row up, and after some number of passes it has been given up. -/
def GasBumpsProductive (into : L1Transaction → TypedTransaction) (row : StuckRow) : Prop :=
  (∀ passes s, Run (PassStep into) row passes s → s.record.state = .submittedToL1 →
    ∀ p, ∃ s', PassStep into s p s' ∧ (s'.record.state = .failed ∨
      s'.record.state = .submittedToL1 ∧ s.price < s'.price ∧ s'.price ≤ row.price * 3)) ∧
  ∃ n, ∀ passes s, Run (PassStep into) row passes s → n ≤ passes.length →
    s.record.state = .failed

theorem gasBumpsProductive_of_fits {into : L1Transaction → TypedTransaction}
    {record : BatchSagaRecord} {type origGp : ℕ} (hinto : CopiesPrices into) (htype : type ≠ 2)
    (hfive : 5 ≤ origGp) (hfits : origGp * 297 < 2 ^ 256)
    (hstart : StuckRow.Priced origGp ⟨record, type, origGp⟩)
    (hstate : record.state = .submittedToL1) :
    GasBumpsProductive into ⟨record, type, origGp⟩ := by
  refine ⟨fun passes s hrun hs p => ?_, origGp * 2 + 1, fun passes s hrun hlength => ?_⟩
  · have hbumped := run_bumped hinto htype hfive hfits hstart hstate hrun
    obtain ⟨s', hstep, -, hprice⟩ := hbumped.pass hinto hfive hfits hs p
    exact ⟨s', hstep, hprice⟩
  · obtain ⟨-, -, ⟨-, hhigh⟩, hgrown⟩ := run_bumped hinto htype hfive hfits hstart hstate hrun
    exact hgrown.resolve_right fun h => by omega

/-- A row whose transaction keeps its price is not bumped. -/
theorem not_productive_of_stays {into : L1Transaction → TypedTransaction} {row : StuckRow}
    (hstate : row.record.state = .submittedToL1)
    (hstays : ∀ passes s, Run (PassStep into) row passes s →
      s.record.state = .submittedToL1 ∧ s.price = row.price) : ¬GasBumpsProductive into row := by
  rintro ⟨hproductive, -⟩
  obtain ⟨s', hstep, hprice⟩ :=
    hproductive [] _ (.nil _) hstate ⟨0, none, Vector.replicate 32 0, 0⟩
  obtain ⟨hstate', hsame⟩ := hstays _ s' (.cons hstep (.nil s'))
  rcases hprice with hfailed | ⟨-, hless, -⟩
  · exact absurd (hstate'.symm.trans hfailed) (by decide)
  · exact absurd hsame (Nat.ne_of_gt hless)

/-- A row is bumped up to three times its first price and given up then, if and only if its
transaction is not one of EIP-1559, that price is at least five, its multiples fit into the word
and the nonce of the row is not negative. -/
theorem gas_bumps_productive_iff (into : L1Transaction → TypedTransaction)
    (hinto : CopiesPrices into) (record : BatchSagaRecord) (type origGp : ℕ) (hpos : 0 < origGp)
    (hword : origGp < 2 ^ 256) (hstate : record.state = .submittedToL1)
    (hfirst : record.originalGasPrice = some (Nat.toDigits 10 origGp)) :
    GasBumpsProductive into ⟨record, type, origGp⟩ ↔
      type ≠ 2 ∧ 5 ≤ origGp ∧ origGp * 297 < 2 ^ 256 ∧ record.NonceFits := by
  constructor
  · intro h
    have hnonce : record.NonceFits := by
      intro k hk
      by_contra hneg
      obtain ⟨s', hstep, -⟩ := h.1 [] _ (.nil _) hstate ⟨0, none, Vector.replicate 32 0, 0⟩
      simp [PassStep, StuckRow.pass, hstate, bumpGas, hk, hneg] at hstep
    have hstart : StuckRow.Priced origGp ⟨record, type, origGp⟩ := ⟨hfirst, hnonce⟩
    have hmoves : ¬(origGp < 5 ∨ type = 2) := fun hsame => not_productive_of_stays hstate
      (fun passes s hrun => run_stays hinto hpos hword hsame hstart hstate hrun) h
    rw [not_or] at hmoves
    refine ⟨hmoves.2, Nat.not_lt.mp hmoves.1, ?_, hnonce⟩
    obtain ⟨hproductive, n, hstop⟩ := h
    obtain ⟨passes, s, hlength, hrun⟩ := exists_run_of_length (s := ⟨record, type, origGp⟩)
      (fun passes t hrun ht p => (hproductive passes t hrun ht p).imp fun _ h => h.1)
      ⟨0, none, Vector.replicate 32 0, 0⟩ n
    exact (run_givenUp hword hstart hstate hrun).2 (hstop passes s hrun hlength.ge)
  · rintro ⟨htype, hfive, hfits, hnonce⟩
    exact gasBumpsProductive_of_fits hinto htype hfive hfits ⟨hfirst, hnonce⟩ hstate

def submittedRow (gasPrice : ℕ) : BatchSagaRecord where
  batchId := oneBatch.batchId
  state := .submittedToL1
  txHash := some (H256.debug (Vector.replicate 32 0xa1))
  nonce := some 3
  lastUpdated := 1010
  batchData := none
  proofHex := none
  originalGasPrice := some (Nat.toDigits 10 gasPrice)
  gasBumpCount := 0

theorem submittedRow_nonceFits (gasPrice : ℕ) : (submittedRow gasPrice).NonceFits := by
  intro n hn
  cases hn
  decide

def intoTyped (tx : L1Transaction) : TypedTransaction :=
  match tx.transactionType with
  | some 1 => .eip2930 tx.nonce tx.gasPrice
  | some 2 => .eip1559 tx.nonce tx.maxFeePerGas tx.maxPriorityFeePerGas
  | _ => .legacy tx.nonce tx.gasPrice

theorem intoTyped_copiesPrices : CopiesPrices intoTyped := by
  refine ⟨fun tx htype => by simp only [intoTyped, htype], fun tx htype => ?_⟩
  unfold intoTyped
  split
  · exact .inr rfl
  · contradiction
  · exact .inl rfl

theorem gas_bumps_productive_gwei :
    GasBumpsProductive intoTyped ⟨submittedRow 1000000000, 0, 1000000000⟩ ∧
    (StuckRow.pass intoTyped ⟨submittedRow 1000000000, 0, 1000000000⟩
      ⟨3, none, Vector.replicate 32 0xb1, 400000⟩).map StuckRow.price = some 1200000000 :=
  ⟨(gas_bumps_productive_iff intoTyped intoTyped_copiesPrices (submittedRow 1000000000) 0
    1000000000 (by decide) (by decide) rfl rfl).mpr
      ⟨by decide, by decide, by decide, submittedRow_nonceFits _⟩, by decide +kernel⟩

/-- A legacy transaction at four wei, and one of EIP-1559 at a gwei: every pass broadcasts the same
price again. -/
theorem gas_bumps_stay :
    (∀ passes s, Run (PassStep intoTyped) ⟨submittedRow 4, 0, 4⟩ passes s →
      s.record.state = .submittedToL1 ∧ s.price = 4) ∧
    (∀ passes s, Run (PassStep intoTyped) ⟨submittedRow 1000000000, 2, 1000000000⟩ passes s →
      s.record.state = .submittedToL1 ∧ s.price = 1000000000) ∧
    ¬GasBumpsProductive intoTyped ⟨submittedRow 4, 0, 4⟩ ∧
    ¬GasBumpsProductive intoTyped ⟨submittedRow 1000000000, 2, 1000000000⟩ := by
  have hfour : ∀ passes s, Run (PassStep intoTyped) ⟨submittedRow 4, 0, 4⟩ passes s →
      s.record.state = .submittedToL1 ∧ s.price = 4 := fun passes s hrun =>
    run_stays intoTyped_copiesPrices (by decide) (by decide) (.inl (by decide))
      ⟨rfl, submittedRow_nonceFits 4⟩ rfl hrun
  have hgwei : ∀ passes s,
      Run (PassStep intoTyped) ⟨submittedRow 1000000000, 2, 1000000000⟩ passes s →
      s.record.state = .submittedToL1 ∧ s.price = 1000000000 := fun passes s hrun =>
    run_stays intoTyped_copiesPrices (by decide) (by decide) (.inr rfl)
      ⟨rfl, submittedRow_nonceFits 1000000000⟩ rfl hrun
  exact ⟨hfour, hgwei, not_productive_of_stays rfl hfour, not_productive_of_stays rfl hgwei⟩

end RollupX.Submitter
