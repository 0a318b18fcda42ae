import RollupX.Model.Executor.State

/-! Seeding of the genesis accounts (`executor/src/service.rs`). -/

namespace RollupX.Executor

/-- The environment variables `EXECUTOR_GENESIS_ACCOUNTS` and `EXECUTOR_GENESIS_BALANCE`. -/
structure GenesisEnv where
  accounts : Option String
  balance : Option String
  deriving DecidableEq, Repr

def defaultBenchmarkSender : String :=
  "0xf39fd6e51aad88f6f4ce6ab8827279cfffb92266"

def defaultGenesisBalance : UInt64 :=
  1000000000000000000

/-! ## Reading the settings -/

/-- `char::is_whitespace`. -/
def isRustWhitespace (c : Char) : Bool :=
  let n := c.toNat
  (9 ≤ n && n ≤ 13) || n = 32 || n = 0x85 || n = 0xA0 || n = 0x1680 ||
    (0x2000 ≤ n && n ≤ 0x200A) || n = 0x2028 || n = 0x2029 || n = 0x202F || n = 0x205F ||
    n = 0x3000

def trim (cs : List Char) : List Char :=
  ((cs.dropWhile isRustWhitespace).reverse.dropWhile isRustWhitespace).reverse

/-- `str::parse::<u64>`: an optional plus sign, then decimal digits whose value fits. -/
def parseU64 (cs : List Char) : Option UInt64 :=
  let digits := match cs with
    | '+' :: rest => rest
    | _ => cs
  if digits ≠ [] ∧ digits.all Char.isDigit then
    let n := digits.foldl (fun n c => 10 * n + (c.toNat - 48)) 0
    if n < 2 ^ 64 then some (UInt64.ofNat n) else none
  else none

/-- The error of `hex::decode`. -/
inductive FromHexError where
  | invalidHexCharacter (c : Char) (index : ℕ)
  | oddLength
  deriving DecidableEq, Repr

def FromHexError.message : FromHexError → String
  | .invalidHexCharacter c index =>
    "Invalid character " ++ c.quote ++ " at position " ++ toString index
  | .oddLength => "Odd number of digits"

def hexNibble (index : ℕ) (b : UInt8) : Except FromHexError UInt8 :=
  if 48 ≤ b ∧ b ≤ 57 then .ok (b - 48)
  else if 97 ≤ b ∧ b ≤ 102 then .ok (b - 87)
  else if 65 ≤ b ∧ b ≤ 70 then .ok (b - 55)
  else .error (.invalidHexCharacter (Char.ofNat b.toNat) index)

def hexPairs : ℕ → List UInt8 → Except FromHexError (List UInt8)
  | index, high :: low :: rest => do
      let h ← hexNibble index high
      let l ← hexNibble (index + 1) low
      let bytes ← hexPairs (index + 2) rest
      pure ((h * 16 + l) :: bytes)
  | _, _ => pure []

def hexDecode (bytes : List UInt8) : Except FromHexError (List UInt8) :=
  if bytes.length % 2 = 1 then .error .oddLength else hexPairs 0 bytes

inductive GenesisError where
  | invalidHex (raw : List Char) (error : FromHexError)
  | wrongLength (raw : List Char)
  | seedFailed (raw : List Char) (error : ExecutorError)
  deriving DecidableEq, Repr

def GenesisError.message : GenesisError → String
  | .invalidHex raw e =>
    "invalid genesis account address " ++ String.ofList raw ++ ": " ++ e.message
  | .wrongLength raw =>
    "invalid genesis account address " ++ String.ofList raw ++ ": expected 20 bytes"
  | .seedFailed raw e =>
    "failed to seed genesis account " ++ String.ofList raw ++ ": " ++ e.message

def parseAddressHex (raw : List Char) : Except GenesisError Address :=
  let trimmed := match raw with
    | '0' :: 'x' :: rest => rest
    | _ => raw
  match hexDecode (utf8 (String.ofList trimmed)) with
  | .error e => .error (.invalidHex raw e)
  | .ok bytes =>
    if h : bytes.length = 20 then .ok ⟨bytes.toArray, Address.size_toArray h⟩
    else .error (.wrongLength raw)

/-- The addresses as written in the list, without the empty ones. -/
def GenesisEnv.entries (env : GenesisEnv) : List (List Char) :=
  (((env.accounts.getD defaultBenchmarkSender).toList.splitOn ',').map trim).filter
    fun entry => !entry.isEmpty

def GenesisEnv.genesisBalance (env : GenesisEnv) : UInt64 :=
  (env.balance.bind fun v => parseU64 v.toList).getD defaultGenesisBalance

/-! ## Seeding -/

variable {S : Type*}

/-- The loop of `seed_genesis_accounts`: the store as it is left, also by an entry that
fails, and the result. -/
def seedEntries (mgr : StateManager S) (balance : UInt64) :
    S → List (List Char) → S × Except GenesisError Unit
  | s, [] => (s, .ok ())
  | s, raw :: rest =>
    match parseAddressHex raw with
    | .error e => (s, .error e)
    | .ok address =>
      match mgr.setAccount s address ⟨balance, 0⟩ with
      | .error (e, s') => (s', .error (.seedFailed raw e))
      | .ok (_, s') => seedEntries mgr balance s' rest

def seedGenesisAccounts (env : GenesisEnv) (mgr : StateManager S) (s : S) :
    S × Except GenesisError Unit :=
  seedEntries mgr env.genesisBalance s env.entries

/-- What `run_server_from_env` does with the store. `RocksDbStateManager::open` gives the
store as it lies under `STATE_DB_PATH`, and the genesis accounts are seeded in any case; on
an error of that the server does not come up. -/
def startServer (env : GenesisEnv) (mgr : StateManager S) (stored : S) :
    S × Except GenesisError Unit :=
  seedGenesisAccounts env mgr stored

end RollupX.Executor
