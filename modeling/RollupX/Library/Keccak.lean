import RollupX.Library.Bytes

/-! Keccak-256 on byte lists, with lanes as naturals below `2 ^ 64`. The lane at `(x, y)` is
at position `x + 5 * y` of the state. -/

namespace Keccak

def modulus : ℕ := 18446744073709551616

def rotateLeft (x n : ℕ) : ℕ :=
  ((x <<< n) % modulus) ||| (x >>> (64 - n))

def roundConstants : List ℕ :=
  [0x0000000000000001, 0x0000000000008082, 0x800000000000808a, 0x8000000080008000,
    0x000000000000808b, 0x0000000080000001, 0x8000000080008081, 0x8000000000008009,
    0x000000000000008a, 0x0000000000000088, 0x0000000080008009, 0x000000008000000a,
    0x000000008000808b, 0x800000000000008b, 0x8000000000008089, 0x8000000000008003,
    0x8000000000008002, 0x8000000000000080, 0x000000000000800a, 0x800000008000000a,
    0x8000000080008081, 0x8000000000008080, 0x0000000080000001, 0x8000000080008008]

def offsets : List ℕ :=
  [0, 1, 62, 28, 27, 36, 44, 6, 55, 20, 3, 10, 43, 25, 39, 41, 45, 15, 21, 8, 18, 2, 61, 56,
    14]

def positions : List (ℕ × ℕ) :=
  (List.range 25).map fun i => (i % 5, i / 5)

def lane (state : List ℕ) (x y : ℕ) : ℕ :=
  state.getD (x % 5 + 5 * y) 0

def theta (state : List ℕ) : List ℕ :=
  let column := (List.range 5).map fun x =>
    lane state x 0 ^^^ lane state x 1 ^^^ lane state x 2 ^^^ lane state x 3 ^^^ lane state x 4
  positions.map fun (x, y) =>
    lane state x y ^^^ lane column (x + 4) 0 ^^^ rotateLeft (lane column (x + 1) 0) 1

/-- Both lane permutations at once: `(x, y)` receives the rotated lane of `(x + 3y, x)`. -/
def rhoPi (state : List ℕ) : List ℕ :=
  positions.map fun (x, y) =>
    rotateLeft (lane state (x + 3 * y) x) (lane offsets (x + 3 * y) x)

def chi (state : List ℕ) : List ℕ :=
  positions.map fun (x, y) =>
    lane state x y ^^^ ((modulus - 1 - lane state (x + 1) y) &&& lane state (x + 2) y)

def round (state : List ℕ) (constant : ℕ) : List ℕ :=
  match chi (rhoPi (theta state)) with
  | [] => []
  | first :: rest => (first ^^^ constant) :: rest

def permute (state : List ℕ) : List ℕ :=
  roundConstants.foldl round state

def rate : ℕ := 136

def pad (message : List UInt8) : List UInt8 :=
  match rate - message.length % rate with
  | 1 => message ++ [0x81]
  | n => message ++ 0x01 :: List.replicate (n - 2) 0 ++ [0x80]

def absorb : ℕ → List UInt8 → List ℕ → List ℕ
  | 0, _, state => state
  | n + 1, bytes, state =>
    let block := (List.range 25).map fun i =>
      if i < 17 then Bytes.ofLe ((bytes.drop (8 * i)).take 8) else 0
    absorb n (bytes.drop rate) (permute (List.zipWith (· ^^^ ·) state block))

def hash (message : List UInt8) : Vector UInt8 32 :=
  let padded := pad message
  let state := absorb (padded.length / rate) padded (List.replicate 25 0)
  ⟨([lane state 0 0, lane state 1 0, lane state 2 0, lane state 3 0].flatMap
    (Bytes.le 8)).toArray, by simp⟩

end Keccak
