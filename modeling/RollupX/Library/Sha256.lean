import RollupX.Library.Bytes

/-! SHA-256 on byte lists. Words are naturals below `2 ^ 32`, so that the function can be
evaluated inside a proof. -/

namespace Sha256

/-- `f x`, with `x` evaluated first. -/
def strict {α : Type*} (x : ℕ) (f : ℕ → α) : α :=
  match x with
  | 0 => f 0
  | n + 1 => f (n + 1)

def modulus : ℕ := 4294967296

def rotateRight (x n : ℕ) : ℕ :=
  (x >>> n) ||| ((x <<< (32 - n)) % modulus)

def roundConstants : List ℕ :=
  [0x428a2f98, 0x71374491, 0xb5c0fbcf, 0xe9b5dba5, 0x3956c25b, 0x59f111f1, 0x923f82a4,
    0xab1c5ed5, 0xd807aa98, 0x12835b01, 0x243185be, 0x550c7dc3, 0x72be5d74, 0x80deb1fe,
    0x9bdc06a7, 0xc19bf174, 0xe49b69c1, 0xefbe4786, 0x0fc19dc6, 0x240ca1cc, 0x2de92c6f,
    0x4a7484aa, 0x5cb0a9dc, 0x76f988da, 0x983e5152, 0xa831c66d, 0xb00327c8, 0xbf597fc7,
    0xc6e00bf3, 0xd5a79147, 0x06ca6351, 0x14292967, 0x27b70a85, 0x2e1b2138, 0x4d2c6dfc,
    0x53380d13, 0x650a7354, 0x766a0abb, 0x81c2c92e, 0x92722c85, 0xa2bfe8a1, 0xa81a664b,
    0xc24b8b70, 0xc76c51a3, 0xd192e819, 0xd6990624, 0xf40e3585, 0x106aa070, 0x19a4c116,
    0x1e376c08, 0x2748774c, 0x34b0bcb5, 0x391c0cb3, 0x4ed8aa4a, 0x5b9cca4f, 0x682e6ff3,
    0x748f82ee, 0x78a5636f, 0x84c87814, 0x8cc70208, 0x90befffa, 0xa4506ceb, 0xbef9a3f7,
    0xc67178f2]

structure Registers where
  (a b c d e f g h : ℕ)

def Registers.start : Registers :=
  ⟨0x6a09e667, 0xbb67ae85, 0x3c6ef372, 0xa54ff53a, 0x510e527f, 0x9b05688c, 0x1f83d9ab,
    0x5be0cd19⟩

def Registers.words : Registers → List ℕ
  | ⟨a, b, c, d, e, f, g, h⟩ => [a, b, c, d, e, f, g, h]

def round (k w : ℕ) : Registers → Registers
  | ⟨a, b, c, d, e, f, g, h⟩ =>
    let sum₁ := rotateRight e 6 ^^^ rotateRight e 11 ^^^ rotateRight e 25
    let choice := (e &&& f) ^^^ ((modulus - 1 - e) &&& g)
    let sum₀ := rotateRight a 2 ^^^ rotateRight a 13 ^^^ rotateRight a 22
    let majority := (a &&& b) ^^^ (a &&& c) ^^^ (b &&& c)
    strict ((h + sum₁ + choice + k + w) % modulus) fun t₁ =>
    strict ((d + t₁) % modulus) fun newE =>
    strict ((t₁ + sum₀ + majority) % modulus) fun newA =>
    ⟨newA, a, b, c, newE, e, f, g⟩

/-- The word that enters the schedule when `w` leaves it and `ws` remains. -/
def scheduled (w : ℕ) (ws : List ℕ) : ℕ :=
  let x := ws.getD 0 0
  let y := ws.getD 13 0
  let s₀ := rotateRight x 7 ^^^ rotateRight x 18 ^^^ (x >>> 3)
  let s₁ := rotateRight y 17 ^^^ rotateRight y 19 ^^^ (y >>> 10)
  (w + s₀ + ws.getD 8 0 + s₁) % modulus

/-- The rounds of one block. The list holds the next sixteen words of the schedule. -/
def rounds : List ℕ → List ℕ → Registers → Registers
  | k :: ks, w :: ws, r => strict (scheduled w ws) fun next =>
    rounds ks (ws ++ [next]) (round k w r)
  | _, _, r => r

def compress (r : Registers) (block : List ℕ) : Registers :=
  match r, rounds roundConstants block r with
  | ⟨a, b, c, d, e, f, g, h⟩, ⟨a', b', c', d', e', f', g', h'⟩ =>
    strict ((a + a') % modulus) fun a => strict ((b + b') % modulus) fun b =>
    strict ((c + c') % modulus) fun c => strict ((d + d') % modulus) fun d =>
    strict ((e + e') % modulus) fun e => strict ((f + f') % modulus) fun f =>
    strict ((g + g') % modulus) fun g => strict ((h + h') % modulus) fun h =>
    ⟨a, b, c, d, e, f, g, h⟩

def pad (message : List UInt8) : List UInt8 :=
  message ++ 0x80 :: List.replicate ((119 - message.length % 64) % 64) 0 ++
    Bytes.be 8 (8 * message.length)

def toWords : List UInt8 → List ℕ
  | a :: b :: c :: d :: rest => strict (Bytes.ofBe [a, b, c, d]) fun w => w :: toWords rest
  | _ => []

def absorb : ℕ → List ℕ → Registers → Registers
  | 0, _, r => r
  | n + 1, ws, r => absorb n (ws.drop 16) (compress r (ws.take 16))

def digest (message : List UInt8) : Registers :=
  let padded := pad message
  absorb (padded.length / 64) (toWords padded) .start

def hash (message : List UInt8) : Vector UInt8 32 :=
  ⟨((digest message).words.flatMap (Bytes.be 4)).toArray, by simp [Registers.words]⟩

example : hash [97, 98, 99] =
    #v[0xba, 0x78, 0x16, 0xbf, 0x8f, 0x01, 0xcf, 0xea, 0x41, 0x41, 0x40, 0xde, 0x5d, 0xae,
      0x22, 0x23, 0xb0, 0x03, 0x61, 0xa3, 0x96, 0x17, 0x7a, 0x9c, 0xb4, 0x10, 0xff, 0x61,
      0xf2, 0x00, 0x15, 0xad] := by decide +kernel

end Sha256
