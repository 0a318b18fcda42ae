import RollupX.Model.Contracts.Bridge

/-! The Groth16 verifier (`contracts/contracts/verifiers/RealVerifier.sol`,
`contracts/contracts/libraries/Pairing.sol` and `Constants.sol`), over the precompiled
contracts for the curve. -/

namespace RollupX.Contracts

namespace Constants

def snarkScalarField : ℕ :=
  21888242871839275222246405745257275088548364400416034343698204186575808495617

def primeQ : ℕ :=
  21888242871839275222246405745257275088696311157297823662689037894645226208583

end Constants

inductive VerifierRevert where
  | verifierGteSnarkScalarField
  | pairingAddFailed
  | pairingMulFailed
  | pairingOpcodeFailed
  deriving DecidableEq, Repr

/-! ## The curve -/

structure G1Point where
  x : Uint256
  y : Uint256
  deriving DecidableEq, Repr

structure G2Point where
  x : Uint256 × Uint256
  y : Uint256 × Uint256
  deriving DecidableEq, Repr

/-- The contracts at the addresses 6, 7 and 8, on the words they are called with; `none` where
the call fails. -/
structure Precompiles where
  ecAdd : List Uint256 → Option G1Point
  ecMul : List Uint256 → Option G1Point
  ecPairing : List Uint256 → Option Uint256

namespace Pairing

def orRevert {α : Type} (revert : VerifierRevert) : Option α → Except VerifierRevert α
  | some result => .ok result
  | none => .error revert

def negate (p : G1Point) : G1Point :=
  if p.x = 0 ∧ p.y = 0 then ⟨0, 0⟩
  else ⟨p.x, BitVec.ofNat 256 (Constants.primeQ - p.y.toNat % Constants.primeQ)⟩

def plus (pre : Precompiles) (p₁ p₂ : G1Point) : Except VerifierRevert G1Point :=
  orRevert .pairingAddFailed (pre.ecAdd [p₁.x, p₁.y, p₂.x, p₂.y])

def scalarMul (pre : Precompiles) (p : G1Point) (s : Uint256) : Except VerifierRevert G1Point :=
  orRevert .pairingMulFailed (pre.ecMul [p.x, p.y, s])

def pairing (pre : Precompiles) (points : List (G1Point × G2Point)) :
    Except VerifierRevert Bool := do
  let input := points.flatMap fun (p₁, p₂) => [p₁.x, p₁.y, p₂.x.1, p₂.x.2, p₂.y.1, p₂.y.2]
  let out ← orRevert .pairingOpcodeFailed (pre.ecPairing input)
  pure (out != 0)

end Pairing

/-! ## The verifier -/

namespace RealVerifier

structure VerifyingKey where
  alfa1 : G1Point
  beta2 : G2Point
  gamma2 : G2Point
  delta2 : G2Point
  ic : List G1Point

def verifyingKey : VerifyingKey where
  alfa1 := ⟨19653235966401989816864491462017406529110581938577150188451447329893704720169,
    13008246822243593656322132252213975159948508750611636271140860124000885034827⟩
  beta2 := ⟨(20181714086087284274513575734039800408935005334821172580620385175659085744300,
      12285379448060744572373693768390304801984785200522784264202516825521967984381),
    (1668480078190439365952843839040836164174790853850075719227640754772596906191,
      16693671663319739108928937924167460066340609924825209768462698565792846404425)⟩
  gamma2 := ⟨(17825177573485518853308894222597964956018685441930207792795785903784065395669,
      8713759399720148109183275351514947181762536586683198754910959833101348605530),
    (15470325608483369235472735414774789341718578729569018286442683077157074577230,
      343785599740725139408264406200576217714907969867538921002487699313564244503)⟩
  delta2 := ⟨(7906741351610419496877342830300726794549578660974514638272084357471221678493,
      15547621645864541430301184085476560719320674882102324347796527923028471867361),
    (12362777137443568022239269545409139871206368215358113535815590610869089173401,
      20904409981812296971977380133092784554492925954269502023146628769080534610261)⟩
  ic := [
    ⟨11249507495662698899265669139159192696888520903869720289070074571944422974516,
      10988251287812921925444947250581460247129331140350133376378788000132061254618⟩,
    ⟨21507747301119000992088367649076775671715617536056950066395861228395011383956,
      1817225819321218031444741247811581335750147776828051976088229212335827611763⟩,
    ⟨3926443225669847873907836154002539958909080131413062058419064458021711405708,
      12905095909219643478880896955376224154734007930258953581511411030592409845053⟩,
    ⟨12620638117016892520539620385565016812271521551772961093427847665943823297948,
      6052764783237730725967690762521203646058143214119557453401298935195998609694⟩,
    ⟨20008626605309389978832451055999411738137247564665401674832280561790159506027,
      7482188558501874318192664007444957281113776432548764000626549514150225082564⟩]

/-- One iteration of the loop over the inputs. -/
def addInput (pre : Precompiles) (vkX : G1Point) (term : G1Point × Uint256) :
    Except VerifierRevert G1Point := do
  if Constants.snarkScalarField ≤ term.2.toNat then throw .verifierGteSnarkScalarField
  let product ← Pairing.scalarMul pre term.1 term.2
  Pairing.plus pre vkX product

def verifyProof (pre : Precompiles) (points : ProofPoints) (input : List Uint256) :
    Except VerifierRevert Bool := do
  let vk := verifyingKey
  let vkX ← Pairing.plus pre ⟨0, 0⟩ (vk.ic.headD ⟨0, 0⟩)
  let vkX ← (vk.ic.tail.zip input).foldlM (addInput pre) vkX
  Pairing.pairing pre [(Pairing.negate ⟨points.a.1, points.a.2⟩, ⟨points.b.1, points.b.2⟩),
    (vk.alfa1, vk.beta2), (vkX, vk.gamma2), (⟨points.c.1, points.c.2⟩, vk.delta2)]

end RealVerifier

end RollupX.Contracts
