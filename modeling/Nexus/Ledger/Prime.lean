import Nexus.Ledger.BlockState
import Nexus.Lib.Checked

/-!
# Prime clusters

The proof of work of the prime channel: a prime, and the offsets to the primes that follow it.
A block that states its offsets is checked at these numbers only, and the last four
bytes of the offsets are the fraction of the first composite number after the cluster, of
which three are read.  Without offsets the cluster is searched for.

The offsets are indexed without a check of their length; an index behind the end
is an error of its own here.
-/

namespace Nexus.Ledger

open Nexus.Lib.Bytes
open Nexus.Lib.Checked
open Nexus.Util

/-- Why a call does not return. -/
inductive Stop where
  | outOfBounds
  | outOfFuel
  deriving DecidableEq, Repr

/-- The tests of a number. -/
structure PrimeTests where
  PrimeCheck : Uint1024 → Bool
  GetFractionalDifficulty : Uint1024 → UInt32

/-- A difficulty other than `0.0`: the cluster, and the fraction that is added to it. -/
structure Difficulty where
  nClusterSize : UInt32
  nFraction : UInt32
  deriving DecidableEq, Repr

/-! ## The tests of the node -/

def nSmallPrimes : List Nat := [2, 3, 5, 7, 11, 13, 17, 19, 23, 29, 31]

/-- `SmallDivisors`: no small prime divides the number. -/
def SmallDivisors (hashTest : Uint1024) : Bool :=
  nSmallPrimes.all fun nPrime => hashTest.toNat % nPrime ≠ 0

/-- `FermatTest`: the power of two that is one for a prime. -/
def FermatTest (hashTest : Uint1024) : Uint1024 :=
  BitVec.ofNat 1024 (2 ^ (hashTest.toNat - 1) % hashTest.toNat)

def PrimeCheck (hashTest : Uint1024) : Bool := SmallDivisors hashTest && FermatTest hashTest = 1

/-- `GetFractionalDifficulty`, in numbers of 1056 bits. -/
def GetFractionalDifficulty (hashComposite : Uint1024) : UInt32 :=
  let a := hashComposite.setWidth 1056
  let b := (FermatTest hashComposite).setWidth 1056
  UInt32.ofNat ((((a - b) <<< 24) / a).toNat)

def primeTests : PrimeTests := { PrimeCheck, GetFractionalDifficulty }

/-! ## The difficulty of a cluster -/

variable (tests : PrimeTests) (vOffsets : List UInt8)

/-- `vOffsets[n]`. -/
def offsetAt (n : Nat) : Except Stop UInt8 := demand vOffsets[n]? .outOfBounds

/-- The loop over the offsets: the last number and the size of the cluster, or nothing if an
offset is too large. -/
def walkOffsets (fVerify : Bool) :
    Nat → Nat → Uint1024 → UInt32 → Except Stop (Option (Uint1024 × UInt32))
  | 0, _, hashNext, nClusterSize => .ok (some (hashNext, nClusterSize))
  | nLeft + 1, n, hashNext, nClusterSize => do
      let nOffset ← offsetAt vOffsets n
      if 12 < nOffset then return none
      else
        let hashNext := hashNext + BitVec.ofNat 1024 nOffset.toNat
        walkOffsets fVerify nLeft (n + 1) hashNext
          (if fVerify = false ∨ tests.PrimeCheck hashNext then nClusterSize + 1 else nClusterSize)

/-- `std::copy` of the offsets from the one index up to the other into `nFraction`. -/
def readFraction (nFirst nLast : UInt32) : Except Stop UInt32 := do
  reject (nLast < nFirst) .outOfBounds
  let _ ← offsetAt vOffsets nLast.toNat
  let bytes ← (List.range' nFirst.toNat (nLast.toNat - nFirst.toNat)).mapM (offsetAt vOffsets)
  return UInt32.ofNat (leNat bytes)

/-- The loop without offsets: where it ends, and the size of the cluster. -/
def scanCluster : Nat → Uint1024 → Uint1024 → UInt32 → Except Stop (Uint1024 × UInt32)
  | 0, _, _, _ => .error .outOfFuel
  | nFuel + 1, hashNext, hashLast, nClusterSize =>
      if hashNext ≤ hashLast + 12 then
        if tests.PrimeCheck hashNext then
          scanCluster nFuel (hashNext + 2) hashNext (nClusterSize + 1)
        else scanCluster nFuel (hashNext + 2) hashLast nClusterSize
      else .ok (hashNext, nClusterSize)

/-- `GetPrimeDifficulty`; nothing is `0.0`. -/
def GetPrimeDifficulty (nFuel : Nat) (hashPrime : Uint1024) (fVerify : Bool) :
    Except Stop (Option Difficulty) := do
  if fVerify ∧ tests.PrimeCheck hashPrime = false then return none
  else if vOffsets ≠ [] then
    let nSize := UInt32.ofNat vOffsets.length
    match ← walkOffsets tests vOffsets fVerify (nSize - 4).toNat 0 hashPrime 1 with
    | none => return none
    | some (hashNext, nClusterSize) =>
        let nFraction ← readFraction vOffsets (nSize - 4) (nSize - 1)
        if fVerify ∧ tests.GetFractionalDifficulty (hashNext + 14) ≠ nFraction then return none
        else return some { nClusterSize, nFraction }
  else
    let (hashNext, nClusterSize) ← scanCluster tests nFuel (hashPrime + 2) hashPrime 1
    return some { nClusterSize, nFraction := tests.GetFractionalDifficulty hashNext }

/-- The loop of `GetOffsets`: the last prime, the distance from it, and the offsets. -/
def findOffsets :
    Nat → Uint1024 → Uint1024 → UInt8 → List UInt8 → Except Stop (Uint1024 × UInt8 × List UInt8)
  | 0, _, _, _, _ => .error .outOfFuel
  | nFuel + 1, hashNext, hashLast, nOffset, vOffsets =>
      if nOffset ≤ 12 then
        if tests.PrimeCheck hashNext then
          findOffsets nFuel (hashNext + 2) hashNext 2 (vOffsets ++ [nOffset])
        else findOffsets nFuel (hashNext + 2) hashLast (nOffset + 2) vOffsets
      else .ok (hashLast, nOffset, vOffsets)

/-- `GetOffsets`, which leaves the offsets as they are for a number that is not prime. -/
def GetOffsets (nFuel : Nat) (hashPrime : Uint1024) : Except Stop (List UInt8) := do
  if tests.PrimeCheck hashPrime = false then return vOffsets
  else
    let (hashLast, nOffset, vOffsets) ← findOffsets tests nFuel (hashPrime + 2) hashPrime 2 []
    let nFraction := tests.GetFractionalDifficulty (hashLast + BitVec.ofNat 1024 nOffset.toNat)
    return vOffsets ++ FixedWidth.encode nFraction

/-! ## Proof of work -/

/-- The environment of a check of the work of a block. -/
structure WorkRuntime extends LedgerRuntime, PrimeTests where
  /-- `SetBits`, which is calculated in floating point, of a difficulty other than `0.0`. -/
  SetBits : Difficulty → UInt32
  /-- The checks of the channels other than prime. -/
  verifyOther : Block → Bool
  fSynchronizing : Bool

/-- `bnPrimeMinOrigins`. -/
def bnPrimeMinOrigins : Uint1024 := BitVec.allOnes 1024 >>> 8

/-- `bnProofOfWorkLimit` of the prime channel. -/
def bnPrimeLimit : UInt32 := 20000000

namespace Block

variable (rt : WorkRuntime) (block : Block)

/-- `GetPrime`. -/
def GetPrime : Uint1024 := block.ProofHash rt.toLedgerRuntime + BitVec.ofNat 1024 block.nNonce.toNat

/-- `GetPrimeBits` of the block. -/
def primeBits (nFuel : Nat) : Except Stop UInt32 :=
  (GetPrimeDifficulty rt.toPrimeTests block.vOffsets nFuel (block.GetPrime rt)
    (!rt.fSynchronizing)).map fun nDifficulty => (nDifficulty.map rt.SetBits).getD 0

/-- The loop that lists the offsets for the log. -/
def listOffsets (vOffsets : List UInt8) : Nat → UInt32 → Except Stop Unit
  | 0, _ => .error .outOfFuel
  | nFuel + 1, i =>
      if i.toUInt64 < UInt64.ofNat vOffsets.length - 4 then do
        let _ ← offsetAt vOffsets i.toNat
        listOffsets vOffsets nFuel (i + 1)
      else .ok ()

/-- `VerifyWork`. -/
def VerifyWork (nFuel : Nat) : Except Stop Bool := do
  if block.nChannel = CHANNEL.PRIME then
    if 5 ≤ block.nVersion ∧ block.ProofHash rt.toLedgerRuntime < bnPrimeMinOrigins then
      return false
    else
      let nPrimeBits ← block.primeBits rt nFuel
      if nPrimeBits < bnPrimeLimit then return false
      else if nPrimeBits < block.nBits then return false
      else
        listOffsets block.vOffsets nFuel 0
        return true
  else return rt.verifyOther block

end Block

end Nexus.Ledger
