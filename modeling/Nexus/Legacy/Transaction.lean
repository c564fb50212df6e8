import Nexus.Ledger.Chain

/-!
# Legacy transactions

The transactions of the older ledger: inputs that spend outputs of earlier
transactions, and outputs with a value and a script.  A coinstake has its trust
data in the script of its first input, behind eight bytes that mark it, and its
trust key in the script of its one output.
-/

namespace Nexus.LLD

def TxOut.IsEmpty (txout : TxOut) : Prop := txout.nValue = 0 ∧ txout.scriptPubKey = []

instance (txout : TxOut) : Decidable txout.IsEmpty := by
  unfold TxOut.IsEmpty
  infer_instance

end Nexus.LLD

namespace Nexus.Legacy

open Nexus.Lib.Bytes
open Nexus.Lib.Checked
open Nexus.Util
open Nexus.Register
open Nexus.Ledger
open Nexus.LLD

abbrev Script := List UInt8

structure OutPoint where
  hash : Uint512
  n : UInt32
  deriving DecidableEq, Repr

/-- `IsNull`: `n` is compared with -1. -/
def OutPoint.IsNull (prevout : OutPoint) : Prop := prevout.hash = 0 ∧ prevout.n = 0xffffffff

instance (prevout : OutPoint) : Decidable prevout.IsNull := by
  unfold OutPoint.IsNull
  infer_instance

structure TxIn where
  prevout : OutPoint
  scriptSig : Script := []
  nSequence : UInt32 := 0xffffffff
  deriving DecidableEq, Repr

/-- `IsStakeSig`: the script begins with the Fibonacci series. -/
def TxIn.IsStakeSig (txin : TxIn) : Prop := txin.scriptSig.take 8 = [1, 2, 3, 5, 8, 13, 21, 34]

instance (txin : TxIn) : Decidable txin.IsStakeSig := by
  unfold TxIn.IsStakeSig
  infer_instance

structure Transaction where
  nVersion : Int32 := 2
  nTime : UInt32 := 0
  vin : List TxIn := []
  vout : List TxOut := []
  nLockTime : UInt32 := 0
  deriving DecidableEq, Repr

/-! ## Amounts -/

def COIN : UInt64 := 1000000
def MIN_TXOUT_AMOUNT : UInt64 := 1

def MaxTxOut : Int64 := 50000000000000

def MoneyRange (nValue : Int64) : Prop := 0 ≤ nValue ∧ nValue ≤ MaxTxOut

instance (nValue : Int64) : Decidable (MoneyRange nValue) := by
  unfold MoneyRange
  infer_instance

def TRANSACTION_CURRENT_VERSION : Int32 := 2

/-- `TAO::Ledger::MAX_BLOCK_SIZE`. -/
def MAX_BLOCK_SIZE : Nat := 2097152

/-- `ExtractRegister`: a push of 32 bytes and `OP_RETURN` name a register. -/
def ExtractRegister (scriptPubKey : Script) : Option Uint256 :=
  if scriptPubKey.length = 34 ∧ scriptPubKey[0]? = some 32 ∧
      scriptPubKey[33]? = some LLD.OP_RETURN then
    some (FixedWidth.decode ((scriptPubKey.drop 1).take 32))
  else none

namespace Transaction

variable (tx : Transaction)

def inBytes (txin : TxIn) : List UInt8 :=
  FixedWidth.encode txin.prevout.hash ++ FixedWidth.encode txin.prevout.n ++
    serializeBytes txin.scriptSig ++ FixedWidth.encode txin.nSequence

def outBytes (txout : TxOut) : List UInt8 :=
  FixedWidth.encode txout.nValue ++ serializeBytes txout.scriptPubKey

/-- The serialized transaction. -/
def bytes : List UInt8 :=
  FixedWidth.encode tx.nVersion.toUInt32 ++ FixedWidth.encode tx.nTime ++
    writeCompactSize tx.vin.length ++ tx.vin.flatMap inBytes ++
    writeCompactSize tx.vout.length ++ tx.vout.flatMap outBytes ++ FixedWidth.encode tx.nLockTime

def GetHash (rt : Runtime) : Uint512 :=
  if 2 ≤ tx.nVersion then SetType (rt.SK512 tx.bytes) LEGACY else rt.SK512 tx.bytes

/-! ## Types of transactions -/

def IsCoinBase : Prop :=
  tx.vin.length = 1 ∧ (∀ txin ∈ tx.vin.head?, txin.prevout.IsNull) ∧ 1 ≤ tx.vout.length

def IsCoinStake : Prop :=
  1 < tx.vin.length ∧ (∀ txin ∈ tx.vin.head?, txin.IsStakeSig) ∧
    (∀ txin ∈ tx.vin.tail, ¬ txin.prevout.IsNull) ∧ tx.vout.length = 1

instance : Decidable tx.IsCoinBase := by
  unfold IsCoinBase
  infer_instance

instance : Decidable tx.IsCoinStake := by
  unfold IsCoinStake
  infer_instance

/-- A coinstake whose first input is null. -/
def IsGenesis : Prop := tx.IsCoinStake ∧ ∀ txin ∈ tx.vin.head?, txin.prevout.IsNull

def IsTrust : Prop :=
  tx.IsCoinStake ∧ ∀ txin ∈ tx.vin.head?,
    ¬ txin.prevout.IsNull ∧ txin.prevout.hash ≠ 0 ∧ txin.prevout.n = 0

instance : Decidable tx.IsGenesis := by
  unfold IsGenesis
  infer_instance

instance : Decidable tx.IsTrust := by
  unfold IsTrust
  infer_instance

/-- The script of the first input. -/
def stakeScript : Script := (tx.vin.head?.map TxIn.scriptSig).getD []

/-- The inputs that are spent: the first one of a coinstake only marks it. -/
def spending : List (TxIn × Nat) := tx.vin.zipIdx.drop (if tx.IsCoinStake then 1 else 0)

/-! ## Values -/

def addValue (nValueOut : Int64) (txout : TxOut) : Result Int64 := do
  let nValueOut := nValueOut + txout.nValue
  reject (¬ MoneyRange txout.nValue ∨ ¬ MoneyRange nValueOut)
    (.exception "Transaction::GetValueOut() : value out of range")
  return nValueOut

def GetValueOut : Result UInt64 := (tx.vout.foldlM addValue 0).map Int64.toUInt64

/-! ## Trust -/

/-- `ExtractTrust`: the last block of the key, the sequence and the score. -/
def ExtractTrust : Result (Uint1024 × UInt32 × UInt32) := do
  reject (¬ tx.IsCoinStake) (.error "not proof of stake")
  reject (tx.stakeScript.length ≠ 144) (.error "script not 144 bytes ")
  let (hashLastBlock, ss) ← (Stream.mk (tx.stakeScript.drop 8) 0).extract Uint1024
  let (nSequence, ss) ← ss.extract UInt32
  let (nTrustScore, _) ← ss.extract UInt32
  return (hashLastBlock, nSequence, nTrustScore)

/-! ## Checks -/

/-- One output is checked, and added to the total. -/
def checkOut (nValueOut : Int64) (txout : TxOut) : Result Int64 := do
  reject (txout.IsEmpty ∧ ¬ tx.IsCoinBase ∧ ¬ tx.IsCoinStake)
    (.error "txout empty for user transaction")
  -- The minimum is unsigned, and a negative value is converted to compare with it.
  reject (¬ txout.IsEmpty ∧ txout.nValue.toUInt64 < MIN_TXOUT_AMOUNT)
    (.error "txout.nValue below minimum")
  reject (MaxTxOut < txout.nValue) (.error "txout.nValue too high")
  let nValueOut := nValueOut + txout.nValue
  reject (¬ MoneyRange nValueOut) (.error "txout total out of range")
  return nValueOut

def CheckTransaction (rt : LedgerRuntime) : Result Unit := do
  reject (tx.nTime.toUInt64 < rt.StartBlockTimelock 7 ∧
    tx.nVersion ≠ TRANSACTION_CURRENT_VERSION - 1) (.error "invalid transaction version ")
  reject (rt.StartBlockTimelock 7 + 3600 ≤ tx.nTime.toUInt64 ∧
    tx.nVersion ≠ TRANSACTION_CURRENT_VERSION) (.error "invalid transaction version ")
  reject (tx.vin = []) (.error "vin empty")
  reject (tx.vout = []) (.error "vout empty")
  reject (MAX_BLOCK_SIZE < tx.bytes.length) (.error "size limits failed")
  let _ ← tx.vout.foldlM tx.checkOut 0
  reject (¬ (tx.vin.map TxIn.prevout).Nodup) (.error "")
  reject (¬ tx.IsCoinBase ∧ ¬ tx.IsCoinStake ∧ ∃ txin ∈ tx.vin, txin.prevout.IsNull)
    (.error "prevout is null")

end Transaction

end Nexus.Legacy
