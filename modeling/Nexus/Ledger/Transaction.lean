import Nexus.Operation.Contract

/-!
# Transactions

The transaction of a signature chain: a list of contracts with the ledger fields
that link it to its predecessor.  Reading a contract of a transaction binds it
to the transaction, and hands out a copy with its cursors at the beginning.
-/

namespace Nexus.Ledger

open Nexus.Lib.Bytes
open Nexus.Lib.Checked
open Nexus.Util
open Nexus.Register
open Nexus.Operation

/-- Transaction type bytes. -/
def TRITIUM : UInt8 := 0x01
def LEGACY : UInt8 := 0x02

structure Transaction where
  vContracts : List Contract := []
  nVersion : UInt32 := 0
  nSequence : UInt32 := 0
  nTimestamp : UInt64 := 0
  hashNext : Uint256 := 0
  hashRecovery : Uint256 := 0
  hashGenesis : Uint256 := 0
  hashPrevTx : Uint512 := 0
  nKeyType : UInt8 := 0
  nNextType : UInt8 := 0
  vchPubKey : List UInt8 := []
  vchSig : List UInt8 := []
  deriving DecidableEq, Repr

/-- The serialized streams of a contract. -/
def contractBytes (contract : Contract) : List UInt8 :=
  serializeBytes contract.ssOperation.vchData ++ serializeBytes contract.ssCondition.vchData ++
    serializeBytes contract.ssRegister.vchData

namespace Transaction

/-- The serialized fields under `SER_GETHASH`, where key and signature are left out. -/
def hashBytes (tx : Transaction) : List UInt8 :=
  writeCompactSize tx.vContracts.length ++ tx.vContracts.flatMap contractBytes ++
    FixedWidth.encode tx.nVersion ++ FixedWidth.encode tx.nSequence ++
    FixedWidth.encode tx.nTimestamp ++ FixedWidth.encode tx.hashNext ++
    FixedWidth.encode tx.hashRecovery ++ FixedWidth.encode tx.hashGenesis ++
    FixedWidth.encode tx.hashPrevTx ++ FixedWidth.encode tx.nKeyType ++
    FixedWidth.encode tx.nNextType

def GetHash (rt : Runtime) (tx : Transaction) : Uint512 :=
  SetType (rt.SK512 tx.hashBytes) TRITIUM

/-- `operator[]` for reading: the contract bound to the transaction.  A copy of a
contract starts with its cursors at the beginning. -/
def contract (rt : Runtime) (tx : Transaction) (n : UInt32) : Result Contract := do
  let contract ← demand tx.vContracts[n.toNat]? (.exception "contract read out of bounds")
  return { contract.reset with
    hashCaller := tx.hashGenesis
    nTimestamp := tx.nTimestamp
    hashTx := tx.GetHash rt
    nVersion := tx.nVersion }

end Transaction

end Nexus.Ledger
