import Mathlib.Data.Finset.Card
import Nexus.Ledger.Merkle
import Nexus.Ledger.Pools
import Nexus.Legacy.Transaction

/-!
# Checking a block

`TritiumBlock::Check` looks at a block by itself: its channel and its times, its producers, and its
transactions as the pool and the disk have them.  Transactions that are not found are left in the block.
-/

namespace Nexus.Ledger

open Nexus.Lib.Bytes
open Nexus.Lib.Checked
open Nexus.Util
open Nexus.LLD

/-- What checking a block calls. -/
structure CheckRuntime (σ τ : Type) extends AcceptRuntime σ τ where
  GetSerializeSize : TritiumBlock → Nat
  /-- The time-locks of `timelocks.h`. -/
  BlockVersionActive : UInt64 → UInt32 → Bool
  NetworkActive : UInt64 → Bool
  ChannelActive : UInt64 → UInt32 → Bool
  /-- `Transaction::Check` of a producer. -/
  CheckProducer : Transaction → Result Bool
  VerifyWork : TritiumBlock → Result Bool
  /-- `ReadTx` of a legacy transaction with `FLAGS::MEMPOOL`, and whether it is in conflict. -/
  ReadLegacy : σ → τ → Uint512 → Option (Legacy.Transaction × Bool)
  CheckTransaction : Legacy.Transaction → Bool
  IsFinal : Legacy.Transaction → UInt32 → UInt64 → Bool
  /-- `LLC::SK512` of two hashes. -/
  Join : Uint512 → Uint512 → Uint512
  /-- `VerifySignature` with the key of a producer, by its type. -/
  VerifySignature : UInt8 → TritiumBlock → Transaction → Result Bool

namespace SIGNATURE

def FALCON : UInt8 := 0x01
def BRAINPOOL : UInt8 := 0x02

end SIGNATURE

/-- A block with the fields that only `Check` reads. -/
structure CheckedBlock extends TritiumBlock where
  ssSystem : List UInt8 := []
  vMissing : List (UInt8 × Uint512) := []

/-- What the loop over the transactions has gathered. -/
structure Checking where
  setUnique : Finset Uint512 := ∅
  vHashes : List Uint512 := []
  /-- The last transaction of each genesis. -/
  mapLast : Uint256 → Option Uint512 := fun _ => none
  fConflicted : Bool
  vMissing : List (UInt8 × Uint512)

namespace TritiumBlock

variable {σ τ : Type} (rt : CheckRuntime σ τ) (block : TritiumBlock)

/-! ## The block and its producers -/

/-- `SignatureHash`. -/
def SignatureHash (rt : LedgerRuntime) (block : TritiumBlock) : Uint1024 :=
  rt.SK1024 (block.headerBytes ++ FixedWidth.encode block.nNonce ++ FixedWidth.encode block.nTime ++
    serializeBytes block.vOffsets)

def GetHash (rt : LedgerRuntime) (block : TritiumBlock) : Uint1024 :=
  if block.nVersion < 5 then block.ProofHash rt else block.SignatureHash rt

def checkHeader (db : Records) : Result Unit := do
  reject ((db.ReadBlock (block.GetHash rt.toLedgerRuntime)).isSome = true) (.error "already have block")
  reject (Legacy.MAX_BLOCK_SIZE < rt.GetSerializeSize block) (.error "size limits failed")
  reject ((if rt.fPrivate then 3 else 2) < block.nChannel) (.error "channel out of range")
  reject (block.nVersion < 8 ∧ rt.unifiedtimestamp + rt.maxdrift * 60 < block.nTime)
    (.error "block timestamp too far in the future")
  reject (8 ≤ block.nVersion ∧ rt.unifiedtimestamp + rt.maxdrift < block.nTime)
    (.error "block timestamp too far in the future")
  reject (rt.BlockVersionActive block.nTime block.nVersion = false)
    (.error "block created with invalid version")
  reject (rt.NetworkActive block.nTime = false) (.error "block created before network time-lock")
  reject (rt.ChannelActive block.nTime block.nChannel = false)
    (.error "block created before channel time-lock")

/-- A producer by itself. -/
def checkProducer (tx : Transaction) : Result Unit := do
  reject (tx.nTimestamp + (if block.nVersion < 4 then 1200 else 3600) < block.nTime)
    (.error "producer transaction timestamp is too early")
  let fCheck ← rt.CheckProducer tx
  reject (fCheck = false) (.error "producer transaction is invalid")

/-- The producers of a proof of stake. -/
def checkCoinStake : Result Unit := do
  if block.nVersion < 9 then
    let fSolo ← isSolo block.producer
    reject (fSolo = false) (.error "producer transaction must be trust/genesis for proof of stake")
    block.checkStakeTime rt.toLedgerRuntime "coinstake" block.producer
  else block.checkStakeProducers rt.toLedgerRuntime

/-- The one producer of a block that is not of a proof of stake. -/
def checkOne (mode kind : String) (is : Transaction → Result Bool) : Result Unit := do
  reject (1 < block.producers.length)
    (.error ("cannot have more than one producer transaction for " ++ mode))
  let txProducer ← demand block.producers.head? (.exception "vector::operator[]")
  let fKind ← is txProducer
  reject (fKind = false) (.error ("producer transaction has to be " ++ kind))

/-- The work is not verified while the node synchronizes. -/
def checkWork (mode : String) : Result Unit := do
  if rt.Synchronizing = false then
    let fWork ← rt.VerifyWork block
    reject (fWork = false) (.error ("invalid " ++ mode))

/-- `Check`, up to the transactions. -/
def checkProducers (db : Records) : Result Unit := do
  block.checkHeader rt db
  reject (block.producers = []) (.error "missing producer transaction")
  block.producers.forM (checkProducer rt block)
  if block.nChannel = CHANNEL.STAKE then
    reject (block.nNonce = 0) (.error "proof of stake can't have Nonce value of zero")
    block.checkCoinStake rt
    block.checkWork rt "proof of stake"
  else if block.IsProofOfWork then
    block.checkOne "proof of work" "coinbase for proof of work" (·.IsCoinBase)
    reject (block.nChannel = CHANNEL.PRIME ∧ block.vOffsets = [])
      (.error "prime block requires valid offsets")
    reject (block.nChannel ≠ CHANNEL.PRIME ∧ block.vOffsets ≠ [])
      (.error "offsets included in non prime block")
    block.checkWork rt "proof of work"
  else if block.IsPrivate then
    block.checkOne "private mode block" "authorize for private mode" (·.IsPrivate)
  else throw (.error "unknown block type")

/-! ## The transactions -/

/-- A transaction comes behind the last one of its genesis. -/
def checkSequence (mapLast : Uint256 → Option Uint512) (tx : Transaction) (e : Fault) : Result Unit :=
  reject ((mapLast tx.hashGenesis).any fun hashLast => tx.hashPrevTx ≠ hashLast) e

def checkLegacy (tx : Legacy.Transaction) : Result Unit := do
  reject (tx.IsCoinBase ∨ tx.IsCoinStake)
    (.error "cannot have non-producer coinbase / coinstake transaction")
  reject (block.nTime < tx.nTime.toUInt64)
    (.error "block timestamp earlier than transaction timestamp")
  reject (rt.CheckTransaction tx = false) (.error "check transaction failed.")
  reject (rt.IsFinal tx block.nHeight block.nTime = false) (.error "contains a non-final transaction")

def checkTritium (x : Checking) (tx : Transaction) : Result Unit := do
  let fProducer ← isProducer tx
  reject fProducer (.error "cannot have non-producer coinbase / coinstake transaction")
  checkSequence x.mapLast tx (.error "transaction in sigchain out of sequence")

/-- One turn of the loop, with what it leaves. -/
def checkTx (node : Node σ) (legacy : τ) (x : Checking) (proof : UInt8 × Uint512) :
    Checking × Result Unit :=
  let x := { x with setUnique := insert proof.2 x.setUnique, vHashes := x.vHashes ++ [proof.2] }
  if proof.1 = TRANSACTION.LEGACY then
    match rt.ReadLegacy node.side legacy proof.2 with
    | none => ({ x with vMissing := x.vMissing ++ [proof] }, .ok ())
    | some (tx, fConflict) =>
        ({ x with fConflicted := x.fConflicted || fConflict }, block.checkLegacy rt tx)
  else if proof.1 = TRANSACTION.TRITIUM then
    match readTx node proof.2 with
    | none => ({ x with vMissing := x.vMissing ++ [proof] }, .ok ())
    | some (tx, fConflict) =>
        ({ x with
            fConflicted := x.fConflicted || fConflict
            mapLast := Function.update x.mapLast tx.hashGenesis (some (tx.GetHash rt.toRuntime)) },
          checkTritium x tx)
  else (x, .error (.error "unknown transaction type"))

def checkTxs (node : Node σ) (legacy : τ) : List (UInt8 × Uint512) → Checking → Checking × Result Unit
  | [], x => (x, .ok ())
  | proof :: vtx, x =>
      match block.checkTx rt node legacy x proof with
      | (x, .error e) => (x, .error e)
      | (x, .ok _) => checkTxs node legacy vtx x

/-- A producer in the list of the transactions. -/
def pushProducer (x : Checking) (tx : Transaction) : Result Checking := do
  checkSequence x.mapLast tx (.error "producer transaction out of sequence")
  let hashProducer := tx.GetHash rt.toRuntime
  return { x with
    setUnique := insert hashProducer x.setUnique
    vHashes := x.vHashes ++ [hashProducer] }

/-- The signature of the block finder, which is the last producer. -/
def checkSignature : Result Unit := do
  let txProducer ← demand block.producers.getLast? (.exception "vector::back")
  reject (txProducer.nKeyType ≠ SIGNATURE.FALCON ∧ txProducer.nKeyType ≠ SIGNATURE.BRAINPOOL)
    (.error "unknown signature type")
  let fSignature ← rt.VerifySignature txProducer.nKeyType block txProducer
  reject (fSignature = false) (.error "bad block signature")

/-- `Check`, behind the loop.  The operations of signatures are not counted, so they are none too many. -/
def checkHashes (x : Checking) : Result Unit := do
  let x ← block.producers.foldlM (pushProducer rt) x
  reject ((block.producers.map (·.hashGenesis)).toFinset.card ≠ block.producers.length)
    (.error "duplicate user genesis in block producers")
  reject (x.vMissing ≠ []) (.error "missing transactions")
  reject (x.setUnique.card ≠ x.vHashes.length) (.error "duplicate transaction")
  reject (block.hashMerkleRoot ≠ (Merkle.BuildMerkleTree rt.Join {} x.vHashes).2)
    (.error "hashMerkleRoot mismatch")
  if rt.Synchronizing = false then block.checkSignature rt

end TritiumBlock

/-- `Check`, with the missing transactions and the conflict that it leaves in the block. -/
def CheckedBlock.Check {σ τ : Type} (rt : CheckRuntime σ τ) (node : Node σ) (legacy : τ)
    (block : CheckedBlock) : Checking × Result Unit :=
  let x : Checking := { fConflicted := block.fConflicted, vMissing := block.vMissing }
  match block.checkProducers rt node.db with
  | .error e => (x, .error e)
  | .ok _ =>
      if block.ssSystem ≠ [] then (x, .error (.error "cannot allocate system memory"))
      else
        match block.checkTxs rt node legacy block.vtx x with
        | (x, .error e) => (x, .error e)
        | (x, .ok _) => (x, block.checkHashes rt x)

end Nexus.Ledger
