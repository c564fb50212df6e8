import Nexus.Util.Serialize

/-!
# The stake pool

`Stakepool`, the pool of coinstakes for pooled staking: `Accept`, `SetProofs`,
`Remove`, `Clear` and `Select`.  What the calls read of the ledger, of the
configuration and of the validity of a transaction is given with each call; the
weighted random choice of `Select` is any sequence of numbers.
-/

namespace Nexus.Ledger.Pooled

open Nexus.Util.Serial

/-- The first operation of a coinstake. -/
inductive Op
  | TRUSTPOOL
  | GENESISPOOL
  | other
  deriving DecidableEq

/-- The fields that the pool reads of a transaction and of its first contract. -/
structure Transaction where
  hashGenesis : Nat
  hashPrevTx : Nat
  op : Op
  txProof : Nat
  txTimeBegin : UInt64
  txTimeEnd : UInt64
  nTrust : UInt64
  nPoolReward : UInt64

def Transaction.IsTrustPool (tx : Transaction) : Bool := tx.op = .TRUSTPOOL

def Transaction.IsGenesisPool (tx : Transaction) : Bool := tx.op = .GENESISPOOL

/-- The register of a trust account. -/
structure Account where
  stake : UInt64
  balance : UInt64
  nModified : UInt64

structure BlockState where
  nHeight : UInt32
  nTime : UInt64

/-- What a call reads of the ledger and of the configuration. -/
structure Env where
  Check : Transaction → Bool
  HasTx : Nat → Bool
  Verify : Transaction → Bool
  /-- `FindTrustAccount`, with `fTrust`. -/
  FindTrustAccount : Nat → Option (Account × Bool)
  ReadStake : Nat → Option Nat
  FindLastStake : Nat → Option Nat
  ReadBlock : Nat → Option BlockState
  stateBest : BlockState
  hashBestChain : Nat
  MinStakeInterval : BlockState → UInt32
  GetCoinstakeReward : UInt64 → UInt64 → UInt64 → Bool → UInt64
  GetPoolStakeFee : UInt64 → UInt64
  fPoolStaking : Bool
  /-- `StakeMinter::GetInstance().IsStarted()` -/
  IsStarted : Bool
  fTestNet : Bool

def NXS_COIN : UInt64 := 1000000

def POOL_MIN_STAKE_BALANCE : UInt64 := 1 * NXS_COIN

def TRUST_KEY_TIMESPAN : UInt64 := 60 * 60 * 24 * 3

def TRUST_KEY_TIMESPAN_TESTNET : UInt64 := 60 * 60 * 3

/-- An entry of `mapPool`. -/
structure Entry where
  tx : Transaction
  nBlockAge : UInt64
  nBalance : UInt64
  nFee : UInt64
  fTrust : Bool

/-- The order of hashes. -/
def byHash : Less Nat where
  lt x y := decide (x < y)
  trans x y z hxy hyz := by
    simp only [decide_eq_true_eq] at *
    omega

abbrev HashMap (β : Type) := OrderedMap byHash β

namespace HashMap

variable {β : Type}

def find? (m : HashMap β) (hash : Nat) : Option β :=
  (m.elements.find? fun x => x.1 = hash).map Prod.snd

def erase (m : HashMap β) (hash : Nat) : HashMap β :=
  ⟨m.elements.filter fun x => x.1 ≠ hash, m.sorted.filter _⟩

/-- `m[hash] = value` -/
def assign (m : HashMap β) (hash : Nat) (value : β) : HashMap β := (erase m hash).insert (hash, value)

def size (m : HashMap β) : Nat := m.elements.length

end HashMap

structure Stakepool where
  mapPool : HashMap Entry := .empty
  mapPending : HashMap Transaction := .empty
  mapGenesis : Nat → Option Nat := fun _ => none
  hashLastBlock : Nat := 0
  hashLocal : Nat := 0
  hashProof : Nat := 0
  nTimeBegin : UInt64 := 0
  nTimeEnd : UInt64 := 0
  nSizeMax : Nat

section

variable (GetHash : Transaction → Nat) (pool : Stakepool)

/-! ## Entering the pool -/

/-- The first part of `AddToPool` for a trust coinstake: block age, balance and reward. -/
def trustValues (env : Env) (tx : Transaction) (account : Account) :
    Option (UInt64 × UInt64 × UInt64) :=
  if ¬ tx.IsTrustPool then none
  else do
    let hashLast ← (env.ReadStake tx.hashGenesis).or (env.FindLastStake tx.hashGenesis)
    let stateLast ← env.ReadBlock hashLast
    let nInterval := env.stateBest.nHeight - stateLast.nHeight + 1
    if nInterval ≤ env.MinStakeInterval env.stateBest then none
    else
      let nBlockAge := env.stateBest.nTime - stateLast.nTime
      return (nBlockAge, account.stake, env.GetCoinstakeReward account.stake nBlockAge tx.nTrust false)

/-- The same for a genesis coinstake, whose age starts after a timespan. -/
def genesisValues (env : Env) (tx : Transaction) (account : Account) :
    Option (UInt64 × UInt64 × UInt64) :=
  if ¬ tx.IsGenesisPool then none
  else
    let nBlockAge := env.stateBest.nTime - account.nModified
    let nReward := env.GetCoinstakeReward account.balance nBlockAge 0 true
    let nReduction := if env.fTestNet then TRUST_KEY_TIMESPAN_TESTNET else TRUST_KEY_TIMESPAN
    some (if nBlockAge < nReduction then 0 else nBlockAge - nReduction, account.balance, nReward)

def AddToPool (env : Env) (tx : Transaction) : Option Stakepool := do
  let (account, fTrust) ← env.FindTrustAccount tx.hashGenesis
  let values := if fTrust then trustValues env tx account else genesisValues env tx account
  let (nBlockAge, nBalance, nReward) ← values
  if nBalance < POOL_MIN_STAKE_BALANCE then none
  else
    let nFee := env.GetPoolStakeFee nReward
    if tx.nPoolReward ≠ nReward - nFee then none
    else return { pool with
      mapPool := HashMap.assign pool.mapPool (GetHash tx) ⟨tx, nBlockAge, nBalance, nFee, fTrust⟩ }

def CheckProofs (tx : Transaction) : Bool :=
  (tx.IsTrustPool || tx.IsGenesisPool) &&
    pool.hashProof == tx.txProof && pool.nTimeBegin == tx.txTimeBegin && pool.nTimeEnd == tx.txTimeEnd

/-- `mapGenesis[hashGenesis] = hashTx` -/
def setGenesis (hashGenesis hashTx : Nat) : Stakepool :=
  { pool with mapGenesis := Function.update pool.mapGenesis hashGenesis (some hashTx) }

/-- The checks of `Accept` before anything is stored, and whether anything is stored at all. -/
def admits (env : Env) (tx : Transaction) : Bool :=
  (tx.IsTrustPool || tx.IsGenesisPool) && env.Check tx && env.HasTx tx.hashPrevTx &&
    env.Verify tx && (pool.mapGenesis tx.hashGenesis).isNone && env.fPoolStaking && env.IsStarted

/-- `Accept`, from a peer or from the local node (`!pnode`). -/
def Accept (env : Env) (tx : Transaction) (fLocal : Bool) : Stakepool × Bool :=
  let hashTx := GetHash tx
  if ¬ (tx.IsTrustPool || tx.IsGenesisPool) then (pool, false)
  else if ¬ env.Check tx then (pool, false)
  else if ¬ env.HasTx tx.hashPrevTx then (pool, false)
  else if ¬ env.Verify tx then (pool, false)
  else if (pool.mapGenesis tx.hashGenesis).isSome then (pool, false)
  else if env.fPoolStaking && env.IsStarted then
    if pool.hashLastBlock ≠ env.hashBestChain then
      ({ pool with mapPending := HashMap.assign pool.mapPending hashTx tx }, true)
    else if CheckProofs pool tx && decide (pool.mapPool.size < pool.nSizeMax) then
      match AddToPool GetHash pool env tx with
      | none => (pool, false)
      | some added =>
        let added := setGenesis added tx.hashGenesis hashTx
        (if fLocal then { added with hashLocal := GetHash tx } else added, true)
    else (pool, true)
  else (pool, true)

/-- A turn of the loop of `SetProofs`. -/
def addPending (env : Env) (tx : Transaction) : Stakepool :=
  if (pool.mapGenesis tx.hashGenesis).isNone && CheckProofs pool tx &&
      decide (pool.mapPool.size < pool.nSizeMax) then
    match AddToPool GetHash pool env tx with
    | none => pool
    | some added => setGenesis added tx.hashGenesis (GetHash tx)
  else pool

def SetProofs (env : Env) (hashLastBlock hashProof : Nat) (nTimeBegin nTimeEnd : UInt64) :
    Stakepool :=
  let started := { pool with hashLastBlock, hashProof, nTimeBegin, nTimeEnd }
  let added := pool.mapPending.elements.foldl (fun pool item => addPending GetHash pool env item.2)
    started
  { added with mapPending := .empty }

/-! ## Leaving it -/

def Remove (hashTx : Nat) : Stakepool × Bool :=
  match HashMap.find? pool.mapPool hashTx with
  | some entry =>
    ({ pool with
      mapGenesis := Function.update pool.mapGenesis entry.tx.hashGenesis none
      mapPool := HashMap.erase pool.mapPool hashTx }, true)
  | none => (pool, false)

def Clear : Stakepool :=
  { pool with
    mapPool := .empty
    mapGenesis := fun _ => none
    mapPending := .empty
    hashLastBlock := 0
    hashProof := 0
    nTimeBegin := 0
    nTimeEnd := 0 }

/-! ## Selection -/

def IsTrust (hashTx : Nat) : Bool :=
  match HashMap.find? pool.mapPool hashTx with
  | some entry => entry.fTrust
  | none => false

/-- What `Select` has chosen so far. -/
structure Selection where
  vHashes : List Nat := []
  nBalanceTotal : UInt64 := 0
  nFeeTotal : UInt64 := 0
  fGenesisAdded : Bool := false

/-- A hash is added to the results, unless it is a second genesis. -/
def Selection.add (sel : Selection) (fTrust : Bool) (hash : Nat) (nBalance nFee : UInt64) :
    Selection :=
  if fTrust || !sel.fGenesisAdded then
    { vHashes := sel.vHashes ++ [hash]
      nBalanceTotal := sel.nBalanceTotal + nBalance
      nFeeTotal := sel.nFeeTotal + nFee
      fGenesisAdded := sel.fGenesisAdded || !fTrust }
  else sel

/-- The whole pool, but for the local coinstake. -/
def selectAll : Selection :=
  pool.mapPool.elements.foldl (fun sel item =>
    if item.1 = pool.hashLocal then sel
    else sel.add (IsTrust pool item.1) item.1 item.2.nBalance item.2.nFee) {}

/-- The entry of a hash in `mapPool[hash]`. -/
def entryValues (hash : Nat) : UInt64 × UInt64 :=
  match HashMap.find? pool.mapPool hash with
  | some entry => (entry.nBalance, entry.nFee)
  | none => (0, 0)

/-- The loop over random choices.  Each takes a hash out of `vAvailable`, so that its length is
enough turns. -/
def selectSome (nCount : Nat) (dist : Nat → Nat) : Nat → Selection → List Nat → Selection
  | 0, sel, _ => sel
  | fuel + 1, sel, vAvailable =>
    if sel.vHashes.length < nCount ∧ sel.vHashes.length < pool.mapPool.size ∧
        0 < vAvailable.length then
      let nSelection := dist fuel % vAvailable.length
      let hashSelected := vAvailable.getD nSelection 0
      let (nBalance, nFee) := entryValues pool hashSelected
      selectSome nCount dist fuel (sel.add (IsTrust pool hashSelected) hashSelected nBalance nFee)
        (vAvailable.eraseIdx nSelection)
    else sel

def Select (nCount : Nat) (dist : Nat → Nat) : Selection :=
  if pool.mapPool.size ≤ nCount then selectAll pool
  else
    let vAvailable := (pool.mapPool.elements.map Prod.fst).filter fun hash => hash ≠ pool.hashLocal
    selectSome pool nCount dist vAvailable.length {} vAvailable

/-! ## Runs -/

inductive Call
  | accept (env : Env) (tx : Transaction) (fLocal : Bool)
  | setProofs (env : Env) (hashLastBlock hashProof : Nat) (nTimeBegin nTimeEnd : UInt64)
  | remove (hashTx : Nat)
  | clear

def Call.step : Call → Stakepool
  | .accept env tx fLocal => (Accept GetHash pool env tx fLocal).1
  | .setProofs env hashLastBlock hashProof nTimeBegin nTimeEnd =>
    SetProofs GetHash pool env hashLastBlock hashProof nTimeBegin nTimeEnd
  | .remove hashTx => (Remove pool hashTx).1
  | .clear => Clear pool

/-- The coinstakes that the local node has produced, by their hashes. -/
def Call.produced (hashes : List Nat) : Call → List Nat
  | .accept _ tx true => GetHash tx :: hashes
  | _ => hashes

end

end Nexus.Ledger.Pooled
