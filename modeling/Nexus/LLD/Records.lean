import Nexus.Ledger.BlockState
import Nexus.LLD.Database

/-!
# The records of the chain

The records of the ledger database that no contract reads: block states, the
pointer to the best chain, the block of each connected transaction, and the
first and the last transaction of each signature chain.  They are written inside
a database transaction, where a write and an erase always succeed and read back
as written.  The `index` key of a transaction is an alias of the record of its
block.
-/

namespace Nexus.LLD

open Nexus.Util
open Nexus.Ledger

structure Records extends Disk where
  /-- Block states by hash. -/
  blocks : Uint1024 → Option BlockState := fun _ => none
  /-- `"hashbestchain"`. -/
  bestChain : Option Uint1024 := none
  /-- `("index", hashTx)`: the block of a transaction. -/
  index : Uint512 → Option Uint1024 := fun _ => none
  /-- `("last", hashGenesis)`. -/
  last : Uint256 → Option Uint512 := fun _ => none
  /-- `("genesis", hashGenesis)`. -/
  genesis : Uint256 → Option Uint512 := fun _ => none

namespace Records

variable (db : Records)

def ReadBlock (hashBlock : Uint1024) : Option BlockState := db.blocks hashBlock

def WriteBlock (hashBlock : Uint1024) (state : BlockState) : Records :=
  { db with blocks := Function.update db.blocks hashBlock (some state.record) }

def EraseBlock (hashBlock : Uint1024) : Records :=
  { db with blocks := Function.update db.blocks hashBlock none }

def WriteBestChain (hashBest : Uint1024) : Records := { db with bestChain := some hashBest }

def HasIndex (hashTx : Uint512) : Bool := (db.index hashTx).isSome

def IndexBlock (hashTx : Uint512) (hashBlock : Uint1024) : Records :=
  { db with index := Function.update db.index hashTx (some hashBlock) }

def EraseIndex (hashTx : Uint512) : Records :=
  { db with index := Function.update db.index hashTx none }

/-- `ReadBlock` of a transaction. -/
def ReadBlockOf (hashTx : Uint512) : Option BlockState := db.index hashTx >>= db.ReadBlock

def ReadLast (hashGenesis : Uint256) : Option Uint512 := db.last hashGenesis

def WriteLast (hashGenesis : Uint256) (hashLast : Uint512) : Records :=
  { db with last := Function.update db.last hashGenesis (some hashLast) }

def EraseLast (hashGenesis : Uint256) : Records :=
  { db with last := Function.update db.last hashGenesis none }

def ReadGenesis (hashGenesis : Uint256) : Option Uint512 := db.genesis hashGenesis

def HasGenesis (hashGenesis : Uint256) : Bool := (db.genesis hashGenesis).isSome

def WriteGenesis (hashGenesis : Uint256) (hashTx : Uint512) : Records :=
  { db with genesis := Function.update db.genesis hashGenesis (some hashTx) }

def ReadStake (hashGenesis : Uint256) : Option Uint512 := db.ledger.stake hashGenesis

def WriteStake (hashGenesis : Uint256) (hashLast : Uint512) : Records :=
  { db with ledger := db.ledger.WriteStake hashGenesis hashLast }

def EraseStake (hashGenesis : Uint256) : Records :=
  { db with ledger := db.ledger.EraseStake hashGenesis }

def WriteTx (hashTx : Uint512) (tx : Transaction) : Records :=
  { db with ledger := { db.ledger with txs := Function.update db.ledger.txs hashTx (some tx) } }

def EraseTx (hashTx : Uint512) : Records :=
  { db with ledger := { db.ledger with txs := Function.update db.ledger.txs hashTx none } }

end Records

end Nexus.LLD
