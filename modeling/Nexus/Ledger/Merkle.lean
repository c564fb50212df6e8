import Mathlib.Data.List.Basic

/-!
# Merkle trees of blocks

`Block::BuildMerkleTree`, `GetMerkleBranch` and `CheckMerkleBranch`, over any hash
`SK512` of two hashes.  A block keeps the tree that it built last in `vMerkleTree`:
the leaves, then each level above, one behind the other.
-/

namespace Nexus.Ledger.Merkle

/-- What merkle calls read and write of a block. -/
structure Block (H : Type) where
  vMerkleTree : List H := []

section

variable {H : Type} (SK512 : H → H → H)

/-- The inner loop: the joins of the level of `nSize` hashes that starts at `j`, for `i` going up
by two. -/
def pushLevel [Zero H] (j nSize : Nat) (vMerkleTree : List H) : List H :=
  (List.range ((nSize + 1) / 2)).foldl (fun vMerkleTree k =>
    let hashLeft := vMerkleTree.getD (j + 2 * k) 0
    let hashRight := vMerkleTree.getD (j + min (2 * k + 1) (nSize - 1)) 0
    vMerkleTree ++ [SK512 hashLeft hashRight]) vMerkleTree

/-- The outer loop.  `nSize` gets smaller in every turn, so `nSize` turns are enough. -/
def pushLevels [Zero H] : Nat → Nat → Nat → List H → List H
  | 0, _, _, vMerkleTree => vMerkleTree
  | fuel + 1, j, nSize, vMerkleTree =>
    if 1 < nSize then
      pushLevels fuel (j + nSize) ((nSize + 1) / 2) (pushLevel SK512 j nSize vMerkleTree)
    else vMerkleTree

def BuildMerkleTree [Zero H] (_block : Block H) (vtx : List H) : Block H × H :=
  let vMerkleTree := pushLevels SK512 vtx.length 0 vtx.length vtx
  (⟨vMerkleTree⟩, vMerkleTree.getLastD 0)

/-- The loop of `GetMerkleBranch`.  A read outside of the tree is no result. -/
def branchFrom (vMerkleTree : List H) : Nat → Nat → Nat → Nat → Option (List H)
  | 0, _, _, _ => some []
  | fuel + 1, j, nSize, nIndex =>
    if 1 < nSize then do
      let i := min (nIndex ^^^ 1) (nSize - 1)
      let hash ← vMerkleTree[j + i]?
      let vMerkleBranch ← branchFrom vMerkleTree fuel (j + nSize) ((nSize + 1) / 2) (nIndex / 2)
      return hash :: vMerkleBranch
    else some []

def GetMerkleBranch [Zero H] (block : Block H) (vtx : List H) (nIndex : Nat) :
    Block H × Option (List H) :=
  -- build merkle tree if it's not already built
  let block :=
    if block.vMerkleTree.isEmpty then (BuildMerkleTree SK512 block vtx).1 else block
  (block, branchFrom block.vMerkleTree vtx.length 0 vtx.length nIndex)

def CheckMerkleBranch (hash : H) (vMerkleBranch : List H) (nIndex : Nat) : H :=
  match vMerkleBranch with
  | [] => hash
  | hashLeaf :: vMerkleBranch =>
    CheckMerkleBranch (if nIndex % 2 = 1 then SK512 hashLeaf hash else SK512 hash hashLeaf)
      vMerkleBranch (nIndex / 2)

/-! ## Runs of merkle calls -/

inductive Call (H : Type)
  | build (vtx : List H)
  | branch (vtx : List H) (nIndex : Nat)

def Call.step [Zero H] (block : Block H) : Call H → Block H
  | .build vtx => (BuildMerkleTree SK512 block vtx).1
  | .branch vtx nIndex => (GetMerkleBranch SK512 block vtx nIndex).1

/-- The leaves of the last tree that was built: a branch builds one only where there is none. -/
def Call.leaves (built : List H) : Call H → List H
  | .build vtx => vtx
  | .branch vtx _ => if built.isEmpty then vtx else built

def runCalls [Zero H] (calls : List (Call H)) : Block H := calls.foldl (Call.step SK512) {}

def builtLeaves (calls : List (Call H)) : List H := calls.foldl Call.leaves []

end

end Nexus.Ledger.Merkle
