import Nexus.Ledger.Checkpoints

/-!
# Processing blocks from the network

A block whose previous block is not stored waits among the orphans, under the hash of the block it
waits for.  A block that is accepted takes the orphan behind it with it, and that one the next.
-/

namespace Nexus.Ledger

open Nexus.Lib.Checked
open Nexus.Util
open Nexus.LLD

namespace PROCESS

def ORPHAN : UInt8 := 0x02
def DUPLICATE : UInt8 := 0x04
def ACCEPTED : UInt8 := 0x08
def REJECTED : UInt8 := 0x10
def IGNORED : UInt8 := 0x20
def INCOMPLETE : UInt8 := 0x40

end PROCESS

/-- What `Process` calls of a block, a Tritium one or another, and of the chain. -/
structure BlockMethods (σ β : Type) where
  toBlock : β → Block
  GetHash : β → Uint1024
  HasBlock : σ → Uint1024 → Bool
  /-- `Check`, and the missing transactions that it leaves in the block. -/
  Check : σ → β → Outcome × List (UInt8 × Uint512)
  Accept : σ → β → σ × Outcome
  nCheckpointHeight : σ → UInt32
  Synchronizing : σ → Bool
  fTestNet : Bool

/-- The chain, and the blocks that wait. -/
structure Processing (σ β : Type) where
  chain : σ
  /-- Orphans by the hash of their previous block. -/
  mapOrphans : List (Uint1024 × β) := []
  setIncomplete : List Uint1024 := []

/-- The status of a block, and what is missing of it. -/
structure Processed where
  nStatus : UInt8 := 0
  vMissing : List (UInt8 × Uint512) := []
  hashMissing : Uint1024 := 0

def Processed.add (r : Processed) (nStatus : UInt8) : Processed :=
  { r with nStatus := r.nStatus ||| nStatus }

namespace Processing

variable {σ β : Type} (rt : BlockMethods σ β) (p : Processing σ β)

/-- `std::map::insert`, which keeps an orphan that is there. -/
def insertOrphan (hashPrevBlock : Uint1024) (block : β) : Processing σ β :=
  if (p.mapOrphans.lookup hashPrevBlock).isSome then p
  else { p with mapOrphans := (hashPrevBlock, block) :: p.mapOrphans }

def eraseOrphan (hashPrevBlock : Uint1024) : Processing σ β :=
  { p with mapOrphans := p.mapOrphans.filter fun orphan => orphan.1 ≠ hashPrevBlock }

/-- The loop over the orphans behind a block.  Every turn but the last one erases an orphan, so their
number bounds the turns. -/
def processOrphans : Nat → Uint1024 → Processing σ β → Processed → Processing σ β × Processed
  | 0, _, p, r => (p, r)
  | n + 1, hash, p, r =>
      match p.mapOrphans.lookup hash with
      | none => (p, r)
      | some orphan =>
          match rt.Check p.chain orphan with
          | (.threw, _) => (p, r.add PROCESS.REJECTED)
          | (.returned false, []) => (p, r)
          | (.returned false, vMissing) =>
              processOrphans n (rt.GetHash orphan) (p.eraseOrphan hash)
                { r.add PROCESS.INCOMPLETE with
                  vMissing := r.vMissing ++ vMissing, hashMissing := rt.GetHash orphan }
          | (.returned true, _) =>
              match rt.Accept p.chain orphan with
              | (chain, .threw) => ({ p with chain }, r.add PROCESS.REJECTED)
              | (chain, .returned false) => ({ p with chain }, r)
              | (chain, .returned true) =>
                  processOrphans n (rt.GetHash orphan) ({ p with chain }.eraseOrphan hash) r

/-- A block whose previous block is not stored. -/
def processOrphan (block : β) : Processing σ β × Processed :=
  let hashPrevBlock := (rt.toBlock block).hashPrevBlock
  let r : Processed := Processed.add {} PROCESS.ORPHAN
  if hashPrevBlock ∈ p.setIncomplete then
    let p := p.insertOrphan hashPrevBlock block
    ({ p with setIncomplete := rt.GetHash block :: p.setIncomplete.filter fun hash => hash ≠ hashPrevBlock },
      r.add PROCESS.INCOMPLETE)
  else if (p.mapOrphans.lookup hashPrevBlock).isSome then (p, r.add PROCESS.DUPLICATE)
  else if rt.fTestNet = false ∧ (rt.toBlock block).nHeight < rt.nCheckpointHeight p.chain then
    (p, r.add PROCESS.IGNORED)
  else
    (p.insertOrphan hashPrevBlock block,
      if rt.Synchronizing p.chain then r.add PROCESS.IGNORED else r)

/-- `Process`. -/
def Process (block : β) : Processing σ β × Processed :=
  let hashBlock := rt.GetHash block
  if rt.HasBlock p.chain (rt.toBlock block).hashPrevBlock = false then p.processOrphan rt block
  else
    match rt.Check p.chain block with
    | (.threw, _) => (p, Processed.add {} PROCESS.REJECTED)
    | (.returned false, []) => (p, Processed.add {} PROCESS.REJECTED)
    | (.returned false, vMissing) =>
        ({ p with setIncomplete := hashBlock :: p.setIncomplete },
          { nStatus := PROCESS.INCOMPLETE, vMissing, hashMissing := hashBlock })
    | (.returned true, vMissing) =>
        match rt.Accept p.chain block with
        | (chain, .threw) => ({ p with chain }, Processed.add {} PROCESS.REJECTED)
        | (chain, .returned false) => ({ p with chain }, Processed.add {} PROCESS.REJECTED)
        | (chain, .returned true) =>
            processOrphans rt p.mapOrphans.length hashBlock { p with chain }
              (Processed.add { vMissing } PROCESS.ACCEPTED)

variable {p}

theorem lookup_erase (l : List (Uint1024 × β)) (hash key : Uint1024) :
    (l.filter fun orphan => orphan.1 ≠ hash).lookup key = if key = hash then none else l.lookup key := by
  induction l with
  | nil => simp
  | cons orphan l ih =>
      by_cases hHead : orphan.1 = hash
      · rw [List.filter_cons_of_neg (by simp [hHead]), ih, List.lookup_cons]
        by_cases hKey : key = hash
        · simp [hKey]
        · have hApart : (key == orphan.1) = false := by simp [hHead, hKey]
          simp [hApart]
      · rw [List.filter_cons_of_pos (by simp [hHead]), List.lookup_cons, List.lookup_cons, ih]
        by_cases hKey : key = hash
        · have hApart : (key == orphan.1) = false := by
            simp only [beq_eq_false_iff_ne]
            exact fun hSame => hHead (hSame ▸ hKey)
          simp only [hApart, if_pos hKey]
        · simp [hKey]

theorem lookup_eraseOrphan (hash key : Uint1024) :
    (p.eraseOrphan hash).mapOrphans.lookup key = if key = hash then none else p.mapOrphans.lookup key :=
  lookup_erase ..

theorem length_eraseOrphan {hash : Uint1024} (h : (p.mapOrphans.lookup hash).isSome) :
    (p.eraseOrphan hash).mapOrphans.length < p.mapOrphans.length := by
  have hExists : ∃ orphan ∈ p.mapOrphans, orphan.1 = hash := by
    obtain ⟨block, hBlock⟩ := Option.isSome_iff_exists.mp h
    obtain ⟨before, after, hList, -⟩ := List.lookup_eq_some_iff.mp hBlock
    exact ⟨(hash, block), by simp [hList], rfl⟩
  exact List.length_filter_lt_length_iff_exists.mpr (by simpa using hExists)

theorem lookup_insertOrphan {hashPrevBlock : Uint1024} {block : β}
    (hFree : p.mapOrphans.lookup hashPrevBlock = none) (key : Uint1024) :
    (p.insertOrphan hashPrevBlock block).mapOrphans.lookup key =
      if key = hashPrevBlock then some block else p.mapOrphans.lookup key := by
  rw [insertOrphan, hFree, if_neg (by simp), List.lookup_cons]
  by_cases hKey : key = hashPrevBlock
  · simp [hKey]
  · have hApart : (key == hashPrevBlock) = false := by simp [hKey]
    simp only [hApart, if_neg hKey]

end Processing

end Nexus.Ledger
