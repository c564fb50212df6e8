import Mathlib.Data.List.Chain
import Nexus.Ledger.Check
import Nexus.Safety.Acceptance
import Nexus.Safety.Pools

/-!
# Blocks that pass their check

The loop over the transactions keeps the last hash of each genesis, so in a block that passes `Check`
the transactions of a signature chain follow on one another, up to that of its producer.  No
transaction is twice in such a block, and its merkle root is the root of them all.

## Main results

* `check_transactions`: what a block that passes `Check` has.
-/

namespace Nexus.Safety

open Nexus.Lib.Bytes
open Nexus.Lib.Checked
open Nexus.Util
open Nexus.Operation
open Nexus.Ledger
open Nexus.Ledger.TritiumBlock

variable {σ τ : Type} {rt : CheckRuntime σ τ} {node : Node σ} {legacy : τ} {block : TritiumBlock}
  {x x' : Checking} {proof : UInt8 × Uint512} {vtx : List (UInt8 × Uint512)} {hashGenesis : Uint256}

/-- The transaction is found, and may be in the block. -/
inductive Includable (rt : CheckRuntime σ τ) (node : Node σ) (legacy : τ) (block : TritiumBlock) :
    UInt8 × Uint512 → Prop
  | legacy {hash : Uint512} {tx : Legacy.Transaction} {fConflict : Bool}
      (hRead : rt.ReadLegacy node.side legacy hash = some (tx, fConflict))
      (hCheck : block.checkLegacy rt tx = .ok ()) : Includable rt node legacy block (TRANSACTION.LEGACY, hash)
  | tritium {hash : Uint512} {tx : Transaction} {fConflict : Bool}
      (hRead : readTx node hash = some (tx, fConflict)) (hCheck : isProducer tx = .ok false) :
      Includable rt node legacy block (TRANSACTION.TRITIUM, hash)

/-- The transactions of signature chains, as they are found. -/
def tritiumTxs (node : Node σ) (vtx : List (UInt8 × Uint512)) : List Transaction :=
  vtx.filterMap fun proof =>
    if proof.1 = TRANSACTION.TRITIUM then (readTx node proof.2).map Prod.fst else none

def ofGenesis (hashGenesis : Uint256) (txs : List Transaction) : List Transaction :=
  txs.filter fun tx => tx.hashGenesis = hashGenesis

/-- Each transaction has the hash of the one before it. -/
def Follow (rt : Runtime) (txs : List Transaction) : Prop :=
  txs.IsChain fun tx tx' => tx'.hashPrevTx = tx.GetHash rt

/-- The transactions of a block, with its producers. -/
def idsOf (rt : Runtime) (block : TritiumBlock) : List Uint512 :=
  block.vtx.map Prod.snd ++ block.producers.map fun tx => tx.GetHash rt

/-- The transactions of a block, by themselves and with one another. -/
structure Composed (rt : CheckRuntime σ τ) (node : Node σ) (legacy : τ) (block : TritiumBlock) : Prop where
  admitted : ∀ proof ∈ block.vtx, Includable rt node legacy block proof
  follow : ∀ hashGenesis,
    Follow rt.toRuntime (ofGenesis hashGenesis (tritiumTxs node block.vtx ++ block.producers))
  producers : (block.producers.map (·.hashGenesis)).Nodup
  ids : (idsOf rt.toRuntime block).Nodup
  root : block.hashMerkleRoot =
    (Merkle.BuildMerkleTree rt.Join {} (idsOf rt.toRuntime block)).2

/-! ## The loop -/

/-- What the loop has gathered of the transactions so far. -/
structure Gathered (rt : CheckRuntime σ τ) (node : Node σ) (legacy : τ) (block : TritiumBlock)
    (vtx : List (UInt8 × Uint512)) (x : Checking) : Prop where
  vHashes : x.vHashes = vtx.map Prod.snd
  setUnique : x.setUnique = x.vHashes.toFinset
  mapLast : ∀ hashGenesis, x.mapLast hashGenesis =
    (ofGenesis hashGenesis (tritiumTxs node vtx)).getLast?.map fun tx => tx.GetHash rt.toRuntime
  follow : ∀ hashGenesis, Follow rt.toRuntime (ofGenesis hashGenesis (tritiumTxs node vtx))
  admitted : x.vMissing = [] → ∀ proof ∈ vtx, Includable rt node legacy block proof

theorem tritiumTxs_concat : tritiumTxs node (vtx ++ [proof]) = tritiumTxs node vtx ++
    tritiumTxs node [proof] := List.filterMap_append

theorem ofGenesis_append {txs txs' : List Transaction} :
    ofGenesis hashGenesis (txs ++ txs') = ofGenesis hashGenesis txs ++ ofGenesis hashGenesis txs' :=
  List.filter_append txs txs'

/-- A transaction that follows on the last of its genesis. -/
theorem follow_concat {rt : Runtime} {txs : List Transaction} {tx : Transaction}
    {mapLast : Uint256 → Option Uint512} {e : Fault}
    (hLast : mapLast tx.hashGenesis = (ofGenesis tx.hashGenesis txs).getLast?.map fun tx => tx.GetHash rt)
    (hFollow : Follow rt (ofGenesis tx.hashGenesis txs)) (h : checkSequence mapLast tx e = .ok ()) :
    Follow rt (ofGenesis tx.hashGenesis txs ++ [tx]) := by
  rw [checkSequence, reject_eq_ok] at h
  refine List.isChain_append.mpr ⟨hFollow, List.isChain_singleton tx, ?_⟩
  intro last hMem next hNext
  obtain rfl : tx = next := by simpa using hNext
  rw [hLast, Option.mem_def.mp hMem, Option.map_some, Option.any_some, decide_eq_true_eq, not_not] at h
  exact h

/-- A transaction that is not found is missing, and no other of its genesis follows on it. -/
theorem Gathered.missing (h : Gathered rt node legacy block vtx x)
    (hNone : tritiumTxs node [proof] = []) (hSame : x'.mapLast = x.mapLast)
    (hHashes : x'.vHashes = x.vHashes ++ [proof.2]) (hUnique : x'.setUnique = insert proof.2 x.setUnique)
    (hMissing : x'.vMissing = [] → x.vMissing = [] ∧ Includable rt node legacy block proof) :
    Gathered rt node legacy block (vtx ++ [proof]) x' := by
  have hTxs : tritiumTxs node (vtx ++ [proof]) = tritiumTxs node vtx := by
    rw [tritiumTxs_concat, hNone, List.append_nil]
  constructor
  · rw [hHashes, h.vHashes, List.map_append, List.map_singleton]
  · rw [hUnique, hHashes, h.setUnique, List.toFinset_append]
    ext hash
    simp
  · rw [hSame, hTxs]
    exact h.mapLast
  · rw [hTxs]
    exact h.follow
  · intro hNil proof' hMem
    obtain ⟨hBefore, hAdmitted⟩ := hMissing hNil
    rcases List.mem_append.mp hMem with hOld | hNew
    · exact h.admitted hBefore proof' hOld
    · rwa [List.mem_singleton.mp hNew]

/-- A transaction that is found follows on the last of its genesis. -/
theorem Gathered.found {tx : Transaction} (h : Gathered rt node legacy block vtx x)
    (hOne : tritiumTxs node [proof] = [tx])
    (hLast : x'.mapLast =
      Function.update x.mapLast tx.hashGenesis (some (tx.GetHash rt.toRuntime)))
    (hHashes : x'.vHashes = x.vHashes ++ [proof.2]) (hUnique : x'.setUnique = insert proof.2 x.setUnique)
    (hMissing : x'.vMissing = x.vMissing) (hAdmitted : Includable rt node legacy block proof)
    {e : Fault} (hSequence : checkSequence x.mapLast tx e = .ok ()) :
    Gathered rt node legacy block (vtx ++ [proof]) x' := by
  have hTxs : tritiumTxs node (vtx ++ [proof]) = tritiumTxs node vtx ++ [tx] := by
    rw [tritiumTxs_concat, hOne]
  have hSame : ofGenesis tx.hashGenesis [tx] = [tx] := by simp [ofGenesis]
  have hOther {hashGenesis : Uint256} (hNot : hashGenesis ≠ tx.hashGenesis) : ofGenesis hashGenesis [tx] = [] := by
    simp [ofGenesis, Ne.symm hNot]
  constructor
  · rw [hHashes, h.vHashes, List.map_append, List.map_singleton]
  · rw [hUnique, hHashes, h.setUnique, List.toFinset_append]
    ext hash
    simp
  · intro hashGenesis
    rw [hLast, hTxs, ofGenesis_append]
    by_cases hGenesis : hashGenesis = tx.hashGenesis
    · rw [hGenesis, Function.update_self, hSame, List.getLast?_concat, Option.map_some]
    · rw [Function.update_of_ne hGenesis, hOther hGenesis, List.append_nil]
      exact h.mapLast hashGenesis
  · intro hashGenesis
    rw [hTxs, ofGenesis_append]
    by_cases hGenesis : hashGenesis = tx.hashGenesis
    · rw [hGenesis, hSame]
      exact follow_concat (h.mapLast _) (h.follow _) hSequence
    · rw [hOther hGenesis, List.append_nil]
      exact h.follow hashGenesis
  · intro hNil proof' hMem
    rw [hMissing] at hNil
    rcases List.mem_append.mp hMem with hOld | hNew
    · exact h.admitted hNil proof' hOld
    · rwa [List.mem_singleton.mp hNew]

theorem isProducer_false {tx : Transaction} (h : checkTritium x tx = .ok ()) :
    isProducer tx = .ok false ∧
      checkSequence x.mapLast tx (.error "transaction in sigchain out of sequence") = .ok () := by
  simp only [checkTritium, bind_eq_ok, reject_eq_ok] at h
  obtain ⟨fProducer, hProducer, _, hNot, hSequence⟩ := h
  rw [Bool.not_eq_true] at hNot
  rw [hNot] at hProducer
  exact ⟨hProducer, hSequence⟩

/-- One turn of the loop. -/
theorem Gathered.checkTx {u : Unit} (h : Gathered rt node legacy block vtx x)
    (hTurn : block.checkTx rt node legacy x proof = (x', .ok u)) :
    Gathered rt node legacy block (vtx ++ [proof]) x' := by
  obtain ⟨nType, hash⟩ := proof
  have hTypes : TRANSACTION.LEGACY ≠ TRANSACTION.TRITIUM := by decide
  simp only [TritiumBlock.checkTx] at hTurn
  split at hTurn
  · rename_i hLegacy
    subst hLegacy
    have hNone : tritiumTxs node [(TRANSACTION.LEGACY, hash)] = [] := by simp [tritiumTxs, hTypes]
    split at hTurn
    · obtain ⟨rfl, -⟩ := Prod.mk.inj hTurn
      exact h.missing hNone rfl rfl rfl fun hNil => absurd hNil (by simp)
    · rename_i tx fConflict hRead
      obtain ⟨rfl, hCheck⟩ := Prod.mk.inj hTurn
      exact h.missing hNone rfl rfl rfl fun hNil => ⟨hNil, .legacy hRead hCheck⟩
  · split at hTurn
    · rename_i hTritium
      subst hTritium
      split at hTurn
      · rename_i hRead
        have hNone : tritiumTxs node [(TRANSACTION.TRITIUM, hash)] = [] := by simp [tritiumTxs, hRead]
        obtain ⟨rfl, -⟩ := Prod.mk.inj hTurn
        exact h.missing hNone rfl rfl rfl fun hNil => absurd hNil (by simp)
      · rename_i tx fConflict hRead
        have hOne : tritiumTxs node [(TRANSACTION.TRITIUM, hash)] = [tx] := by simp [tritiumTxs, hRead]
        obtain ⟨rfl, hCheck⟩ := Prod.mk.inj hTurn
        obtain ⟨hProducer, hSequence⟩ := isProducer_false hCheck
        exact h.found hOne rfl rfl rfl rfl (.tritium hRead hProducer) hSequence
    · cases (Prod.mk.inj hTurn).2

theorem Gathered.checkTxs {u : Unit} {vtx' : List (UInt8 × Uint512)}
    (h : Gathered rt node legacy block vtx x)
    (hLoop : block.checkTxs rt node legacy vtx' x = (x', .ok u)) :
    Gathered rt node legacy block (vtx ++ vtx') x' := by
  induction vtx' generalizing vtx x with
  | nil =>
      obtain ⟨rfl, -⟩ := Prod.mk.inj hLoop
      rwa [List.append_nil]
  | cons proof vtx' ih =>
      rw [TritiumBlock.checkTxs] at hLoop
      split at hLoop
      · cases (Prod.mk.inj hLoop).2
      · rename_i x₁ _ hTurn
        have hAll := ih (h.checkTx hTurn) hLoop
        rwa [List.append_assoc] at hAll

/-! ## The producers -/

/-- The hashes of the producers are behind those of the loop, and each follows on the last of its
genesis. -/
theorem pushProducers_eq_ok {txs : List Transaction}
    (h : txs.foldlM (pushProducer rt) x = .ok x') :
    x'.vHashes = x.vHashes ++ txs.map (fun tx => tx.GetHash rt.toRuntime) ∧
      (x.setUnique = x.vHashes.toFinset → x'.setUnique = x'.vHashes.toFinset) ∧
      x'.vMissing = x.vMissing ∧ x'.mapLast = x.mapLast ∧
      ∀ tx ∈ txs, checkSequence x.mapLast tx (.error "producer transaction out of sequence") = .ok () := by
  induction txs generalizing x with
  | nil =>
      rw [foldlM_nil_eq_ok] at h
      subst h
      simp
  | cons tx txs ih =>
      rw [foldlM_cons_eq_ok] at h
      obtain ⟨x₁, hPush, hRest⟩ := h
      simp only [pushProducer, bind_eq_ok, pure_eq_ok] at hPush
      obtain ⟨_, hSequence, rfl⟩ := hPush
      obtain ⟨hHashes, hUnique, hMissing, hLast, hAll⟩ := ih hRest
      refine ⟨?_, ?_, hMissing, hLast, ?_⟩
      · rw [hHashes, List.map_cons, List.append_assoc]
        rfl
      · intro hSame
        refine hUnique ?_
        rw [hSame, List.toFinset_append]
        ext hash
        simp
      · intro tx' hMem
        rcases List.mem_cons.mp hMem with rfl | hMem
        · exact hSequence
        · exact hAll tx' hMem

theorem mem_ofGenesis {tx : Transaction} {txs : List Transaction} :
    tx ∈ ofGenesis hashGenesis txs ↔ tx ∈ txs ∧ tx.hashGenesis = hashGenesis := by
  simp [ofGenesis]

/-- Of each genesis there is one producer at most, behind the other transactions. -/
theorem Gathered.follow_producers {producers : List Transaction} {e : Fault}
    (h : Gathered rt node legacy block vtx x) (hNodup : (producers.map (·.hashGenesis)).Nodup)
    (hSequence : ∀ tx ∈ producers, checkSequence x.mapLast tx e = .ok ()) (hashGenesis : Uint256) :
    Follow rt.toRuntime (ofGenesis hashGenesis (tritiumTxs node vtx ++ producers)) := by
  have hMem {tx : Transaction} (hIn : tx ∈ ofGenesis hashGenesis producers) :
      tx ∈ producers ∧ tx.hashGenesis = hashGenesis := mem_ofGenesis.mp hIn
  have hOnce : ((ofGenesis hashGenesis producers).map (·.hashGenesis)).Nodup :=
    hNodup.sublist (List.filter_sublist.map _)
  rw [ofGenesis_append]
  cases hOf : ofGenesis hashGenesis producers with
  | nil =>
      rw [List.append_nil]
      exact h.follow hashGenesis
  | cons tx txs =>
      obtain ⟨hIn, hFirst⟩ := hMem (hOf ▸ List.mem_cons_self)
      cases txs with
      | nil =>
          rw [← hFirst]
          exact follow_concat (h.mapLast _) (h.follow _) (hSequence tx hIn)
      | cons tx' txs =>
          have hIn' : tx' ∈ ofGenesis hashGenesis producers := by simp [hOf]
          have hSecond := (hMem hIn').2
          rw [hOf] at hOnce
          simp [hFirst, hSecond] at hOnce

theorem nodup_of_card {α : Type} [DecidableEq α] {xs : List α} (h : xs.toFinset.card = xs.length) :
    xs.Nodup := by
  rw [List.card_toFinset] at h
  exact List.dedup_eq_self.mp ((List.dedup_sublist xs).eq_of_length h)

/-! ## Whole blocks -/

theorem gathered_nil (fConflicted : Bool) (vMissing : List (UInt8 × Uint512)) :
    Gathered rt node legacy block [] { fConflicted, vMissing } where
  vHashes := rfl
  setUnique := rfl
  mapLast := fun _ => rfl
  follow := fun _ => List.isChain_nil
  admitted := fun _ _ hMem => absurd hMem List.not_mem_nil

/-- The transactions of a block that has passed the loop and what is behind it. -/
theorem Gathered.composed (h : Gathered rt node legacy block block.vtx x)
    (hCheck : block.checkHashes rt x = .ok ()) : Composed rt node legacy block := by
  simp only [TritiumBlock.checkHashes, bind_eq_ok, reject_eq_ok, not_not] at hCheck
  obtain ⟨x', hPush, _, hGenesis, _, hMissing, _, hUnique, _, hRoot, -⟩ := hCheck
  obtain ⟨hHashes, hSet, hSame, -, hSequence⟩ := pushProducers_eq_ok hPush
  have hProducers : (block.producers.map (·.hashGenesis)).Nodup := by
    refine nodup_of_card ?_
    rw [List.length_map]
    exact hGenesis
  have hIds : x'.vHashes = idsOf rt.toRuntime block := by rw [hHashes, h.vHashes, idsOf]
  rw [hSet h.setUnique] at hUnique
  constructor
  · exact h.admitted (hSame ▸ hMissing)
  · exact h.follow_producers hProducers hSequence
  · exact hProducers
  · exact hIds ▸ nodup_of_card hUnique
  · rw [hRoot, hIds]

/-- In a block that passes `Check` every transaction is found and none is a coinbase or a coinstake but
that of a producer, none is there twice, those of a signature chain follow on one another up to the one
of its producer, and the merkle root is that of all of them. -/
theorem check_transactions {block : CheckedBlock} (h : (block.Check rt node legacy).2 = .ok ()) :
    Composed rt node legacy block.toTritiumBlock := by
  rw [CheckedBlock.Check] at h
  split at h
  · cases h
  · split at h
    · cases h
    · split at h
      · cases h
      · rename_i x u hLoop
        exact ((gathered_nil _ _).checkTxs hLoop).composed h

/-- A block that passes `Check` has passed what is before its transactions. -/
theorem checkProducers_of_check {block : CheckedBlock} (h : (block.Check rt node legacy).2 = .ok ()) :
    block.toTritiumBlock.checkProducers rt node.db = .ok () := by
  rw [CheckedBlock.Check] at h
  split at h
  · cases h
  · rename_i u hProducers
    exact hProducers

/-- The transactions of a proof of stake that passes `Check` pass what is checked of them by
themselves. -/
theorem checkTransactions_of_check {block : CheckedBlock} (hVersion : ¬ block.nVersion < 9)
    (hStake : block.nChannel = CHANNEL.STAKE) (h : (block.Check rt node legacy).2 = .ok ()) :
    block.toTritiumBlock.checkTransactions rt.toLedgerRuntime
      (fun hash => (readTx node hash).map Prod.fst) = .ok () := by
  have hComposed := check_transactions h
  have hProducers := checkProducers_of_check h
  simp only [TritiumBlock.checkProducers, if_pos hStake, bind_eq_ok] at hProducers
  obtain ⟨_, -, _, -, _, -, _, -, _, hCoinStake, -⟩ := hProducers
  rw [TritiumBlock.checkCoinStake, if_neg hVersion] at hCoinStake
  have hOthers : block.vtx.forM (checkOther fun hash => (readTx node hash).map Prod.fst) = .ok () := by
    refine forM_eq_ok.mpr fun proof hMem => ?_
    cases hComposed.admitted proof hMem with
    | legacy hRead hCheck => rfl
    | tritium hRead hCheck =>
        rw [checkOther, if_pos rfl, hRead]
        simp only [Option.map_some, demand_some, ok_bind, hCheck]
        rfl
  have hIds : (block.toTritiumBlock.vHashes rt.toLedgerRuntime).Nodup := by
    have hNodup := hComposed.ids
    rwa [idsOf, TritiumBlock.producers, if_neg hVersion] at hNodup
  rw [TritiumBlock.checkTransactions, hCoinStake, hOthers]
  simp only [bind_eq_ok, reject_eq_ok, not_not]
  exact ⟨(), trivial, (), trivial, hIds⟩

/-! ## A block with a transaction of its producer's chain -/

def exampleCheck : CheckRuntime Unit (Uint512 → Bool) where
  toAcceptRuntime := exampleAccept
  GetSerializeSize _ := 1000
  BlockVersionActive _ _ := true
  NetworkActive _ := true
  ChannelActive _ _ := true
  CheckProducer _ := .ok true
  VerifyWork _ := .ok true
  ReadLegacy _ _ _ := none
  CheckTransaction _ := true
  IsFinal _ _ _ := true
  Join hash hash' := exampleRuntime.SK512 (FixedWidth.encode hash ++ FixedWidth.encode hash')
  VerifySignature _ _ _ := .ok true

def pooledTx : Transaction := { nSequence := 1, hashGenesis := 7, hashPrevTx := 3 }

def coinbaseTx : Transaction where
  vContracts := [{ ssOperation := { vchData := [OP.COINBASE] } }]
  hashGenesis := 7
  hashPrevTx := pooledTx.GetHash exampleRuntime
  nKeyType := SIGNATURE.FALCON

/-- A block of work with a transaction of the pool. -/
def checkedBlock : CheckedBlock where
  nVersion := 9
  nChannel := CHANNEL.HASH
  hashMerkleRoot := (Merkle.BuildMerkleTree exampleCheck.Join {}
    [pooledTx.GetHash exampleRuntime, coinbaseTx.GetHash exampleRuntime]).2
  vProducer := [coinbaseTx]
  vtx := [(TRANSACTION.TRITIUM, pooledTx.GetHash exampleRuntime)]

def checkingNode : Node Unit where
  pool := { mapLedger := [(pooledTx.GetHash exampleRuntime, pooledTx)] }
  side := ()

theorem check_transactions_pooled :
    Composed exampleCheck checkingNode (fun _ => false) checkedBlock.toTritiumBlock := by
  have hOk : (checkedBlock.Check exampleCheck checkingNode fun _ => false).2.isOk = true := by
    decide +kernel
  have hCheck : (checkedBlock.Check exampleCheck checkingNode fun _ => false).2 = .ok () := by
    cases hResult : (checkedBlock.Check exampleCheck checkingNode fun _ => false).2 with
    | error e =>
        rw [hResult] at hOk
        cases hOk
    | ok u => rfl
  exact check_transactions hCheck

end Nexus.Safety
