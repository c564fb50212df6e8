import Nexus.LLD.Events

/-!
# Event logs as lists

The list that an event log stands for has the transactions of the writes that are
not yet erased.  While the counter is the length of the list and the index keys are
its entries, the reads are those of the list.  A write and an erase keep this, but
an erase at a counter of zero wraps the counter, and `LedgerDB` erases nothing in
client mode; the last event of `LegacyDB` is looked for behind the end of the list.
-/

namespace Nexus.Safety

open Nexus.LLD
open Nexus.Util

namespace Events

variable {τ : Type}

/-- Which of the two databases. -/
inductive Kind
  | ledger
  | legacy
  deriving DecidableEq

/-- `EraseEvent` of a database. -/
def EraseEvent : Kind → EventStore τ → Uint256 → EventStore τ
  | .ledger => EventStore.LedgerDB.EraseEvent
  | .legacy => EventStore.LegacyDB.EraseEvent

/-- `ReadLastEvent` of a database. -/
def ReadLastEvent : Kind → EventStore τ → (τ → Uint512) → Uint256 → Option (Option Uint512)
  | .ledger => EventStore.LedgerDB.ReadLastEvent
  | .legacy => EventStore.LegacyDB.ReadLastEvent

/-- The calls that change a log. -/
inductive Call
  | write (hashAddress : Uint256) (hashTx : Uint512)
  | erase (hashAddress : Uint256)

/-- The transactions that the events of the database are read from. -/
def stored (db : EventStore τ) : Uint512 → Option τ :=
  if db.fClient then db.clientTransactions else db.transactions

/-- A call of the database. -/
def call (kind : Kind) (db : EventStore τ) : Call → EventStore τ
  | .write hashAddress hashTx => (db.WriteEvent hashAddress hashTx).2
  | .erase hashAddress => EraseEvent kind db hashAddress

/-- The call on the lists: a write appends, an erase takes the last away. -/
def listCall (log : Uint256 → List Uint512) : Call → Uint256 → List Uint512
  | .write hashAddress hashTx => Function.update log hashAddress (log hashAddress ++ [hashTx])
  | .erase hashAddress => Function.update log hashAddress (log hashAddress).dropLast

/-- The calls that keep the log a list: a stored transaction is written while the counter has
room; an event is erased where there is one, or where none was ever written, and in `LedgerDB`
not by a node in client mode. -/
def Allowed (kind : Kind) (db : EventStore τ) (log : Uint256 → List Uint512) : Call → Prop
  | .write hashAddress hashTx =>
      (stored db hashTx).isSome ∧ (log hashAddress).length + 1 < 2 ^ 32
  | .erase hashAddress =>
      db.sequence hashAddress = none ∨
        (log hashAddress ≠ [] ∧ (kind = .ledger → db.fClient = false))

/-- A run of calls that keep the log a list, with the list beside the database. -/
inductive Run (kind : Kind) (db₀ : EventStore τ) :
    EventStore τ → (Uint256 → List Uint512) → Prop
  | start : Run kind db₀ db₀ fun _ => []
  | step {db log} (c : Call) : Run kind db₀ db log → Allowed kind db log c →
      Run kind db₀ (call kind db c) (listCall log c)

/-- The reads of an address are those of the list. -/
structure ReadsList (db : EventStore τ) (log : List Uint512) (hashAddress : Uint256) : Prop where
  sequence : (db.ReadSequence hashAddress).toNat = log.length
  event : ∀ nSequence : UInt32,
    db.ReadEvent hashAddress nSequence = log[nSequence.toNat]? >>= stored db

/-- The last event is that of the list; without one the hash stays unset. -/
def ReadsLast (kind : Kind) (GetHash : τ → Uint512) (db : EventStore τ) (log : List Uint512)
    (hashAddress : Uint256) : Prop :=
  ReadLastEvent kind db GetHash hashAddress = some log.getLast?

/-! ## One call -/

/-- The index key of an event, in the database where the node keeps it. -/
def entry (db : EventStore τ) : Uint256 × UInt32 → Option Uint512 :=
  if db.fClient then db.clientIndex else db.index

theorem ReadEvent_eq (db : EventStore τ) (hashAddress : Uint256) (nSequence : UInt32) :
    db.ReadEvent hashAddress nSequence = entry db (hashAddress, nSequence) >>= stored db := by
  rw [EventStore.ReadEvent, entry, stored]
  split <;> rfl

/-- The counters are the lengths and the index keys the entries of the lists. -/
structure Mirrors (db : EventStore τ) (log : Uint256 → List Uint512) : Prop where
  sequence : ∀ a, (db.ReadSequence a).toNat = (log a).length
  entry : ∀ a (n : UInt32), entry db (a, n) = (log a)[n.toNat]?
  stored : ∀ a, ∀ hashTx ∈ log a, (stored db hashTx).isSome

/-- What a write does: the counter goes up, and the key at the old counter is set. -/
theorem write_fields {db : EventStore τ} {a : Uint256} {hashTx : Uint512}
    (hStored : (stored db hashTx).isSome) :
    (call .ledger db (.write a hashTx)).sequence =
        Function.update db.sequence a (some (db.ReadSequence a + 1)) ∧
      entry (call .ledger db (.write a hashTx)) =
        Function.update (entry db) (a, db.ReadSequence a) (some hashTx) ∧
      stored (call .ledger db (.write a hashTx)) = stored db := by
  obtain ⟨tx, hTx⟩ := Option.isSome_iff_exists.mp hStored
  cases hClient : db.fClient with
  | true =>
      have hTx' : db.clientTransactions hashTx = some tx := by
        rw [stored, hClient] at hTx
        exact hTx
      simp [call, EventStore.WriteEvent, EventStore.WriteSequence, EventStore.ClientIndex,
        hClient, hTx', entry, stored]
  | false =>
      have hTx' : db.transactions hashTx = some tx := by
        rw [stored, hClient] at hTx
        exact hTx
      simp [call, EventStore.WriteEvent, EventStore.WriteSequence, EventStore.Index,
        hClient, hTx', entry, stored]

/-- What an erase does: the counter goes down, and the key at the new counter is gone. -/
theorem erase_fields {kind : Kind} {db : EventStore τ} {a : Uint256} {n : UInt32}
    (hSequence : db.sequence a = some n) (hClient : kind = .ledger → db.fClient = false) :
    (call kind db (.erase a)).sequence = Function.update db.sequence a (some (n - 1)) ∧
      entry (call kind db (.erase a)) = Function.update (entry db) (a, n - 1) none ∧
      stored (call kind db (.erase a)) = stored db := by
  cases kind with
  | ledger =>
      simp [call, EraseEvent, EventStore.LedgerDB.EraseEvent, hSequence, EventStore.WriteSequence,
        EventStore.Erase, entry, stored, hClient rfl]
  | legacy =>
      cases hMode : db.fClient with
      | true =>
          simp [call, EraseEvent, EventStore.LegacyDB.EraseEvent, hSequence, EventStore.WriteSequence,
            EventStore.ClientErase, entry, stored, hMode]
      | false =>
          simp [call, EraseEvent, EventStore.LegacyDB.EraseEvent, hSequence, EventStore.WriteSequence,
            EventStore.Erase, entry, stored, hMode]

/-- Where no event was ever written, an erase changes nothing. -/
theorem erase_none {kind : Kind} {db : EventStore τ} {a : Uint256} (h : db.sequence a = none) :
    call kind db (.erase a) = db := by
  cases kind with
  | ledger => simp [call, EraseEvent, EventStore.LedgerDB.EraseEvent, h]
  | legacy => simp [call, EraseEvent, EventStore.LegacyDB.EraseEvent, h]

theorem mirrors_write {kind : Kind} {db : EventStore τ} {log : Uint256 → List Uint512}
    (h : Mirrors db log) {a : Uint256} {hashTx : Uint512}
    (hAllowed : Allowed kind db log (.write a hashTx)) :
    Mirrors (call kind db (.write a hashTx)) (listCall log (.write a hashTx)) := by
  obtain ⟨hStored, hRoom⟩ := hAllowed
  obtain ⟨hSequence, hEntry, hSame⟩ := write_fields (a := a) hStored
  have hCall : call kind db (.write a hashTx) = call .ledger db (.write a hashTx) := rfl
  have hCount := h.sequence a
  rw [hCall]
  constructor
  · intro b
    rw [EventStore.ReadSequence, hSequence, listCall]
    by_cases hb : b = a
    · subst hb
      have hLess : (db.ReadSequence b).toNat + 1 < 2 ^ 32 := by omega
      simp only [Function.update_self, Option.getD_some, UInt32.toNat_add, UInt32.toNat_one,
        List.length_append, List.length_singleton]
      rw [Nat.mod_eq_of_lt hLess, hCount]
    · simp only [Function.update_of_ne hb]
      exact h.sequence b
  · intro b n
    rw [hEntry, listCall]
    by_cases hb : b = a
    · subst hb
      rw [Function.update_self, List.getElem?_append]
      by_cases hn : n = db.ReadSequence b
      · subst hn
        simp [hCount]
      · have hNat : n.toNat ≠ (log b).length := by
          rw [← hCount]
          exact fun hEq => hn (UInt32.toNat_inj.mp hEq)
        rw [Function.update_of_ne (by simpa using hn), h.entry b n]
        by_cases hLess : n.toNat < (log b).length
        · rw [if_pos hLess]
        · rw [if_neg hLess, List.getElem?_eq_none (by omega), List.getElem?_eq_none (by
            rw [List.length_singleton]
            omega)]
    · rw [Function.update_of_ne (by simp [hb]), Function.update_of_ne hb]
      exact h.entry b n
  · intro b hashTx' hMem
    rw [hSame]
    rw [listCall] at hMem
    by_cases hb : b = a
    · subst hb
      rw [Function.update_self] at hMem
      rcases List.mem_append.mp hMem with hMem | hMem
      · exact h.stored b hashTx' hMem
      · rw [List.mem_singleton.mp hMem]
        exact hStored
    · rw [Function.update_of_ne hb] at hMem
      exact h.stored b hashTx' hMem

theorem mirrors_erase {kind : Kind} {db : EventStore τ} {log : Uint256 → List Uint512}
    (h : Mirrors db log) {a : Uint256} (hAllowed : Allowed kind db log (.erase a)) :
    Mirrors (call kind db (.erase a)) (listCall log (.erase a)) := by
  rcases hAllowed with hNone | ⟨hSome, hClient⟩
  · have hEmpty : log a = [] := by
      have hCount := h.sequence a
      rw [EventStore.ReadSequence, hNone] at hCount
      exact List.length_eq_zero_iff.mp hCount.symm
    have hSame : listCall log (.erase a) = log := by
      rw [listCall, hEmpty, List.dropLast_nil, ← hEmpty, Function.update_eq_self]
    rw [erase_none hNone, hSame]
    exact h
  · have hCount := h.sequence a
    have hPos := List.length_pos_of_ne_nil hSome
    cases hSequence : db.sequence a with
    | none =>
        rw [EventStore.ReadSequence, hSequence] at hCount
        exact absurd hCount.symm (by simpa using hSome)
    | some n =>
        obtain ⟨hNew, hEntry, hSame⟩ := erase_fields hSequence hClient
        rw [EventStore.ReadSequence, hSequence, Option.getD_some] at hCount
        have hLess : (n - 1).toNat = (log a).length - 1 := by
          rw [UInt32.toNat_sub_of_le _ _ (by
            rw [UInt32.le_iff_toNat_le, UInt32.toNat_one]
            omega), UInt32.toNat_one, hCount]
        constructor
        · intro b
          rw [EventStore.ReadSequence, hNew, listCall]
          by_cases hb : b = a
          · subst hb
            rw [Function.update_self, Function.update_self, Option.getD_some, hLess,
              List.length_dropLast]
          · rw [Function.update_of_ne hb, Function.update_of_ne hb]
            exact h.sequence b
        · intro b m
          rw [hEntry, listCall]
          by_cases hb : b = a
          · subst hb
            rw [Function.update_self, List.getElem?_dropLast]
            by_cases hm : m = n - 1
            · subst hm
              rw [Function.update_self, if_neg (by omega)]
            · have hNat : m.toNat ≠ (log b).length - 1 := by
                rw [← hLess]
                exact fun hEq => hm (UInt32.toNat_inj.mp hEq)
              rw [Function.update_of_ne (by simpa using hm), h.entry b m]
              by_cases hIn : m.toNat < (log b).length - 1
              · rw [if_pos hIn]
              · rw [if_neg hIn, List.getElem?_eq_none (by omega)]
          · rw [Function.update_of_ne (by simp [hb]), Function.update_of_ne hb]
            exact h.entry b m
        · intro b hashTx hMem
          rw [hSame]
          rw [listCall] at hMem
          by_cases hb : b = a
          · subst hb
            rw [Function.update_self] at hMem
            exact h.stored b hashTx (List.mem_of_mem_dropLast hMem)
          · rw [Function.update_of_ne hb] at hMem
            exact h.stored b hashTx hMem

/-! ## Runs -/

/-- A database in which no event was written. -/
structure Fresh (db : EventStore τ) : Prop where
  sequence : ∀ a, db.sequence a = none
  index : ∀ key, db.index key = none
  clientIndex : ∀ key, db.clientIndex key = none

theorem mirrors_run {kind : Kind} {db₀ db : EventStore τ} {log : Uint256 → List Uint512}
    (hFresh : Fresh db₀) (h : Run kind db₀ db log) : Mirrors db log := by
  induction h with
  | start =>
      constructor
      · intro a
        simp [EventStore.ReadSequence, hFresh.sequence]
      · intro a n
        rw [entry]
        split
        · exact hFresh.clientIndex _
        · exact hFresh.index _
      · intro a hashTx hMem
        exact absurd hMem (List.not_mem_nil)
  | step c _ hAllowed ih =>
      cases c with
      | write a hashTx => exact mirrors_write ih hAllowed
      | erase a => exact mirrors_erase ih hAllowed

theorem Mirrors.readsList {db : EventStore τ} {log : Uint256 → List Uint512} (h : Mirrors db log)
    (a : Uint256) : ReadsList db (log a) a where
  sequence := h.sequence a
  event n := by rw [ReadEvent_eq, h.entry]

/-- A stored transaction is read under its hash. -/
def Hashed (GetHash : τ → Uint512) (db : EventStore τ) : Prop :=
  ∀ hashTx tx, stored db hashTx = some tx → GetHash tx = hashTx

theorem Mirrors.readsLast {GetHash : τ → Uint512} {db : EventStore τ}
    {log : Uint256 → List Uint512} (h : Mirrors db log) (hHash : Hashed GetHash db) (a : Uint256) :
    ReadsLast .ledger GetHash db (log a) a := by
  have hCount := h.sequence a
  show EventStore.LedgerDB.ReadLastEvent db GetHash a = _
  by_cases hPos : 0 < db.ReadSequence a
  · have hNat : 0 < (db.ReadSequence a).toNat := UInt32.lt_iff_toNat_lt.mp hPos
    have hLess : (db.ReadSequence a - 1).toNat = (log a).length - 1 := by
      rw [UInt32.toNat_sub_of_le _ _ (by
        rw [UInt32.le_iff_toNat_le, UInt32.toNat_one]
        omega), UInt32.toNat_one, hCount]
    have hLast : (log a)[(log a).length - 1]? = (log a).getLast? := List.getLast?_eq_getElem?.symm
    obtain ⟨hashTx, hGet⟩ : ∃ hashTx, (log a).getLast? = some hashTx := by
      rw [← Option.isSome_iff_exists, List.getLast?_isSome]
      rintro hNil
      rw [hNil] at hCount
      simp at hCount
      omega
    obtain ⟨tx, hTx⟩ := Option.isSome_iff_exists.mp (h.stored a hashTx (List.mem_of_getLast? hGet))
    simp only [EventStore.LedgerDB.ReadLastEvent, hPos, if_true, ReadEvent_eq, h.entry, hLess, hLast, hGet]
    show ((Events.stored db hashTx).map fun tx => some (GetHash tx)) = _
    rw [hTx]
    show some (some (GetHash tx)) = some (some hashTx)
    rw [hHash hashTx tx hTx]
  · have hZero : log a = [] := by
      have hNat : ¬ 0 < (db.ReadSequence a).toNat := fun h => hPos (UInt32.lt_iff_toNat_lt.mpr h)
      exact List.length_eq_zero_iff.mp (by omega)
    simp [EventStore.LedgerDB.ReadLastEvent, hPos, hZero]

/-- The key at the counter is not set, so the last event of `LegacyDB` is never found. -/
theorem Mirrors.legacy_last {GetHash : τ → Uint512} {db : EventStore τ}
    {log : Uint256 → List Uint512} (h : Mirrors db log) (a : Uint256) :
    ReadsLast .legacy GetHash db (log a) a ↔ log a = [] := by
  have hCount := h.sequence a
  show EventStore.LegacyDB.ReadLastEvent db GetHash a = _ ↔ _
  by_cases hPos : 0 < db.ReadSequence a
  · have hNat : 0 < (db.ReadSequence a).toNat := UInt32.lt_iff_toNat_lt.mp hPos
    have hSome : log a ≠ [] := by
      rintro hNil
      rw [hNil] at hCount
      simp at hCount
      omega
    have hNone : db.ReadEvent a (db.ReadSequence a) = none := by
      rw [ReadEvent_eq, h.entry, hCount, List.getElem?_eq_none le_rfl]
      rfl
    simp [EventStore.LegacyDB.ReadLastEvent, hPos, hNone, hSome]
  · have hZero : log a = [] := by
      have hNat : ¬ 0 < (db.ReadSequence a).toNat := fun h => hPos (UInt32.lt_iff_toNat_lt.mpr h)
      exact List.length_eq_zero_iff.mp (by omega)
    simp [EventStore.LegacyDB.ReadLastEvent, hPos, hZero]

theorem stored_run {kind : Kind} {db₀ db : EventStore τ} {log : Uint256 → List Uint512}
    (h : Run kind db₀ db log) : stored db = stored db₀ := by
  induction h with
  | start => rfl
  | step c _ hAllowed ih =>
      cases c with
      | write a hashTx => exact (write_fields hAllowed.1).2.2.trans ih
      | erase a =>
          rcases hAllowed with hNone | ⟨-, hClient⟩
          · rw [erase_none hNone, ih]
          · rename_i db log _
            cases hSequence : db.sequence a with
            | none => rw [erase_none hSequence, ih]
            | some n => exact (erase_fields hSequence hClient).2.2.trans ih

/-- An erase of an empty log changes nothing where no event was ever written, and only there. -/
theorem Mirrors.erase_empty {kind : Kind} {db : EventStore τ} {log : Uint256 → List Uint512}
    (h : Mirrors db log) {a : Uint256} (hEmpty : log a = []) :
    call kind db (.erase a) = db ↔ db.sequence a = none := by
  constructor
  · intro hSame
    cases hSequence : db.sequence a with
    | none => rfl
    | some n =>
        have hCount := h.sequence a
        rw [EventStore.ReadSequence, hSequence, hEmpty] at hCount
        have hZero : n = 0 := UInt32.toNat_inj.mp hCount
        have hNew : (call kind db (.erase a)).sequence a = some (n - 1) := by
          cases kind with
          | ledger =>
              simp [call, EraseEvent, EventStore.LedgerDB.EraseEvent, hSequence, EventStore.WriteSequence,
                EventStore.Erase]
          | legacy =>
              cases hMode : db.fClient <;>
                simp [call, EraseEvent, EventStore.LegacyDB.EraseEvent, hSequence, EventStore.WriteSequence,
                  EventStore.ClientErase, EventStore.Erase, hMode]
        rw [hSame, hSequence, hZero] at hNew
        exact absurd (Option.some.inj hNew) (by decide)
  · exact erase_none

end Events

open Events

/-- In every run of allowed calls the counter and the events are those of the list, and so is the
last event in `LedgerDB`; in `LegacyDB` it is for the addresses whose log is empty.  An erase of
an empty log changes nothing where no event was ever written. -/
theorem event_log {τ : Type} {GetHash : τ → Uint512} {kind : Kind} {db₀ db : EventStore τ}
    {log : Uint256 → List Uint512} (hFresh : Fresh db₀) (hHash : Hashed GetHash db₀)
    (h : Run kind db₀ db log) (a : Uint256) :
    ReadsList db (log a) a ∧
    (ReadsLast kind GetHash db (log a) a ↔ kind = .ledger ∨ log a = []) ∧
    (log a = [] → (call kind db (.erase a) = db ↔ db.sequence a = none)) := by
  have hMirrors := mirrors_run hFresh h
  have hHashed : Hashed GetHash db := by
    intro hashTx tx hTx
    rw [stored_run h] at hTx
    exact hHash hashTx tx hTx
  refine ⟨hMirrors.readsList a, ?_, fun hEmpty => hMirrors.erase_empty hEmpty⟩
  cases kind with
  | ledger => exact ⟨fun _ => .inl rfl, fun _ => hMirrors.readsLast hHashed a⟩
  | legacy =>
      rw [hMirrors.legacy_last a]
      simp

/-- One stored transaction, of the hash 1. -/
def oneEvent : EventStore Unit :=
  { fClient := false
    transactions := fun hashTx => if hashTx = 1 then some () else none
    clientTransactions := fun _ => none }

/-- Stored transactions, each of which is its hash. -/
def storedOf (hashes : List Uint512) : EventStore Uint512 :=
  { fClient := false
    transactions := fun hashTx => hashes.find? fun hash => hash = hashTx
    clientTransactions := fun _ => none }

theorem storedOf_fresh (hashes : List Uint512) :
    Fresh (storedOf hashes) ∧ Hashed id (storedOf hashes) := by
  refine ⟨⟨fun _ => rfl, fun _ => rfl, fun _ => rfl⟩, ?_⟩
  intro hashTx tx hTx
  have hFind : (hashes.find? fun hash => hash = hashTx) = some tx := hTx
  have hHash := List.find?_some hFind
  rw [decide_eq_true_iff] at hHash
  exact hHash

def threeStored : EventStore Uint512 := storedOf [1, 2, 3]

/-- The database and the lists behind some calls, the newest first. -/
def behindCalls (kind : Kind) (db₀ : EventStore τ) :
    List Call → EventStore τ × (Uint256 → List Uint512)
  | [] => (db₀, fun _ => [])
  | c :: calls =>
      let s := behindCalls kind db₀ calls
      (call kind s.1 c, listCall s.2 c)

theorem Run.behindCalls {kind : Kind} {db₀ : EventStore τ} {calls : List Call} {c : Call}
    (h : Run kind db₀ (behindCalls kind db₀ calls).1 (behindCalls kind db₀ calls).2)
    (hAllowed : Allowed kind (behindCalls kind db₀ calls).1 (behindCalls kind db₀ calls).2 c) :
    Run kind db₀ (behindCalls kind db₀ (c :: calls)).1 (behindCalls kind db₀ (c :: calls)).2 :=
  .step c h hAllowed

/-- Of the events of an address one is erased, and another written in its place. -/
def eventCalls : List Call := [.write 0 3, .erase 0, .write 0 2, .write 4 2, .write 0 1]

theorem eventCalls_run :
    Run .ledger threeStored (behindCalls .ledger threeStored eventCalls).1
      (behindCalls .ledger threeStored eventCalls).2 := by
  refine Run.behindCalls (Run.behindCalls (Run.behindCalls (Run.behindCalls (Run.behindCalls .start
    ⟨?_, ?_⟩) ⟨?_, ?_⟩) ⟨?_, ?_⟩) (.inr ⟨?_, fun _ => ?_⟩)) ⟨?_, ?_⟩
  all_goals decide +kernel

theorem event_log_three :
    ReadsList (behindCalls .ledger threeStored eventCalls).1 [1, 3] 0 ∧
      ReadsLast .ledger id (behindCalls .ledger threeStored eventCalls).1 [1, 3] 0 := by
  have hLog : (behindCalls .ledger threeStored eventCalls).2 0 = [1, 3] := by decide +kernel
  obtain ⟨hReads, hLast, -⟩ := event_log (storedOf_fresh _).1 (storedOf_fresh _).2 eventCalls_run 0
  rw [hLog] at hReads hLast
  exact ⟨hReads, hLast.mpr (.inl rfl)⟩

/-- After one write `LegacyDB` does not find the last event; after a write and two erases the
counter has wrapped, in both databases. -/
theorem event_log_breaks :
    ReadLastEvent .legacy (call .legacy oneEvent (.write 0 1)) (fun _ => 1) 0 = none ∧
    ∀ kind, (call kind (call kind (call kind oneEvent (.write 0 1)) (.erase 0))
      (.erase 0)).ReadSequence 0 = 4294967295 := by
  refine ⟨by decide +kernel, ?_⟩
  intro kind
  cases kind with
  | ledger => decide +kernel
  | legacy => decide +kernel

end Nexus.Safety
