import Nexus.LLD.Sector

/-!
# The journal of a transaction

Replaying a journal takes the entries in the order of the calls, so that what is recovered is the
transaction without the steps the replay leaves out: a call that takes a key back from
the erased ones.
-/

namespace Nexus.Safety

open Nexus.Lib.Bytes
open Nexus.Lib.Checked
open Nexus.Util
open Nexus.LLD
open Std (ExtTreeMap ExtTreeSet)

/-! ## Reading more of a file -/

/-- The same cursor over more data. -/
def Extends (s s' : Stream) : Prop :=
  s'.nReadPos = s.nReadPos ∧ ∃ vchMore, s'.vchData = s.vchData ++ vchMore

theorem Extends.advance {s s' : Stream} (h : Extends s s') (n : Nat) :
    Extends (s.advance n) (s'.advance n) := by
  obtain ⟨hPos, vchMore, hData⟩ := h
  exact ⟨by simp only [Stream.advance, hPos], vchMore, hData⟩

theorem read_extends {s s' t : Stream} {n : Nat} {vch : List UInt8} (h : Extends s s')
    (hRead : s.read n = .ok (vch, t)) : ∃ t', s'.read n = .ok (vch, t') ∧ Extends t t' := by
  obtain ⟨hFits, hBytes, hTo⟩ := Stream.read_eq_ok.mp hRead
  have hNext := h.advance n
  obtain ⟨hPos, vchMore, hData⟩ := h
  have hFits' : s'.Fits n := by
    unfold Stream.Fits Stream.size at hFits ⊢
    rw [hPos, hData, List.length_append]
    omega
  have hEnough : n ≤ (s.vchData.drop s.nReadPos).length := by
    unfold Stream.Fits Stream.size at hFits
    rw [List.length_drop]
    omega
  have hStart : s.nReadPos ≤ s.vchData.length := by
    unfold Stream.Fits Stream.size at hFits
    omega
  refine ⟨s'.advance n, Stream.read_eq_ok.mpr ⟨hFits', ?_, rfl⟩, hTo ▸ hNext⟩
  rw [hBytes, hPos, hData, List.drop_append_of_le_length hStart, List.take_append_of_le_length hEnough]

theorem extract_extends {α : Type} [FixedWidth α] {s s' t : Stream} {a : α} (h : Extends s s')
    (hRead : s.extract α = .ok (a, t)) : ∃ t', s'.extract α = .ok (a, t') ∧ Extends t t' := by
  obtain ⟨⟨vch, u⟩, hBytes, hValue⟩ := bind_eq_ok.mp hRead
  obtain ⟨t', hBytes', hNext⟩ := read_extends h hBytes
  cases hValue
  exact ⟨t', by rw [Stream.extract, hBytes']; rfl, hNext⟩

theorem readSize_extends {s s' t : Stream} {chSize : UInt8} {n : Nat} (h : Extends s s')
    (hRead : Stream.readSize chSize s = .ok (n, t)) :
    ∃ t', Stream.readSize chSize s' = .ok (n, t') ∧ Extends t t' := by
  have hWide : ∀ (α : Type) [FixedWidth α] (f : α → Nat),
      (s.extract α).map (fun (x, u) => (f x, u)) = .ok (n, t) →
      ∃ t', (s'.extract α).map (fun (x, u) => (f x, u)) = .ok (n, t') ∧ Extends t t' := by
    intro α _ f hMap
    obtain ⟨⟨a, u⟩, hOne, hPair⟩ := map_eq_ok.mp hMap
    cases hPair
    obtain ⟨t', hOne', hNext⟩ := extract_extends h hOne
    exact ⟨t', by rw [hOne', map_ok], hNext⟩
  unfold Stream.readSize at hRead ⊢
  split_ifs at hRead ⊢ with h1 h2 h3
  · cases hRead
    exact ⟨s', rfl, h⟩
  · exact hWide UInt16 _ hRead
  · exact hWide UInt32 _ hRead
  · exact hWide UInt64 _ hRead

theorem extractBytes_extends {s s' t : Stream} {vch : List UInt8} (h : Extends s s')
    (hRead : s.extractBytes = .ok (vch, t)) :
    ∃ t', s'.extractBytes = .ok (vch, t') ∧ Extends t t' := by
  obtain ⟨⟨n, u⟩, hSize, hBytes⟩ := bind_eq_ok.mp hRead
  obtain ⟨⟨chSize, v⟩, hByte, hRest⟩ := bind_eq_ok.mp hSize
  obtain ⟨⟨n', w⟩, hSizeRet, hLimit⟩ := bind_eq_ok.mp hRest
  obtain ⟨_, hMax, hPair⟩ := bind_eq_ok.mp hLimit
  cases hPair
  obtain ⟨v', hByte', hNext⟩ := extract_extends h hByte
  obtain ⟨w', hSizeRet', hNext'⟩ := readSize_extends hNext hSizeRet
  obtain ⟨t', hBytes', hNext''⟩ := read_extends hNext' hBytes
  refine ⟨t', ?_, hNext''⟩
  rw [Stream.extractBytes, Stream.readCompactSize, hByte', ok_bind]
  simp only [hSizeRet', ok_bind, hMax]
  exact hBytes'

theorem readEntry_extends {s s' t : Stream} {strType : Bytes} {c : Option SectorCall}
    (h : Extends s s') (hRead : readEntry strType s = .ok (c, t)) :
    ∃ t', readEntry strType s' = .ok (c, t') ∧ Extends t t' := by
  have hOne : ∀ f : Bytes → SectorCall,
      (do let read ← s.extractBytes; return (some (f read.1), read.2)) = .ok (c, t) →
      ∃ t', (do let read ← s'.extractBytes; return (some (f read.1), read.2)) = .ok (c, t') ∧
        Extends t t' := by
    intro f hBody
    obtain ⟨⟨vKey, u⟩, hKey, hPair⟩ := bind_eq_ok.mp hBody
    obtain ⟨t', hKey', hNext⟩ := extractBytes_extends h hKey
    cases hPair
    exact ⟨t', by rw [hKey']; rfl, hNext⟩
  have hTwo : ∀ f : Bytes → Bytes → SectorCall,
      (do let key ← s.extractBytes
          let data ← key.2.extractBytes
          return (some (f key.1 data.1), data.2)) = .ok (c, t) →
      ∃ t', (do let key ← s'.extractBytes
                let data ← key.2.extractBytes
                return (some (f key.1 data.1), data.2)) = .ok (c, t') ∧ Extends t t' := by
    intro f hBody
    obtain ⟨⟨vKey, u⟩, hKey, hRest⟩ := bind_eq_ok.mp hBody
    obtain ⟨u', hKey', hNext⟩ := extractBytes_extends h hKey
    obtain ⟨⟨vData, w⟩, hData, hPair⟩ := bind_eq_ok.mp hRest
    obtain ⟨t', hData', hNext'⟩ := extractBytes_extends hNext hData
    cases hPair
    exact ⟨t', by rw [hKey', ok_bind]; simp only [hData']; rfl, hNext'⟩
  unfold readEntry at hRead ⊢
  split_ifs at hRead ⊢ with hErase hKey hWrite hIndex
  · exact hOne _ hRead
  · exact hOne _ hRead
  · exact hTwo _ hRead
  · exact hTwo _ hRead
  · cases hRead
    exact ⟨s', rfl, h⟩

theorem not_atEnd_of_extractBytes {s t : Stream} {vch : List UInt8}
    (h : s.extractBytes = .ok (vch, t)) : ¬ s.atEnd := by
  obtain ⟨⟨n, u⟩, hSize, _⟩ := bind_eq_ok.mp h
  obtain ⟨⟨chSize, v⟩, hByte, _⟩ := bind_eq_ok.mp hSize
  obtain ⟨hFits, _⟩ := Stream.extract_eq_ok.mp hByte
  unfold Stream.Fits at hFits
  rw [width_uint8] at hFits
  simp only [Stream.atEnd, beq_iff_eq]
  omega

/-- What one turn of the recovery reads. -/
theorem readJournal_succ {nFuel : Nat} {s t : Stream}
    {pTransaction pRecovered : SectorTransaction} :
    readJournal (nFuel + 1) s pTransaction = .ok (pRecovered, t) ↔
      ∃ strType u c v, s.extractBytes = .ok (strType, u) ∧ readEntry strType u = .ok (c, v) ∧
        ((∃ d, c = some d ∧ readJournal nFuel v (pTransaction.restore d) = .ok (pRecovered, t)) ∨
          (c = none ∧ strType = bytesOf "commit" ∧ pRecovered = pTransaction ∧ t = v) ∨
          (c = none ∧ strType ≠ bytesOf "commit" ∧
            readJournal nFuel v pTransaction = .ok (pRecovered, t))) := by
  constructor
  · intro h
    rw [readJournal] at h
    by_cases hEnd : s.atEnd
    · rw [if_pos hEnd] at h
      cases h
    · rw [if_neg hEnd] at h
      obtain ⟨⟨strType, u⟩, hType, hRest⟩ := bind_eq_ok.mp h
      obtain ⟨⟨c, v⟩, hEntry, hLast⟩ := bind_eq_ok.mp hRest
      refine ⟨strType, u, c, v, hType, hEntry, ?_⟩
      cases c with
      | some d => exact .inl ⟨d, rfl, hLast⟩
      | none =>
          by_cases hCommit : strType = bytesOf "commit"
          · simp only [hCommit, if_true, pure_eq_ok, Prod.mk.injEq] at hLast
            exact .inr (.inl ⟨rfl, hCommit, hLast.1.symm, hLast.2.symm⟩)
          · simp only [hCommit, if_false] at hLast
            exact .inr (.inr ⟨rfl, hCommit, hLast⟩)
  · intro ⟨strType, u, c, v, hType, hEntry, hRest⟩
    rw [readJournal, if_neg (not_atEnd_of_extractBytes hType), hType, ok_bind]
    simp only [hEntry, ok_bind]
    rcases hRest with ⟨d, hSome, hRest⟩ | ⟨hNone, hCommit, hSame, hEnd⟩ | ⟨hNone, hOther, hRest⟩
    · rw [hSome]
      exact hRest
    · rw [hNone, hSame, hEnd]
      simp only [hCommit, if_true]
      rfl
    · rw [hNone]
      simp only [hOther, if_false]
      exact hRest

/-- A recovery that reaches the end of a transaction does so with more data behind it. -/
theorem readJournal_extends {nFuel nFuel' : Nat} {s s' t : Stream}
    {pTransaction pRecovered : SectorTransaction} (h : Extends s s') (hFuel : nFuel ≤ nFuel')
    (hRead : readJournal nFuel s pTransaction = .ok (pRecovered, t)) :
    ∃ t', readJournal nFuel' s' pTransaction = .ok (pRecovered, t') ∧ Extends t t' := by
  induction nFuel generalizing nFuel' s s' pTransaction with
  | zero => cases hRead
  | succ nFuel ih =>
      cases nFuel' with
      | zero => omega
      | succ nFuel' =>
          have hLess : nFuel ≤ nFuel' := by omega
          obtain ⟨strType, u, c, v, hType, hEntry, hRest⟩ := readJournal_succ.mp hRead
          obtain ⟨u', hType', hNext⟩ := extractBytes_extends h hType
          obtain ⟨v', hEntry', hNext'⟩ := readEntry_extends hNext hEntry
          simp only [readJournal_succ]
          rcases hRest with ⟨d, hSome, hRest⟩ | ⟨hNone, hCommit, hSame, hEnd⟩ | ⟨hNone, hOther, hRest⟩
          · obtain ⟨t', hRest', hLast⟩ := ih hNext' hLess hRest
            exact ⟨t', ⟨strType, u', c, v', hType', hEntry', .inl ⟨d, hSome, hRest'⟩⟩, hLast⟩
          · exact ⟨v', ⟨strType, u', c, v', hType', hEntry',
              .inr (.inl ⟨hNone, hCommit, hSame, rfl⟩)⟩, hEnd ▸ hNext'⟩
          · obtain ⟨t', hRest', hLast⟩ := ih hNext' hLess hRest
            exact ⟨t', ⟨strType, u', c, v', hType', hEntry',
              .inr (.inr ⟨hNone, hOther, hRest'⟩)⟩, hLast⟩

/-- A cursor over the same data, not behind its end. -/
def Inside (s t : Stream) : Prop := t.vchData = s.vchData ∧ t.nReadPos ≤ s.vchData.length

theorem extractBytes_inside {s t : Stream} {vch : List UInt8}
    (h : s.extractBytes = .ok (vch, t)) : Inside s t := by
  obtain ⟨n, hFits, hTo, _⟩ := Stream.extractBytes_advance h
  rw [hTo]
  exact ⟨rfl, hFits⟩

theorem Inside.trans {s t u : Stream} (h : Inside s t) (h' : Inside t u) : Inside s u := by
  unfold Inside at h h' ⊢
  rw [h.1] at h'
  exact h'

theorem readEntry_inside {s t : Stream} {strType : Bytes} {c : Option SectorCall}
    (hHere : s.nReadPos ≤ s.vchData.length) (h : readEntry strType s = .ok (c, t)) :
    Inside s t := by
  unfold readEntry at h
  split_ifs at h with hErase hKey hWrite hIndex
  · obtain ⟨⟨vKey, u⟩, hKey, hPair⟩ := bind_eq_ok.mp h
    cases hPair
    exact extractBytes_inside hKey
  · obtain ⟨⟨vKey, u⟩, hKey, hPair⟩ := bind_eq_ok.mp h
    cases hPair
    exact extractBytes_inside hKey
  · obtain ⟨⟨vKey, u⟩, hKey, hRest⟩ := bind_eq_ok.mp h
    obtain ⟨⟨vData, v⟩, hData, hPair⟩ := bind_eq_ok.mp hRest
    cases hPair
    exact (extractBytes_inside hKey).trans (extractBytes_inside hData)
  · obtain ⟨⟨vKey, u⟩, hKey, hRest⟩ := bind_eq_ok.mp h
    obtain ⟨⟨vData, v⟩, hData, hPair⟩ := bind_eq_ok.mp hRest
    cases hPair
    exact (extractBytes_inside hKey).trans (extractBytes_inside hData)
  · cases h
    exact ⟨rfl, hHere⟩

theorem readJournal_inside {nFuel : Nat} {s t : Stream}
    {pTransaction pRecovered : SectorTransaction}
    (h : readJournal nFuel s pTransaction = .ok (pRecovered, t)) : Inside s t := by
  induction nFuel generalizing s pTransaction with
  | zero => cases h
  | succ nFuel ih =>
      obtain ⟨strType, u, c, v, hType, hEntry, hRest⟩ := readJournal_succ.mp h
      have hFirst := extractBytes_inside hType
      have hHere : u.nReadPos ≤ u.vchData.length := by
        rw [hFirst.1]
        exact hFirst.2
      have hTurn := hFirst.trans (readEntry_inside hHere hEntry)
      rcases hRest with ⟨d, _, hRest⟩ | ⟨_, _, _, hEnd⟩ | ⟨_, _, hRest⟩
      · exact hTurn.trans (ih hRest)
      · rw [hEnd]
        exact hTurn
      · exact hTurn.trans (ih hRest)

/-! ## Reading what was written -/

/-- Key and data are small enough to be read back. -/
def Readable (c : SectorCall) : Prop := ∀ vch ∈ c.fields, vch.length ≤ Stream.MAX_SIZE

/-- Key and data have the size of a vector. -/
def Sized (c : SectorCall) : Prop := ∀ vch ∈ c.fields, vch.length < 2 ^ 64

theorem extractBytes_too_large {s : Stream} {vch vchRest : List UInt8} (h0 : s.Fits 0)
    (hMax : ¬ vch.length ≤ Stream.MAX_SIZE) (hWord : vch.length < 2 ^ 64)
    (h : s.vchData.drop s.nReadPos = serializeBytes vch ++ vchRest) {r : Bytes × Stream} :
    s.extractBytes ≠ .ok r := by
  rw [serializeBytes, List.append_assoc] at h
  have hSize := Stream.readCompactSize_too_large h0 (Nat.lt_of_not_le hMax) hWord h
  intro hRead
  obtain ⟨_, hOk, _⟩ := bind_eq_ok.mp hRead
  rw [hOk] at hSize
  cases hSize

/-- The cursor is in front of the data. -/
def At (s : Stream) (vch : List UInt8) : Prop :=
  s.Fits 0 ∧ s.vchData.drop s.nReadPos = vch

theorem At.extract {s : Stream} {vch vchRest : List UInt8} (h : At s (serializeBytes vch ++ vchRest))
    (hMax : vch.length ≤ Stream.MAX_SIZE) :
    s.extractBytes = .ok (vch, s.advance (serializeBytes vch).length) ∧
      At (s.advance (serializeBytes vch).length) vchRest :=
  Stream.extractBytes_step h.1 hMax h.2

theorem strType_readable (c : SectorCall) : c.strType.length ≤ Stream.MAX_SIZE := by
  cases c with
  | write _ _ => exact (by decide : (bytesOf "write").length ≤ Stream.MAX_SIZE)
  | key _ => exact (by decide : (bytesOf "key").length ≤ Stream.MAX_SIZE)
  | erase _ => exact (by decide : (bytesOf "erase").length ≤ Stream.MAX_SIZE)
  | index _ _ => exact (by decide : (bytesOf "index").length ≤ Stream.MAX_SIZE)

section Entry

variable {s t : Stream} {vchRest vKey vData : List UInt8} {c d : SectorCall} {f : Bytes → SectorCall}
variable {g : Bytes → Bytes → SectorCall} {o : Option SectorCall}

/-- An entry of a key. -/
def readOne (f : Bytes → SectorCall) (s : Stream) : Result (Option SectorCall × Stream) := do
  let (vKey, s) ← s.extractBytes
  return (some (f vKey), s)

/-- An entry of a key and data. -/
def readTwo (g : Bytes → Bytes → SectorCall) (s : Stream) : Result (Option SectorCall × Stream) := do
  let (vKey, s) ← s.extractBytes
  let (vData, s) ← s.extractBytes
  return (some (g vKey vData), s)

theorem readEntry_erase : readEntry (bytesOf "erase") s = readOne .erase s := by
  rw [readEntry, if_pos rfl, readOne]

theorem readEntry_key : readEntry (bytesOf "key") s = readOne .key s := by
  rw [readEntry, if_neg (by decide), if_pos rfl, readOne]

theorem readEntry_write : readEntry (bytesOf "write") s = readTwo .write s := by
  rw [readEntry, if_neg (by decide), if_neg (by decide), if_pos rfl, readTwo]

theorem readEntry_index : readEntry (bytesOf "index") s = readTwo .index s := by
  rw [readEntry, if_neg (by decide), if_neg (by decide), if_neg (by decide), if_pos rfl, readTwo]

theorem readOne_of_readable (h : vKey.length ≤ Stream.MAX_SIZE)
    (hAt : At s (serializeBytes vKey ++ vchRest)) :
    ∃ t, readOne f s = .ok (some (f vKey), t) ∧ At t vchRest ∧
      t.nReadPos = s.nReadPos + (serializeBytes vKey).length := by
  obtain ⟨hKey, hNext⟩ := hAt.extract h
  exact ⟨_, by rw [readOne, hKey]; rfl, hNext, rfl⟩

theorem readTwo_of_readable (hKeyMax : vKey.length ≤ Stream.MAX_SIZE)
    (hDataMax : vData.length ≤ Stream.MAX_SIZE)
    (hAt : At s (serializeBytes vKey ++ (serializeBytes vData ++ vchRest))) :
    ∃ t, readTwo g s = .ok (some (g vKey vData), t) ∧ At t vchRest ∧
      t.nReadPos = s.nReadPos + ((serializeBytes vKey).length + (serializeBytes vData).length) := by
  obtain ⟨hKey, hNext⟩ := hAt.extract hKeyMax
  obtain ⟨hData, hLast⟩ := hNext.extract hDataMax
  refine ⟨_, ?_, hLast, Nat.add_assoc ..⟩
  rw [readTwo, hKey, ok_bind]
  simp only [hData, ok_bind]
  rfl

theorem readable_of_readOne (hSized : vKey.length < 2 ^ 64)
    (hAt : At s (serializeBytes vKey ++ vchRest)) (h : readOne f s = .ok (o, t)) :
    vKey.length ≤ Stream.MAX_SIZE := by
  by_contra hMax
  obtain ⟨r, hKey, _⟩ := bind_eq_ok.mp h
  exact extractBytes_too_large hAt.1 hMax hSized hAt.2 hKey

theorem readable_of_readTwo (hKeySized : vKey.length < 2 ^ 64) (hDataSized : vData.length < 2 ^ 64)
    (hAt : At s (serializeBytes vKey ++ (serializeBytes vData ++ vchRest)))
    (h : readTwo g s = .ok (o, t)) :
    vKey.length ≤ Stream.MAX_SIZE ∧ vData.length ≤ Stream.MAX_SIZE := by
  obtain ⟨r, hKey, hRest⟩ := bind_eq_ok.mp h
  have hKeyMax : vKey.length ≤ Stream.MAX_SIZE := by
    by_contra hMax
    exact extractBytes_too_large hAt.1 hMax hKeySized hAt.2 hKey
  obtain ⟨hKey', hNext⟩ := hAt.extract hKeyMax
  rw [hKey'] at hKey
  cases hKey
  obtain ⟨r, hData, _⟩ := bind_eq_ok.mp hRest
  refine ⟨hKeyMax, ?_⟩
  by_contra hMax
  exact extractBytes_too_large hNext.1 hMax hDataSized hNext.2 hData

theorem readEntry_of_readable (h : Readable c)
    (hAt : At s (c.fields.flatMap serializeBytes ++ vchRest)) :
    ∃ t, readEntry c.strType s = .ok (some c, t) ∧ At t vchRest ∧
      t.nReadPos = s.nReadPos + (c.fields.flatMap serializeBytes).length := by
  cases c with
  | write vKey vData =>
      simp only [Readable, SectorCall.fields, List.forall_mem_cons] at h
      simp only [SectorCall.fields, List.flatMap_cons, List.flatMap_nil, List.append_nil,
        List.append_assoc, List.length_append] at hAt ⊢
      rw [SectorCall.strType, readEntry_write]
      exact readTwo_of_readable h.1 h.2.1 hAt
  | key vKey =>
      simp only [Readable, SectorCall.fields, List.forall_mem_cons] at h
      simp only [SectorCall.fields, List.flatMap_cons, List.flatMap_nil, List.append_nil] at hAt ⊢
      rw [SectorCall.strType, readEntry_key]
      exact readOne_of_readable h.1 hAt
  | erase vKey =>
      simp only [Readable, SectorCall.fields, List.forall_mem_cons] at h
      simp only [SectorCall.fields, List.flatMap_cons, List.flatMap_nil, List.append_nil] at hAt ⊢
      rw [SectorCall.strType, readEntry_erase]
      exact readOne_of_readable h.1 hAt
  | index vKey vIndex =>
      simp only [Readable, SectorCall.fields, List.forall_mem_cons] at h
      simp only [SectorCall.fields, List.flatMap_cons, List.flatMap_nil, List.append_nil,
        List.append_assoc, List.length_append] at hAt ⊢
      rw [SectorCall.strType, readEntry_index]
      exact readTwo_of_readable h.1 h.2.1 hAt

theorem readable_of_readEntry (hSized : Sized c)
    (hAt : At s (c.fields.flatMap serializeBytes ++ vchRest))
    (h : readEntry c.strType s = .ok (o, t)) : Readable c := by
  cases c with
  | write vKey vData =>
      simp only [Sized, SectorCall.fields, List.forall_mem_cons] at hSized
      simp only [SectorCall.fields, List.flatMap_cons, List.flatMap_nil, List.append_nil,
        List.append_assoc] at hAt
      rw [SectorCall.strType, readEntry_write] at h
      have hMax := readable_of_readTwo hSized.1 hSized.2.1 hAt h
      simpa only [Readable, SectorCall.fields, List.forall_mem_cons, List.not_mem_nil, false_implies,
        implies_true, and_true] using hMax
  | key vKey =>
      simp only [Sized, SectorCall.fields, List.forall_mem_cons] at hSized
      simp only [SectorCall.fields, List.flatMap_cons, List.flatMap_nil, List.append_nil] at hAt
      rw [SectorCall.strType, readEntry_key] at h
      have hMax := readable_of_readOne hSized.1 hAt h
      simpa only [Readable, SectorCall.fields, List.forall_mem_cons, List.not_mem_nil, false_implies,
        implies_true, and_true] using hMax
  | erase vKey =>
      simp only [Sized, SectorCall.fields, List.forall_mem_cons] at hSized
      simp only [SectorCall.fields, List.flatMap_cons, List.flatMap_nil, List.append_nil] at hAt
      rw [SectorCall.strType, readEntry_erase] at h
      have hMax := readable_of_readOne hSized.1 hAt h
      simpa only [Readable, SectorCall.fields, List.forall_mem_cons, List.not_mem_nil, false_implies,
        implies_true, and_true] using hMax
  | index vKey vIndex =>
      simp only [Sized, SectorCall.fields, List.forall_mem_cons] at hSized
      simp only [SectorCall.fields, List.flatMap_cons, List.flatMap_nil, List.append_nil,
        List.append_assoc] at hAt
      rw [SectorCall.strType, readEntry_index] at h
      have hMax := readable_of_readTwo hSized.1 hSized.2.1 hAt h
      simpa only [Readable, SectorCall.fields, List.forall_mem_cons, List.not_mem_nil, false_implies,
        implies_true, and_true] using hMax

end Entry

/-! ## The journal as a whole -/

/-- The entries of some calls and the mark behind them. -/
def journalOf (cs : List SectorCall) : Bytes :=
  cs.flatMap SectorCall.entry ++ serializeBytes (bytesOf "commit")

theorem journalOf_cons {c : SectorCall} {cs : List SectorCall} :
    journalOf (c :: cs) =
      serializeBytes c.strType ++ (c.fields.flatMap serializeBytes ++ journalOf cs) := by
  simp only [journalOf, List.flatMap_cons, SectorCall.entry, List.append_assoc]

theorem length_le_journalOf (cs : List SectorCall) : cs.length ≤ (journalOf cs).length := by
  induction cs with
  | nil => exact Nat.zero_le _
  | cons c cs ih =>
      have hName : 0 < (serializeBytes c.strType).length := by
        cases c <;> exact Nat.succ_pos _
      rw [journalOf_cons, List.length_append, List.length_append, List.length_cons]
      omega

theorem readEntry_commit {s : Stream} : readEntry (bytesOf "commit") s = .ok (none, s) := by
  rw [readEntry, if_neg (by decide), if_neg (by decide), if_neg (by decide),
    if_neg (by decide)]
  rfl

theorem commit_extract {s : Stream} (hAt : At s (journalOf [])) :
    s.extractBytes =
      .ok (bytesOf "commit", s.advance (serializeBytes (bytesOf "commit")).length) := by
  have hAt' : At s (serializeBytes (bytesOf "commit") ++ []) := by
    rw [List.append_nil]
    exact hAt
  exact (hAt'.extract (by decide)).1

/-- A journal that can be read replays the calls. -/
theorem readJournal_of_readable {cs : List SectorCall} {nFuel : Nat} {s : Stream}
    {pTransaction : SectorTransaction} (hAt : At s (journalOf cs))
    (h : ∀ c ∈ cs, Readable c) (hFuel : cs.length < nFuel) :
    ∃ t, readJournal nFuel s pTransaction =
      .ok (cs.foldl SectorTransaction.restore pTransaction, t) := by
  induction cs generalizing nFuel s pTransaction with
  | nil =>
      cases nFuel with
      | zero => cases hFuel
      | succ nFuel =>
          exact ⟨_, readJournal_succ.mpr ⟨_, _, none, _, commit_extract hAt, readEntry_commit,
            .inr (.inl ⟨rfl, rfl, rfl, rfl⟩)⟩⟩
  | cons c cs ih =>
      cases nFuel with
      | zero => cases hFuel
      | succ nFuel =>
          rw [journalOf_cons] at hAt
          obtain ⟨hType, hNext⟩ := hAt.extract (strType_readable c)
          obtain ⟨v, hEntry, hRest, _⟩ :=
            readEntry_of_readable (h c List.mem_cons_self) hNext
          obtain ⟨t, hLast⟩ := @ih nFuel _ (pTransaction.restore c) hRest
            (fun d hMem => h d (List.mem_cons_of_mem _ hMem))
            (by rw [List.length_cons] at hFuel; omega)
          exact ⟨t, readJournal_succ.mpr
            ⟨_, _, some c, v, hType, hEntry, .inl ⟨c, rfl, hLast⟩⟩⟩

/-- A journal that is replayed to its end can be read. -/
theorem readable_of_readJournal {cs : List SectorCall} {nFuel : Nat} {s t : Stream}
    {pTransaction pRecovered : SectorTransaction} (hAt : At s (journalOf cs))
    (hSized : ∀ c ∈ cs, Sized c)
    (h : readJournal nFuel s pTransaction = .ok (pRecovered, t)) :
    (∀ c ∈ cs, Readable c) ∧ pRecovered = cs.foldl SectorTransaction.restore pTransaction ∧
      t.nReadPos = s.nReadPos + (journalOf cs).length := by
  induction cs generalizing nFuel s pTransaction with
  | nil =>
      cases nFuel with
      | zero => cases h
      | succ nFuel =>
          obtain ⟨strType, u, c, v, hType, hEntry, hRest⟩ := readJournal_succ.mp h
          rw [commit_extract hAt] at hType
          cases hType
          rw [readEntry_commit] at hEntry
          cases hEntry
          rcases hRest with ⟨d, hSome, _⟩ | ⟨_, _, hSame, hEnd⟩ | ⟨_, hOther, _⟩
          · cases hSome
          · rw [hSame, hEnd]
            exact ⟨(fun c hMem => nomatch hMem), rfl, rfl⟩
          · exact absurd rfl hOther
  | cons c cs ih =>
      cases nFuel with
      | zero => cases h
      | succ nFuel =>
          rw [journalOf_cons] at hAt
          obtain ⟨hName, hNext⟩ := hAt.extract (strType_readable c)
          obtain ⟨strType, u, o, v, hType, hEntry, hRest⟩ := readJournal_succ.mp h
          rw [hName] at hType
          cases hType
          have hReadable := readable_of_readEntry (hSized c List.mem_cons_self) hNext hEntry
          obtain ⟨v', hEntry', hAfter, hPos⟩ := readEntry_of_readable hReadable hNext
          rw [hEntry'] at hEntry
          cases hEntry
          rcases hRest with ⟨d, hSome, hRest⟩ | ⟨hNone, _⟩ | ⟨hNone, _⟩
          · cases hSome
            obtain ⟨hAll, hSame, hEnd⟩ :=
              ih hAfter (fun d hMem => hSized d (List.mem_cons_of_mem _ hMem)) hRest
            refine ⟨List.forall_mem_cons.mpr ⟨hReadable, hAll⟩, hSame, ?_⟩
            rw [hEnd, hPos, journalOf_cons, List.length_append, List.length_append]
            simp only [Stream.advance]
            omega
          · cases hNone
          · cases hNone

/-- The recovery of a written journal replays the calls if it succeeds, and it succeeds if the
file is small enough for the counter and every key and value for its size. -/
theorem TxnRecovery_eq_ok {cs : List SectorCall} {pRecovered : SectorTransaction}
    (hSized : ∀ c ∈ cs, Sized c) :
    TxnRecovery (journalOf cs) = .ok pRecovered ↔
      (∀ c ∈ cs, Readable c) ∧ (journalOf cs).length < 2 ^ 32 ∧
        pRecovered = cs.foldl SectorTransaction.restore {} := by
  have hStart : At { vchData := journalOf cs } (journalOf cs) := ⟨Nat.zero_le _, List.drop_zero⟩
  have hSome : 0 < (journalOf cs).length := by
    rw [journalOf, List.length_append]
    have hMark : 0 < (serializeBytes (bytesOf "commit")).length := by decide
    omega
  constructor
  · intro h
    obtain ⟨_, hNotEmpty, hRest⟩ := bind_eq_ok.mp h
    obtain ⟨⟨pTransaction, t⟩, hRead, hSame⟩ := map_eq_ok.mp hRest
    cases hSame
    -- the whole file is read the same way, which ends behind its mark
    have hMore : Extends { vchData := (journalOf cs).take ((journalOf cs).length % 2 ^ 32) }
        { vchData := journalOf cs } := ⟨rfl, _, (List.take_append_drop _ _).symm⟩
    obtain ⟨t', hRead', hPos, _⟩ := readJournal_extends hMore (Nat.le_refl _) hRead
    obtain ⟨hAll, hReplayed, hEnd⟩ := readable_of_readJournal hStart hSized hRead'
    have hInside := (readJournal_inside hRead).2
    rw [List.length_take] at hInside
    have hWidth := Nat.mod_lt (journalOf cs).length (show 0 < 2 ^ 32 by decide)
    refine ⟨hAll, ?_, hReplayed⟩
    omega
  · intro ⟨hAll, hShort, hSame⟩
    have hMod : (journalOf cs).length % 2 ^ 32 = (journalOf cs).length := Nat.mod_eq_of_lt hShort
    have hFuel : cs.length < (journalOf cs).length + 1 := by
      have hEach := length_le_journalOf cs
      omega
    obtain ⟨t, hRead⟩ := @readJournal_of_readable cs _ _ {} hStart hAll hFuel
    unfold TxnRecovery
    simp only [hMod, List.take_length, hRead, map_ok, hSame]
    rw [reject_of_not (by omega), ok_bind]

/-! ## The transaction that is recovered -/

/-- The pending sets are the same. -/
def SamePending (p q : SectorTransaction) : Prop :=
  p.mapTransactions = q.mapTransactions ∧ p.setKeychain = q.setKeychain ∧
    p.mapIndex = q.mapIndex ∧ p.setErasedData = q.setErasedData

/-- The last call about a key. -/
def lastOn (vKey : Bytes) (cs : List SectorCall) : Option SectorCall :=
  (cs.filter fun c => c.vKey = vKey).getLast?

theorem lastOn_concat {vKey : Bytes} {cs : List SectorCall} {c : SectorCall} :
    lastOn vKey (cs ++ [c]) = if c.vKey = vKey then some c else lastOn vKey cs := by
  unfold lastOn
  rw [List.filter_append]
  by_cases hSame : c.vKey = vKey
  · rw [if_pos hSame, List.filter_cons_of_pos (by simpa using hSame), List.filter_nil,
      List.getLast?_concat]
  · rw [if_neg hSame, List.filter_cons_of_neg (by simpa using hSame), List.filter_nil,
      List.append_nil]

section Pending

variable {p q : SectorTransaction} {cs : List SectorCall} {c : SectorCall} {vKey : Bytes}

theorem call_ssJournal : (p.call c).ssJournal = p.ssJournal ++ c.entry := by
  cases c <;> rfl

theorem calls_concat : p.calls (cs ++ [c]) = (p.calls cs).call c := by
  unfold SectorTransaction.calls
  rw [List.foldl_append]
  rfl

/-- The journal of a transaction is that of its calls. -/
theorem TxnCheckpoint_calls :
    (({} : SectorTransaction).calls cs).TxnCheckpoint = journalOf cs := by
  have hJournal : (({} : SectorTransaction).calls cs).ssJournal = cs.flatMap SectorCall.entry := by
    induction cs using List.reverseRecOn with
    | nil => rfl
    | append_singleton cs c ih =>
        rw [calls_concat, call_ssJournal, ih, List.flatMap_append, List.flatMap_cons,
          List.flatMap_nil, List.append_nil]
  rw [SectorTransaction.TxnCheckpoint, hJournal, journalOf]

/-- The writes, keys and indexes are replayed as they were made. -/
theorem restore_rest :
    (cs.foldl SectorTransaction.restore {}).mapTransactions =
        (({} : SectorTransaction).calls cs).mapTransactions ∧
      (cs.foldl SectorTransaction.restore {}).setKeychain =
        (({} : SectorTransaction).calls cs).setKeychain ∧
      (cs.foldl SectorTransaction.restore {}).mapIndex =
        (({} : SectorTransaction).calls cs).mapIndex := by
  induction cs using List.reverseRecOn with
  | nil => exact ⟨rfl, rfl, rfl⟩
  | append_singleton cs c ih =>
      obtain ⟨hWrites, hKeys, hIndexes⟩ := ih
      rw [calls_concat, List.foldl_concat]
      cases c with
      | write vKey vData =>
          simp only [SectorTransaction.restore, SectorTransaction.call, hWrites, hKeys, hIndexes,
            and_self]
      | key vKey =>
          simp only [SectorTransaction.restore, SectorTransaction.call, hWrites, hKeys, hIndexes,
            and_self]
      | erase vKey =>
          simp only [SectorTransaction.restore, SectorTransaction.call,
            SectorTransaction.EraseTransaction, hWrites, hKeys, hIndexes, and_self]
      | index vKey vIndex =>
          simp only [SectorTransaction.restore, SectorTransaction.call, hWrites, hKeys, hIndexes,
            and_self]

/-- A key is pending for erasure if its last call erases it. -/
theorem mem_setErasedData_calls :
    vKey ∈ (({} : SectorTransaction).calls cs).setErasedData ↔
      lastOn vKey cs = some (.erase vKey) := by
  induction cs using List.reverseRecOn with
  | nil => simp [SectorTransaction.calls, lastOn]
  | append_singleton cs c ih =>
      rw [calls_concat, lastOn_concat]
      cases c with
      | write vOther vData =>
          simp only [SectorTransaction.call, ExtTreeSet.mem_erase, SectorCall.vKey, ih]
          by_cases hSame : vOther = vKey <;> simp [hSame]
      | key vOther =>
          simp only [SectorTransaction.call, ExtTreeSet.mem_erase, SectorCall.vKey, ih]
          by_cases hSame : vOther = vKey <;> simp [hSame]
      | erase vOther =>
          simp only [SectorTransaction.call, SectorTransaction.EraseTransaction,
            ExtTreeSet.mem_insert, Std.compare_eq_iff_eq, SectorCall.vKey, ih]
          by_cases hSame : vOther = vKey <;> simp [hSame]
      | index vOther vIndex =>
          simp only [SectorTransaction.call, ExtTreeSet.mem_erase, SectorCall.vKey, ih]
          by_cases hSame : vOther = vKey <;> simp [hSame]

/-- A key is erased again by the recovery if any call erases it. -/
theorem mem_setErasedData_restore :
    vKey ∈ (cs.foldl SectorTransaction.restore {}).setErasedData ↔ .erase vKey ∈ cs := by
  induction cs using List.reverseRecOn with
  | nil => simp
  | append_singleton cs c ih =>
      rw [List.foldl_concat, List.mem_append, List.mem_singleton, ← ih]
      cases c with
      | write vOther vData => simp [SectorTransaction.restore]
      | key vOther => simp [SectorTransaction.restore]
      | erase vOther =>
          simp only [SectorTransaction.restore, SectorTransaction.EraseTransaction,
            ExtTreeSet.mem_insert, Std.compare_eq_iff_eq, SectorCall.erase.injEq]
          rw [or_comm, eq_comm]
      | index vOther vIndex => simp [SectorTransaction.restore]

end Pending

/-- A journal reproduces the transaction exactly if no key comes back after it was erased, and
the journal and its parts are small enough to be read. -/
theorem journal_reproduces_iff (cs : List SectorCall) (hSized : ∀ c ∈ cs, Sized c) :
    (∃ pRecovered,
        TxnRecovery (({} : SectorTransaction).calls cs).TxnCheckpoint = .ok pRecovered ∧
          SamePending pRecovered (({} : SectorTransaction).calls cs)) ↔
      (∀ vKey, .erase vKey ∈ cs → lastOn vKey cs = some (.erase vKey)) ∧
        (∀ c ∈ cs, Readable c) ∧ (journalOf cs).length < 2 ^ 32 := by
  obtain ⟨hWrites, hKeys, hIndexes⟩ := @restore_rest cs
  rw [TxnCheckpoint_calls]
  constructor
  · intro ⟨pRecovered, hRecovered, _, _, _, hErased⟩
    obtain ⟨hAll, hShort, hSame⟩ := (TxnRecovery_eq_ok hSized).mp hRecovered
    refine ⟨fun vKey hMem => ?_, hAll, hShort⟩
    rw [← mem_setErasedData_calls, ← hErased, hSame, mem_setErasedData_restore]
    exact hMem
  · intro ⟨hLast, hAll, hShort⟩
    refine ⟨_, (TxnRecovery_eq_ok hSized).mpr ⟨hAll, hShort, rfl⟩, hWrites, hKeys, hIndexes, ?_⟩
    apply ExtTreeSet.ext_mem
    intro vKey
    rw [mem_setErasedData_calls, mem_setErasedData_restore]
    constructor
    · exact hLast vKey
    · intro hErase
      have hMem := List.mem_of_getLast? hErase
      exact (List.mem_filter.mp hMem).1

/-- A write, and an erasure of another key, are reproduced. -/
theorem journal_reproduces_two :
    (∃ pRecovered,
        TxnRecovery (({} : SectorTransaction).calls
          [.write [1] [2], .erase [3]]).TxnCheckpoint = .ok pRecovered ∧
          SamePending pRecovered (({} : SectorTransaction).calls [.write [1] [2], .erase [3]])) ↔
      (∀ vKey, .erase vKey ∈ [SectorCall.write [1] [2], .erase [3]] →
          lastOn vKey [.write [1] [2], .erase [3]] = some (.erase vKey)) ∧
        (∀ c ∈ [SectorCall.write [1] [2], .erase [3]], Readable c) ∧
          (journalOf [.write [1] [2], .erase [3]]).length < 2 ^ 32 :=
  journal_reproduces_iff _ (by
    simp only [List.forall_mem_cons, Sized, SectorCall.fields]
    decide)

/-- A key that is erased and written again is erased by the recovery. -/
theorem journal_erases_written :
    ¬ ∃ pRecovered,
        TxnRecovery (({} : SectorTransaction).calls
          [.erase [1], .write [1] [2]]).TxnCheckpoint = .ok pRecovered ∧
          SamePending pRecovered
            (({} : SectorTransaction).calls [.erase [1], .write [1] [2]]) := by
  intro ⟨pRecovered, hRecovered, _, _, _, hErased⟩
  have hReplayed : (TxnRecovery (({} : SectorTransaction).calls
      [.erase [1], .write [1] [2]]).TxnCheckpoint).toOption.map
      (fun p => p.setErasedData.contains [1]) = some true := by decide +kernel
  have hLive : (({} : SectorTransaction).calls
      [.erase [1], .write [1] [2]]).setErasedData.contains [1] = false := by decide +kernel
  rw [hRecovered, Except.toOption, Option.map_some, hErased, hLive] at hReplayed
  cases hReplayed

end Nexus.Safety
