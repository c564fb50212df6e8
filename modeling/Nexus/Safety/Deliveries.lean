import Nexus.LLP.Connection

/-!
# What a connection delivers

Packets go into the stream one behind the other and whole, or not at all.  The reader has read some
of them, and the beginning of the next one, whatever the pieces are in which the bytes were sent,
arrived and were read.  A packet without data has no effect on the other side.

## Main results

* `link_delivers`: the packets that are processed are the first of those that were sent with data,
  and all of them once nothing is under way.
-/

namespace Nexus.Safety

open Nexus.Lib.Bytes
open Nexus.Util
open Nexus.LLP

/-- The bytes of packets, one behind the other. -/
def streamOf (packets : List MessagePacket) : List UInt8 := packets.flatMap MessagePacket.GetBytes

theorem streamOf_append (packets packets' : List MessagePacket) :
    streamOf (packets ++ packets') = streamOf packets ++ streamOf packets' := List.flatMap_append

/-- The reader is between two packets, or it has the header and the first data of one: what is still
to come of the packets that it has not read. -/
inductive Partway : MessagePacket → List MessagePacket → List UInt8 → Prop
  | between {INCOMING : MessagePacket} {rest : List MessagePacket} (hHeader : INCOMING.Header = false)
      (hData : INCOMING.DATA = []) : Partway INCOMING rest (streamOf rest)
  | within {packet : MessagePacket} {rest : List MessagePacket} {taken left : List UInt8}
      (hSplit : packet.DATA = taken ++ left) (hLeft : left ≠ []) :
      Partway { packet with DATA := taken } (packet :: rest) (left ++ streamOf rest)

variable {limits : SendLimits} {link : Link} {event : Event} {events : List Event}
  {INCOMING packet : MessagePacket} {packets rest : List MessagePacket}
  {bytes tail taken left : List UInt8} {nRead : Nat}

theorem Partway.append (h : Partway INCOMING rest bytes) :
    Partway INCOMING (rest ++ packets) (bytes ++ streamOf packets) := by
  cases h with
  | between hHeader hData =>
      rw [← streamOf_append]
      exact .between hHeader hData
  | within hSplit hLeft =>
      rw [List.append_assoc, ← streamOf_append, List.cons_append]
      exact .within hSplit hLeft

/-- Two splits of one list, cut where both first parts still go on. -/
theorem take_of_append_eq {α : Type} {xs ys us vs : List α} {n : Nat} (h : xs ++ ys = us ++ vs)
    (hFirst : n ≤ xs.length) (hSecond : n ≤ us.length) :
    xs.take n = us.take n ∧ xs.drop n ++ ys = us.drop n ++ vs := by
  have hTake := congrArg (List.take n) h
  have hDrop := congrArg (List.drop n) h
  rw [List.take_append_of_le_length hFirst, List.take_append_of_le_length hSecond] at hTake
  rw [List.drop_append_of_le_length hFirst, List.drop_append_of_le_length hSecond] at hDrop
  exact ⟨hTake, hDrop⟩

/-! ## One turn of the reader -/

theorem hasData_iff (hWell : packet.WellFormed) : packet.HasData = true ↔ packet.DATA ≠ [] := by
  rw [MessagePacket.HasData, decide_eq_true_iff, UInt32.lt_iff_toNat_lt, hWell.length,
    ← List.length_pos_iff]
  rfl

theorem header_data (hMessage : packet.MESSAGE ≠ 0) (vData : List UInt8) :
    { packet with DATA := vData }.Header = packet.HasData :=
  @MessagePacket.header_eq { packet with DATA := vData } hMessage

/-- What the data thread does with a packet: the packet it goes on with, and what it processes. -/
def settle (INCOMING : MessagePacket) : MessagePacket × List MessagePacket :=
  if INCOMING.Complete then (.SetNull, [INCOMING]) else (INCOMING, [])

theorem settle_whole (hWell : packet.WellFormed) (hData : packet.HasData = true) :
    settle packet = (.SetNull, [packet]) := by
  have hLength : UInt32.ofNat packet.DATA.length = packet.LENGTH := by
    rw [← hWell.length, UInt32.ofNat_toNat]
  rw [settle, MessagePacket.Complete, MessagePacket.header_eq hWell.message, hData, hLength]
  simp

theorem settle_header (hHeader : INCOMING.Header = false) : settle INCOMING = (INCOMING, []) := by
  rw [settle, MessagePacket.Complete, hHeader]
  simp

theorem incomplete_within (hWell : packet.WellFormed) (hSplit : packet.DATA = taken ++ left)
    (hLeft : left ≠ []) : { packet with DATA := taken }.Complete = false := by
  have hLength : packet.LENGTH.toNat = taken.length + left.length := by
    rw [hWell.length, hSplit, List.length_append]
  have hPos := List.length_pos_iff.mpr hLeft
  have hBound := packet.LENGTH.toNat_lt
  have hApart : UInt32.ofNat taken.length ≠ packet.LENGTH := by
    intro hSame
    have hNat := congrArg UInt32.toNat hSame
    have hSmall : taken.length < UInt32.size := by
      have hSize : UInt32.size = 2 ^ 32 := rfl
      omega
    rw [UInt32.toNat_ofNat_of_lt' hSmall] at hNat
    omega
  simp [MessagePacket.Complete, hApart]

theorem settle_within (hWell : packet.WellFormed) (hSplit : packet.DATA = taken ++ left)
    (hLeft : left ≠ []) :
    settle { packet with DATA := taken } = ({ packet with DATA := taken }, []) := by
  rw [settle, incomplete_within hWell hSplit hLeft]
  rfl

/-- The reader goes on from some packets: it has processed the first ones that carry data, and is
partway in the others. -/
def GoesOn (rest : List MessagePacket) (tail : List UInt8) (r : MessagePacket × List UInt8) : Prop :=
  ∃ done left, rest = done ++ left ∧ (settle r.1).2 = done.filter MessagePacket.HasData ∧
    Partway (settle r.1).1 left (r.2 ++ tail)

/-- Data is read, within a packet. -/
theorem readData_goesOn (hWell : packet.WellFormed) (hSplit : packet.DATA = taken ++ left)
    (hLeft : left ≠ []) (hBytes : bytes ++ tail = left ++ streamOf rest) :
    GoesOn (packet :: rest) tail (readData { packet with DATA := taken } bytes nRead) := by
  have hLength : packet.LENGTH.toNat = taken.length + left.length := by
    rw [hWell.length, hSplit, List.length_append]
  have hData : packet.HasData = true := (hasData_iff hWell).mpr (by simp [hSplit, hLeft])
  have hHeader : { packet with DATA := taken }.Header = true :=
    (header_data hWell.message taken).trans hData
  have hNull : { packet with DATA := taken }.IsNull = false := by
    simp [MessagePacket.IsNull, hWell.message]
  have hPos := List.length_pos_iff.mpr hLeft
  by_cases hNone : bytes = []
  · subst hNone
    have hRead : readData { packet with DATA := taken } [] nRead = ({ packet with DATA := taken }, []) :=
      if_neg (by simp)
    rw [hRead]
    refine ⟨[], packet :: rest, rfl, ?_, ?_⟩
    · rw [settle_within hWell hSplit hLeft]
      rfl
    · rw [settle_within hWell hSplit hLeft, hBytes]
      exact .within hSplit hLeft
  · have hSome := List.length_pos_iff.mpr hNone
    obtain ⟨n, hn⟩ : ∃ n, n = min nRead (min bytes.length (packet.LENGTH.toNat - taken.length)) :=
      ⟨_, rfl⟩
    have hRead : readData { packet with DATA := taken } bytes nRead =
        ({ packet with DATA := taken ++ bytes.take n }, bytes.drop n) := by
      rw [readData, if_pos ⟨hHeader, hSome, hNull, by simp only; omega⟩, hn]
    obtain ⟨hTake, hDrop⟩ := take_of_append_eq (n := n) hBytes (by omega) (by omega)
    rw [hRead, hTake]
    by_cases hAll : left.drop n = []
    · have hWhole : taken ++ left.take n = packet.DATA := by
        rw [hSplit, List.take_of_length_le (List.drop_eq_nil_iff.mp hAll)]
      rw [hWhole]
      refine ⟨[packet], rest, rfl, ?_, ?_⟩
      · rw [settle_whole hWell hData, List.filter_cons_of_pos hData]
        rfl
      · rw [settle_whole hWell hData, hDrop, hAll, List.nil_append]
        exact .between rfl rfl
    · have hSplit' : packet.DATA = (taken ++ left.take n) ++ left.drop n := by
        rw [hSplit, List.append_assoc, List.take_append_drop]
      refine ⟨[], packet :: rest, rfl, ?_, ?_⟩
      · rw [settle_within hWell hSplit' hAll]
        rfl
      · rw [settle_within hWell hSplit' hAll, hDrop]
        exact .within hSplit' hAll

theorem readData_header (hHeader : INCOMING.Header = false) :
    readData INCOMING bytes nRead = (INCOMING, bytes) := if_neg (by simp [hHeader])

/-- A turn of the reader. -/
theorem readPacket_goesOn (hWell : ∀ packet ∈ rest, packet.WellFormed)
    (h : Partway INCOMING rest (bytes ++ tail)) :
    GoesOn rest tail (ReadPacket INCOMING bytes nRead) := by
  generalize hBytes : bytes ++ tail = remaining at h
  cases h with
  | between hHeader hData =>
      have hIncomplete : INCOMING.Complete = false := by simp [MessagePacket.Complete, hHeader]
      rw [ReadPacket, if_neg (by simp [hIncomplete])]
      by_cases hEight : 8 ≤ bytes.length
      · have hHeaderRead : readHeader INCOMING bytes =
            (INCOMING.readHeader (bytes.take 8), bytes.drop 8) := if_pos ⟨hHeader, hEight⟩
        cases rest with
        | nil =>
            have hNil : bytes = [] := (List.append_eq_nil_iff.mp hBytes).1
            rw [hNil] at hEight
            cases hEight
        | cons packet rest =>
            rw [List.forall_mem_cons] at hWell
            have hStream : bytes ++ tail = packet.header ++ (packet.DATA ++ streamOf rest) := by
              rw [hBytes, ← List.append_assoc]
              rfl
            obtain ⟨hTake, hDrop⟩ := take_of_append_eq hStream hEight (by simp)
            have hTakeAll : packet.header.take 8 = packet.header := List.take_of_length_le (by simp)
            have hDropAll : packet.header.drop 8 = [] := List.drop_of_length_le (by simp)
            rw [hDropAll, List.nil_append] at hDrop
            rw [hHeaderRead, hTake, hTakeAll, MessagePacket.readHeader_header, hData]
            by_cases hNone : packet.DATA = []
            · have hOff : { packet with DATA := [] }.Header = false := by
                rw [header_data hWell.1.message]
                exact Bool.eq_false_iff.mpr fun hHas => (hasData_iff hWell.1).mp hHas hNone
              have hFilter : packet.HasData = false := by rw [← hOff, header_data hWell.1.message]
              simp only
              rw [readData_header hOff]
              refine ⟨[packet], rest, rfl, ?_, ?_⟩
              · rw [settle_header hOff, List.filter_cons_of_neg (by simp [hFilter])]
                rfl
              · rw [settle_header hOff, hDrop, hNone, List.nil_append]
                exact .between hOff rfl
            · exact readData_goesOn hWell.1 (List.nil_append _).symm hNone hDrop
      · have hHeaderRead : readHeader INCOMING bytes = (INCOMING, bytes) :=
          if_neg fun hBoth => hEight hBoth.2
        rw [hHeaderRead]
        simp only
        rw [readData_header hHeader]
        refine ⟨[], rest, rfl, ?_, ?_⟩
        · rw [settle_header hHeader]
          rfl
        · rw [settle_header hHeader, hBytes]
          exact .between hHeader hData
  | @within packet rest taken left hSplit hLeft =>
      rw [List.forall_mem_cons] at hWell
      have hHeader : { packet with DATA := taken }.Header = true :=
        (header_data hWell.1.message taken).trans
          ((hasData_iff hWell.1).mpr (by simp [hSplit, hLeft]))
      rw [ReadPacket, if_neg (by simp [incomplete_within hWell.1 hSplit hLeft]), LLP.readHeader,
        if_neg (by simp [hHeader])]
      exact readData_goesOn hWell.1 hSplit hLeft hBytes

/-! ## Runs -/

/-- The bytes that are under way. -/
def underWay (link : Link) : List UInt8 := link.vAvailable ++ (link.vWire ++ link.socket.vBuffer)

/-- Of the packets sent the first are processed, as far as they carry data, and the others are under
way behind what is read of them. -/
def Carries (link : Link) (packets : List MessagePacket) : Prop :=
  ∃ done left, packets = done ++ left ∧ link.vProcessed = done.filter MessagePacket.HasData ∧
    Partway link.INCOMING left (underWay link)

theorem carries_start : Carries {} [] := ⟨[], [], rfl, rfl, .between rfl rfl⟩

theorem read_eq (link : Link) (nRead : Nat) :
    link.read nRead =
      { link with
        INCOMING := (settle (ReadPacket link.INCOMING link.vAvailable nRead).1).1
        vAvailable := (ReadPacket link.INCOMING link.vAvailable nRead).2
        vProcessed := link.vProcessed ++ (settle (ReadPacket link.INCOMING link.vAvailable nRead).1).2 } := by
  cases hRead : ReadPacket link.INCOMING link.vAvailable nRead with
  | mk INCOMING vAvailable =>
      rw [Link.read, hRead, settle]
      by_cases hComplete : INCOMING.Complete = true
      · simp [hComplete]
      · simp [hComplete]

/-- What an event puts into the stream is under way behind the rest. -/
theorem underWay_step (hOther : ∀ nRead, event ≠ .read nRead) :
    underWay (link.step limits event) = underWay link ++ streamOf (link.taken limits event) ∧
      (link.step limits event).INCOMING = link.INCOMING ∧
      (link.step limits event).vProcessed = link.vProcessed := by
  cases event with
  | write packet nSent =>
      refine ⟨?_, rfl, rfl⟩
      have hBytes := @Socket.writePacket_bytes limits link.socket packet nSent
      simp only [underWay, Link.step, Link.taken, List.append_assoc]
      rw [hBytes]
      split
      · simp [streamOf]
      · simp [streamOf]
  | flush nSent =>
      refine ⟨?_, rfl, rfl⟩
      simp only [underWay, Link.step, Link.taken, List.append_assoc]
      rw [Socket.flush_bytes]
      simp [streamOf]
  | arrive nBytes =>
      refine ⟨?_, rfl, rfl⟩
      have hBytes := List.take_append_drop nBytes link.vWire
      simp only [underWay, Link.step, Link.taken, List.append_assoc]
      rw [← List.append_assoc (link.vWire.take nBytes), hBytes]
      simp [streamOf]
  | read nRead => exact absurd rfl (hOther nRead)

theorem Carries.step (h : Carries link packets) (hWell : ∀ packet ∈ packets, packet.WellFormed) :
    Carries (link.step limits event) (packets ++ link.taken limits event) := by
  obtain ⟨done, left, rfl, hProcessed, hPartway⟩ := h
  by_cases hRead : ∃ nRead, event = .read nRead
  · obtain ⟨nRead, rfl⟩ := hRead
    have hWellLeft : ∀ packet ∈ left, packet.WellFormed := fun packet hMem =>
      hWell packet (List.mem_append_right _ hMem)
    have hGoesOn : GoesOn left (link.vWire ++ link.socket.vBuffer)
        (ReadPacket link.INCOMING link.vAvailable nRead) := readPacket_goesOn hWellLeft hPartway
    obtain ⟨done', left', rfl, hDone, hNext⟩ := hGoesOn
    refine ⟨done ++ done', left', ?_, ?_, ?_⟩
    · simp [Link.taken]
    · rw [Link.step, read_eq, List.filter_append, ← hProcessed, ← hDone]
    · rw [Link.step, read_eq]
      exact hNext
  · simp only [not_exists] at hRead
    obtain ⟨hBytes, hIncoming, hSame⟩ := @underWay_step limits link event hRead
    refine ⟨done, left ++ link.taken limits event, List.append_assoc .., hSame.trans hProcessed, ?_⟩
    rw [hBytes, hIncoming]
    exact hPartway.append

theorem Carries.run (h : Carries link packets) (hWell : ∀ packet ∈ packets, packet.WellFormed)
    (hSent : ∀ packet ∈ link.sent limits events, packet.WellFormed) :
    Carries (link.run limits events) (packets ++ link.sent limits events) := by
  induction events generalizing link packets with
  | nil =>
      rw [Link.sent, List.append_nil]
      exact h
  | cons event events ih =>
      rw [Link.sent, List.forall_mem_append] at hSent
      rw [Link.sent, ← List.append_assoc]
      exact ih (h.step hWell) (List.forall_mem_append.mpr ⟨hWell, hSent.1⟩) hSent.2

/-- Only packets that are written are sent, in the order in which they are written. -/
theorem sent_sublist (link : Link) (events : List Event) :
    (link.sent limits events).Sublist (written events) := by
  induction events generalizing link with
  | nil => exact .slnil
  | cons event events ih =>
      rw [Link.sent]
      cases event with
      | write packet nSent =>
          rw [Link.taken]
          split
          · exact (ih _).cons_cons packet
          · exact (ih _).cons packet
      | flush nSent => exact ih _
      | arrive nBytes => exact ih _
      | read nRead => exact ih _

theorem Partway.done (h : Partway INCOMING rest []) : rest = [] := by
  generalize hBytes : ([] : List UInt8) = remaining at h
  cases h with
  | between hHeader hData =>
      cases rest with
      | nil => rfl
      | cons packet rest =>
          have hLength := congrArg List.length hBytes
          simp [streamOf, MessagePacket.GetBytes] at hLength
          omega
  | within hSplit hLeft => exact absurd (List.append_eq_nil_iff.mp hBytes.symm).1 hLeft

/-- In every run of a connection the packets that are processed are the first of those that were sent
with data: none is changed, split, doubled or out of order.  When no byte is under way, they are all
of them. -/
theorem link_delivers (limits : SendLimits) (events : List Event)
    (hWell : ∀ packet ∈ written events, packet.WellFormed) :
    (Link.sent limits {} events).Sublist (written events) ∧
      (Link.run limits {} events).vProcessed <+:
        (Link.sent limits {} events).filter MessagePacket.HasData ∧
      (underWay (Link.run limits {} events) = [] →
        (Link.run limits {} events).vProcessed =
          (Link.sent limits {} events).filter MessagePacket.HasData) := by
  have hSublist := @sent_sublist limits {} events
  have hCarries : Carries (Link.run limits {} events) ([] ++ Link.sent limits {} events) :=
    carries_start.run (List.forall_mem_nil _) fun packet hMem => hWell packet (hSublist.subset hMem)
  rw [List.nil_append] at hCarries
  obtain ⟨done, left, hSent, hProcessed, hPartway⟩ := hCarries
  rw [hSent, hProcessed, List.filter_append]
  refine ⟨hSent ▸ hSublist, List.prefix_append .., fun hNone => ?_⟩
  rw [hNone] at hPartway
  rw [hPartway.done, List.filter_nil, List.append_nil]

/-- A packet with three bytes, one without data, and one with two. -/
def threePackets : List MessagePacket :=
  [{ MessagePacket.SetData { MESSAGE := 0x10 } [1, 2, 3] with FLAGS := 7 }, { MESSAGE := 0x11 },
    MessagePacket.SetData { MESSAGE := 0x12 } [4, 5]]

/-- The first packet is sent in part, and what arrives is read in pieces. -/
def threeEvents : List Event :=
  threePackets.map (.write · (some 5)) ++
    [.arrive 4, .read 9, .flush (some 20), .arrive 6, .read 1, .read 9, .arrive 40, .read 9, .read 9,
      .flush none, .flush (some 40), .arrive 40, .read 9, .read 1, .read 9]

theorem link_delivers_three :
    (Link.run ⟨3145728, 16384⟩ {} threeEvents).vProcessed =
      (Link.sent ⟨3145728, 16384⟩ {} threeEvents).filter MessagePacket.HasData ∧
    (Link.sent ⟨3145728, 16384⟩ {} threeEvents).filter MessagePacket.HasData =
      [MessagePacket.mk 0x10 7 3 [1, 2, 3], MessagePacket.mk 0x12 0 2 [4, 5]] :=
  have hWell : ∀ packet ∈ written threeEvents, packet.WellFormed := by
    intro packet hMem
    have hList : written threeEvents = threePackets := by decide +kernel
    rw [hList] at hMem
    have hAll : ∀ packet ∈ threePackets,
        packet.MESSAGE ≠ 0 ∧ packet.LENGTH.toNat = packet.DATA.length := by decide +kernel
    exact ⟨(hAll packet hMem).1, (hAll packet hMem).2⟩
  ⟨(link_delivers ⟨3145728, 16384⟩ threeEvents hWell).2.2 (by decide +kernel), by decide +kernel⟩

end Nexus.Safety
