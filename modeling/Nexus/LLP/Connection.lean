import Nexus.Util.Stream

/-!
# Message packets on a connection

A `MessagePacket` goes through the overflow buffer of a socket into the stream of a TCP connection,
and the data thread of the other node builds it again from what has arrived.  What `send` takes and
how much `recv` returns are given with each call; the stream itself is in order.  The connection is
a plain one: of the header `recv` returns all 8 bytes that are available.
-/

namespace Nexus.LLP

open Nexus.Lib.Bytes
open Nexus.Util

/-! ## MessagePacket -/

structure MessagePacket where
  MESSAGE : UInt16 := 0
  FLAGS : UInt16 := 0
  LENGTH : UInt32 := 0
  DATA : List UInt8 := []
  deriving DecidableEq, Repr

namespace MessagePacket

def SetNull : MessagePacket := {}

def IsNull (packet : MessagePacket) : Bool :=
  packet.MESSAGE == 0 && packet.LENGTH == 0 && packet.DATA.length == 0

/-- The header is read, and promises data. -/
def Header (packet : MessagePacket) : Bool :=
  if packet.IsNull then false else packet.MESSAGE != 0 && 0 < packet.LENGTH

def Complete (packet : MessagePacket) : Bool :=
  packet.Header && UInt32.ofNat packet.DATA.length == packet.LENGTH

/-- `SetData`. -/
def SetData (packet : MessagePacket) (vData : List UInt8) : MessagePacket :=
  { packet with LENGTH := UInt32.ofNat vData.length, DATA := vData }

/-- `operator<<` of the packet, which has no data. -/
def header (packet : MessagePacket) : List UInt8 :=
  FixedWidth.encode packet.MESSAGE ++ (FixedWidth.encode packet.FLAGS ++ FixedWidth.encode packet.LENGTH)

/-- `operator>>` of the packet, from 8 bytes. -/
def readHeader (packet : MessagePacket) (vBytes : List UInt8) : MessagePacket :=
  { packet with
    MESSAGE := FixedWidth.decode (vBytes.take 2)
    FLAGS := FixedWidth.decode ((vBytes.drop 2).take 2)
    LENGTH := FixedWidth.decode ((vBytes.drop 4).take 4) }

def GetBytes (packet : MessagePacket) : List UInt8 := packet.header ++ packet.DATA

variable {packet : MessagePacket}

@[simp] theorem header_length : packet.header.length = 8 := by
  simp [header]

theorem readHeader_header (incoming : MessagePacket) :
    incoming.readHeader packet.header = { packet with DATA := incoming.DATA } := by
  have hLength : packet.header.drop 4 = FixedWidth.encode packet.LENGTH := by
    rw [header, ← List.append_assoc]
    exact List.drop_left' (by simp)
  have hAll : (FixedWidth.encode packet.LENGTH).take 4 = FixedWidth.encode packet.LENGTH :=
    List.take_of_length_le (by simp)
  rw [readHeader, hLength, hAll]
  simp [header]

/-- The packets that are sent: with a code, and with the length of their data. -/
structure WellFormed (packet : MessagePacket) : Prop where
  message : packet.MESSAGE ≠ 0
  length : packet.LENGTH.toNat = packet.DATA.length

theorem wellFormed_setData {vData : List UInt8} (hMessage : packet.MESSAGE ≠ 0)
    (hLength : vData.length < 2 ^ 32) : (packet.SetData vData).WellFormed where
  message := hMessage
  length := UInt32.toNat_ofNat_of_lt' hLength

/-- The packet carries data. -/
def HasData (packet : MessagePacket) : Bool := 0 < packet.LENGTH

theorem header_eq (hMessage : packet.MESSAGE ≠ 0) : packet.Header = packet.HasData := by
  have hNull : packet.IsNull = false := by simp [IsNull, hMessage]
  simp [Header, hNull, HasData, hMessage]

end MessagePacket

/-! ## Socket -/

/-- What a node keeps of a socket it sends on. -/
structure Socket where
  vBuffer : List UInt8 := []
  fBufferFull : Bool := false

/-- `-maxsendbuffer` and `-maxsendsize`. -/
structure SendLimits where
  nMaxSendBuffer : Nat
  nMaxSendSize : Nat

def MTU : Nat := 16384

namespace Socket

variable (limits : SendLimits) (s : Socket)

/-- `Socket::Write`: the bytes that go into the stream.  `nSent` is what `send` returns, or none for
an error. -/
def Write (vData : List UInt8) (nSent : Option Nat) : Socket × List UInt8 :=
  if 0 < s.vBuffer.length then ({ s with vBuffer := s.vBuffer ++ vData }, [])
  else
    match nSent with
    | none => (s, [])
    | some nSent =>
        if nSent ≠ vData.length then
          ({ s with vBuffer := s.vBuffer ++ vData.drop nSent }, vData.take nSent)
        else (s, vData.take nSent)

/-- The buffer has room for a packet; of the last 1024 bytes only once it was full. -/
def hasRoom (packet : MessagePacket) : Bool :=
  s.vBuffer.length + packet.GetBytes.length + 1024 < limits.nMaxSendBuffer ||
    (s.fBufferFull && s.vBuffer.length + packet.GetBytes.length < limits.nMaxSendBuffer)

/-- `BaseConnection::WritePacket`. -/
def WritePacket (packet : MessagePacket) (nSent : Option Nat) : Socket × List UInt8 :=
  if s.hasRoom limits packet then s.Write packet.GetBytes nSent
  else ({ s with fBufferFull := true }, [])

/-- `Socket::Flush`. -/
def Flush (nSent : Option Nat) : Socket × List UInt8 :=
  let nSize := s.vBuffer.length % 2 ^ 32
  if nSize = 0 then (s, [])
  else
    match nSent with
    | none => (s, [])
    | some nSent =>
        let nSent := min nSent (min nSize (min limits.nMaxSendSize MTU))
        if 0 < nSent then
          ({ vBuffer := s.vBuffer.drop nSent, fBufferFull := false }, s.vBuffer.take nSent)
        else (s, [])

/-- A packet is taken: there is room for it, and `send` makes no error. -/
def accepts (packet : MessagePacket) (nSent : Option Nat) : Bool :=
  s.hasRoom limits packet && (0 < s.vBuffer.length || nSent.isSome)

variable {limits s}

/-- A packet that is taken goes behind what is buffered, all of it; one that is not leaves no byte. -/
theorem writePacket_bytes (packet : MessagePacket) (nSent : Option Nat) :
    (s.WritePacket limits packet nSent).2 ++ (s.WritePacket limits packet nSent).1.vBuffer =
      s.vBuffer ++ if s.accepts limits packet nSent then packet.GetBytes else [] := by
  unfold WritePacket accepts
  cases hRoom : s.hasRoom limits packet with
  | false => simp
  | true =>
      unfold Write
      by_cases hBuffered : 0 < s.vBuffer.length
      · simp [hBuffered]
      · have hEmpty : s.vBuffer = [] := List.length_eq_zero_iff.mp (by omega)
        cases nSent with
        | none => simp [hEmpty]
        | some nSent =>
            by_cases hAll : nSent = packet.GetBytes.length
            · simp [hEmpty, hAll]
            · simp [hEmpty, hAll]

theorem flush_bytes (nSent : Option Nat) :
    (s.Flush limits nSent).2 ++ (s.Flush limits nSent).1.vBuffer = s.vBuffer := by
  unfold Flush
  by_cases hSize : s.vBuffer.length % 2 ^ 32 = 0
  · simp only [hSize, if_true, List.nil_append]
  · cases nSent with
    | none => simp only [hSize, if_false, List.nil_append]
    | some nSent =>
        simp only [hSize, if_false]
        split
        · exact List.take_append_drop ..
        · rfl

end Socket

/-! ## ReadPacket -/

/-- The reading of a header, when there is none and 8 bytes are available. -/
def readHeader (INCOMING : MessagePacket) (vAvailable : List UInt8) : MessagePacket × List UInt8 :=
  if INCOMING.Header = false ∧ 8 ≤ vAvailable.length then
    (INCOMING.readHeader (vAvailable.take 8), vAvailable.drop 8)
  else (INCOMING, vAvailable)

/-- The reading of data, at most `nRead` bytes. -/
def readData (INCOMING : MessagePacket) (vAvailable : List UInt8) (nRead : Nat) :
    MessagePacket × List UInt8 :=
  if INCOMING.Header = true ∧ 0 < vAvailable.length ∧ INCOMING.IsNull = false ∧
      INCOMING.DATA.length < INCOMING.LENGTH.toNat then
    let nMaxRead := INCOMING.LENGTH.toNat - INCOMING.DATA.length
    let nRead := min nRead (min vAvailable.length nMaxRead)
    ({ INCOMING with DATA := INCOMING.DATA ++ vAvailable.take nRead }, vAvailable.drop nRead)
  else (INCOMING, vAvailable)

/-- `TritiumNode::ReadPacket`: the packet, and what is still available. -/
def ReadPacket (INCOMING : MessagePacket) (vAvailable : List UInt8) (nRead : Nat) :
    MessagePacket × List UInt8 :=
  if INCOMING.Complete then (INCOMING, vAvailable)
  else
    let (INCOMING, vAvailable) := readHeader INCOMING vAvailable
    readData INCOMING vAvailable nRead

/-! ## A connection -/

/-- Both ends of a connection, in one direction. -/
structure Link where
  /-- The sender. -/
  socket : Socket := {}
  /-- Bytes that are sent and have not arrived. -/
  vWire : List UInt8 := []
  /-- Bytes that have arrived and are not read. -/
  vAvailable : List UInt8 := []
  /-- The receiver. -/
  INCOMING : MessagePacket := {}
  /-- The packets that `ProcessPacket` was called on. -/
  vProcessed : List MessagePacket := []

/-- What happens on a connection. -/
inductive Event where
  | write (packet : MessagePacket) (nSent : Option Nat)
  | flush (nSent : Option Nat)
  | arrive (nBytes : Nat)
  | read (nRead : Nat)

namespace Link

variable (limits : SendLimits) (link : Link)

/-- A turn of the data thread: a complete packet is processed and reset. -/
def read (nRead : Nat) : Link :=
  let (INCOMING, vAvailable) := ReadPacket link.INCOMING link.vAvailable nRead
  if INCOMING.Complete then
    { link with
      INCOMING := .SetNull, vAvailable, vProcessed := link.vProcessed ++ [INCOMING] }
  else { link with INCOMING, vAvailable }

def step : Event → Link
  | .write packet nSent =>
      let (socket, vBytes) := link.socket.WritePacket limits packet nSent
      { link with socket, vWire := link.vWire ++ vBytes }
  | .flush nSent =>
      let (socket, vBytes) := link.socket.Flush limits nSent
      { link with socket, vWire := link.vWire ++ vBytes }
  | .arrive nBytes =>
      { link with
        vWire := link.vWire.drop nBytes
        vAvailable := link.vAvailable ++ link.vWire.take nBytes }
  | .read nRead => link.read nRead

def run (events : List Event) : Link := events.foldl (step limits) link

/-- The packet that an event puts into the stream. -/
def taken : Event → List MessagePacket
  | .write packet nSent => if link.socket.accepts limits packet nSent then [packet] else []
  | _ => []

/-- The packets that a run puts into the stream. -/
def sent : Link → List Event → List MessagePacket
  | _, [] => []
  | link, event :: events => link.taken limits event ++ sent (link.step limits event) events

end Link

/-- The packets that `WritePacket` is called on. -/
def written (events : List Event) : List MessagePacket :=
  events.filterMap fun
    | .write packet _ => some packet
    | _ => none

end Nexus.LLP
