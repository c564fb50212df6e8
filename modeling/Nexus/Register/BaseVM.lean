import Nexus.Register.Object

/-!
# Register memory

The memory of the condition machine: 256 registers of 64 bits, used as a stack.
A value is a run of registers with a length in bytes; it is allocated at the
memory pointer and can only be freed from the top.
-/

namespace Nexus.Register

open Nexus.Lib.Bytes
open Nexus.Lib.Checked
open Nexus.Util

/-- Where a value is: its registers and its length in bytes, kept in 16 bits. -/
structure Value where
  nBegin : Nat := 0
  nEnd : Nat := 0
  nBytes : Nat := 0
  deriving DecidableEq, Repr

namespace Value

/-- Size in registers. -/
def size (value : Value) : Nat := value.nEnd - value.nBegin

def null (value : Value) : Bool := value.nBegin == 0 && value.nEnd == 0

end Value

/-- The number of registers. -/
def REGISTERS : Nat := 256

structure BaseVM where
  /-- The registers as bytes, the least significant byte of a register first. -/
  vRegister : List UInt8 := List.replicate (8 * REGISTERS) 0
  nPointer : Nat := 0
  deriving DecidableEq, Repr

namespace BaseVM

/-- A register by its index. -/
def word (vm : BaseVM) (n : Nat) : UInt64 := FixedWidth.decode ((vm.vRegister.drop (8 * n)).take 8)

/-- `at(value)`: the first register of a value. -/
def at_ (vm : BaseVM) (value : Value) : UInt64 := vm.word value.nBegin

/-- Assignment to `at(value)`. -/
def setAt (vm : BaseVM) (value : Value) (n : UInt64) : BaseVM :=
  { vm with vRegister := overwrite vm.vRegister (8 * value.nBegin) (FixedWidth.encode n) }

/-- The bytes from `begin(value)` to `end(value)`. -/
def bytes (vm : BaseVM) (value : Value) : List UInt8 :=
  (vm.vRegister.drop (8 * value.nBegin)).take value.nBytes

/-- `allocate` for integers of at most 64 bits: the whole register is set. -/
def allocateWord (vm : BaseVM) (nBytes : Nat) (data : UInt64) : Result (Value × BaseVM) := do
  let value : Value := { nBegin := vm.nPointer, nEnd := vm.nPointer + 1, nBytes }
  reject (REGISTERS < value.nEnd) (.exception "Out of register memory")
  return (value, { vm with nPointer := vm.nPointer + 1 }.setAt value data)

/-- `allocate` for byte vectors, strings and wide integers: the bytes are copied over
the beginning of the registers. -/
def allocateBytes (vm : BaseVM) (data : List UInt8) : Result (Value × BaseVM) := do
  let nSize := data.length / 8 + if data.length % 8 = 0 then 0 else 1
  let value : Value :=
    { nBegin := vm.nPointer, nEnd := vm.nPointer + nSize, nBytes := data.length % 2 ^ 16 }
  reject (REGISTERS < value.nEnd) (.exception "Out of register memory")
  return (value,
    { vRegister := overwrite vm.vRegister (8 * value.nBegin) (data.take value.nBytes)
      nPointer := vm.nPointer + nSize })

/-- `allocate` for fixed-width values. -/
def allocate (α : Type) [FixedWidth α] (vm : BaseVM) (data : α) : Result (Value × BaseVM) :=
  if FixedWidth.width α ≤ 8 then
    vm.allocateWord (FixedWidth.width α) (FixedWidth.ofNat (FixedWidth.toNat data))
  else vm.allocateBytes (FixedWidth.encode data)

/-- The value is at the top of the memory. -/
def checkTop (vm : BaseVM) (value : Value) : Result Unit := do
  reject (vm.nPointer = 0 ∨ value.nEnd = 0) (.exception "Missing register value")
  reject (value.nEnd ≠ vm.nPointer) (.exception "Cannot deallocate when not last")
  reject (2 ^ 31 ≤ vm.nPointer - value.size) (.exception "Invalid memory address ")

/-- Zero the registers of a value and move the memory pointer back. -/
def release (vm : BaseVM) (value : Value) : BaseVM :=
  { vRegister := overwrite vm.vRegister (8 * value.nBegin) (List.replicate (8 * value.size) 0)
    nPointer := vm.nPointer - value.size }

/-- `deallocate(value)`. -/
def deallocate (vm : BaseVM) (value : Value) : Result BaseVM := do
  vm.checkTop value
  return vm.release value

/-- `deallocate` of a byte vector, with a copy of the data. -/
def deallocateBytes (vm : BaseVM) (value : Value) : Result (List UInt8 × BaseVM) := do
  vm.checkTop value
  return (vm.bytes value, vm.release value)

/-- `deallocate` of a wide integer, with a copy of the data. -/
def deallocateData (α : Type) [FixedWidth α] (vm : BaseVM) (value : Value) :
    Result (α × BaseVM) := do
  vm.checkTop value
  reject (value.nBytes ≠ FixedWidth.width α) (.exception "Deallocate size mismatch ")
  return (FixedWidth.decode (vm.bytes value), vm.release value)

/-- The loop of `compare` over the registers below `n`, from the last one. -/
def compareWords (vm : BaseVM) (a b : Value) : Nat → Int64
  | 0 => 0
  | n + 1 =>
      if vm.word (a.nBegin + n) ≠ vm.word (b.nBegin + n) then
        (vm.word (a.nBegin + n) - vm.word (b.nBegin + n)).toInt64
      else compareWords vm a b n

def compare (vm : BaseVM) (a b : Value) : Int64 :=
  if a.size = 0 ∨ b.size = 0 then 0 else vm.compareWords a b (min a.size b.size)

/-- The byte of a vector at a position, or what memory holds past its end. -/
def byteAt (rt : Runtime) (v : List UInt8) (n : Nat) : UInt8 := v[n]?.getD (rt.heap v n)

/-- The wildcard byte of a pattern. -/
def WILDCARD : UInt8 := 0x00

/-- The inner loop of `contains`, with `k` bytes of the pattern left at position `n`. -/
def matchAt (rt : Runtime) (vA vB : List UInt8) (i : Nat) : Nat → Nat → Bool
  | 0, _ => false
  | k + 1, n =>
      if byteAt rt vA (i + n) ≠ byteAt rt vB n ∧ byteAt rt vB n ≠ WILDCARD then false
      else if n + 1 = vB.length then true
      else matchAt rt vA vB i k (n + 1)

/-- `contains`: the bytes of `b` occur in those of `a`. -/
def contains (rt : Runtime) (vm : BaseVM) (a b : Value) : Bool :=
  if a.size < b.size ∨ a.size = 0 ∨ b.size = 0 then false
  else
    let vA := vm.bytes a
    let vB := vm.bytes b
    (List.range vA.length).any fun i =>
      byteAt rt vA i == byteAt rt vB 0 && matchAt rt vA vB i (vB.length - 1) 1

end BaseVM

end Nexus.Register
