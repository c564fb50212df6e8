import Nexus.Register.BaseVM

/-!
# Laws of the register memory

The memory is a stack of bytes: what is held below the memory pointer, and
zeros above it.  Allocating pushes the block of a datum, freeing the value at
the top pops its block, and an assignment changes one word of what is held.

## Main results

* `allocate_eq_ok`: what an allocation pushes.
* `Stores.release`: what a value at the top gives back.
* `Stores.setAt`: an assignment changes one word.
-/

namespace Nexus.Register

open Nexus.Lib.Bytes
open Nexus.Lib.Checked
open Nexus.Util

/-- What the machine allocates: a word of at most 64 bits, or a run of bytes. -/
inductive Datum where
  | word (nBytes : Nat) (n : UInt64)
  | bytes (vch : List UInt8)
  deriving DecidableEq, Repr

namespace Datum

/-- The datum of a fixed-width value. -/
def of {α : Type} [FixedWidth α] (a : α) : Datum :=
  if FixedWidth.width α ≤ 8 then .word (FixedWidth.width α) (FixedWidth.ofNat (FixedWidth.toNat a))
  else .bytes (FixedWidth.encode a)

/-- The registers that a datum takes. -/
def size : Datum → Nat
  | .word _ _ => 1
  | .bytes vch => vch.length / 8 + if vch.length % 8 = 0 then 0 else 1

/-- The length of a datum in bytes. -/
def nBytes : Datum → Nat
  | .word nBytes _ => nBytes
  | .bytes vch => vch.length

/-- The bytes of the registers that a datum takes. -/
def block : Datum → List UInt8
  | .word _ n => FixedWidth.encode n
  | .bytes vch => vch ++ List.replicate (8 * size (.bytes vch) - vch.length) 0

def allocate (vm : BaseVM) : Datum → Result (Value × BaseVM)
  | .word nBytes n => vm.allocateWord nBytes n
  | .bytes vch => vm.allocateBytes vch

theorem length_le_size (vch : List UInt8) : vch.length ≤ 8 * size (.bytes vch) := by
  simp only [size]
  split <;> omega

@[simp] theorem block_length (d : Datum) : d.block.length = 8 * d.size := by
  cases d with
  | word nBytes n => simp [block, size]
  | bytes vch =>
      have hLe := length_le_size vch
      rw [block, List.length_append, List.length_replicate]
      omega

end Datum

namespace BaseVM

variable {vm vm' : BaseVM} {vchUsed vchBlock vchRest : List UInt8} {d : Datum} {value : Value}

theorem allocate_eq_datum {α : Type} [FixedWidth α] (a : α) :
    vm.allocate α a = (Datum.of a).allocate vm := by
  unfold allocate Datum.of
  split <;> rfl

/-- The memory holds some bytes, with zeros above them. -/
structure Stores (vm : BaseVM) (vchUsed : List UInt8) : Prop where
  memory : vm.vRegister = vchUsed ++ List.replicate (8 * REGISTERS - vchUsed.length) 0
  pointer : vchUsed.length = 8 * vm.nPointer
  bound : vm.nPointer ≤ REGISTERS

theorem stores_fresh : Stores {} [] := ⟨rfl, rfl, Nat.zero_le _⟩

theorem Stores.unique (h : Stores vm vchUsed) (h' : Stores vm' vchUsed) : vm = vm' := by
  obtain ⟨hMemory, hPointer, -⟩ := h
  obtain ⟨hMemory', hPointer', -⟩ := h'
  cases vm with
  | mk vRegister nPointer =>
      cases vm' with
      | mk vRegister' nPointer' =>
          simp only at *
          rw [hMemory, hMemory', show nPointer = nPointer' by omega]

/-- A block on top of what is held. -/
theorem stores_append {n : Nat} (hPointer : vchUsed.length = 8 * n)
    (hRoom : n + d.size ≤ REGISTERS) {vRegister : List UInt8}
    (hMemory : vRegister = vchUsed ++ d.block ++
      List.replicate (8 * REGISTERS - (vchUsed ++ d.block).length) 0) :
    Stores { vRegister, nPointer := n + d.size } (vchUsed ++ d.block) := by
  refine ⟨hMemory, ?_, hRoom⟩
  show (vchUsed ++ d.block).length = 8 * (n + d.size)
  rw [List.length_append, Datum.block_length, hPointer]
  omega

/-- A word pushed on what is held. -/
theorem Stores.push_word {nBytes : Nat} {n : UInt64} (h : Stores vm vchUsed)
    (hRoom : vm.nPointer + 1 ≤ REGISTERS) :
    Stores { vRegister := overwrite vm.vRegister (8 * vm.nPointer) (FixedWidth.encode n),
             nPointer := vm.nPointer + 1 } (vchUsed ++ Datum.block (.word nBytes n)) := by
  refine stores_append (d := .word nBytes n) h.pointer hRoom ?_
  have hPointer := h.pointer
  have hZeros : List.replicate (8 * REGISTERS - vchUsed.length) (0 : UInt8) =
      List.replicate 8 0 ++ List.replicate (8 * REGISTERS - (vchUsed.length + 8)) 0 := by
    rw [List.replicate_append_replicate]
    congr 1
    omega
  have hLength : (FixedWidth.encode n).length = (List.replicate 8 (0 : UInt8)).length := by simp
  rw [h.memory, hZeros, ← List.append_assoc, ← hPointer, overwrite_append hLength,
    List.length_append, Datum.block_length]
  rfl

/-- Bytes pushed on what is held. -/
theorem Stores.push_bytes {vch : List UInt8} (h : Stores vm vchUsed)
    (hRoom : vm.nPointer + Datum.size (.bytes vch) ≤ REGISTERS) :
    Stores { vRegister := overwrite vm.vRegister (8 * vm.nPointer) vch,
             nPointer := vm.nPointer + Datum.size (.bytes vch) }
      (vchUsed ++ Datum.block (.bytes vch)) := by
  refine stores_append h.pointer hRoom ?_
  have hPointer := h.pointer
  have hLe := Datum.length_le_size vch
  have hZeros : List.replicate (8 * REGISTERS - vchUsed.length) (0 : UInt8) =
      List.replicate vch.length 0 ++
        List.replicate (8 * REGISTERS - (vchUsed.length + vch.length)) 0 := by
    rw [List.replicate_append_replicate]
    congr 1
    omega
  rw [h.memory, hZeros, ← List.append_assoc, ← hPointer,
    overwrite_append (List.length_replicate ..).symm, List.length_append, Datum.block_length,
    Datum.block, ← List.append_assoc vchUsed vch, List.append_assoc (vchUsed ++ vch),
    List.replicate_append_replicate]
  congr 2
  omega

/-- The value of a datum that is allocated at a register. -/
def valueAt (n : Nat) (d : Datum) : Value :=
  { nBegin := n, nEnd := n + d.size, nBytes := d.nBytes }

/-- What an allocation pushes. -/
theorem allocate_eq_ok (h : Stores vm vchUsed) :
    d.allocate vm = .ok (value, vm') ↔
      vm.nPointer + d.size ≤ REGISTERS ∧ value = valueAt vm.nPointer d ∧
        Stores vm' (vchUsed ++ d.block) := by
  cases d with
  | word nBytes n =>
      simp only [Datum.allocate, allocateWord, bind_eq_ok, reject_eq_ok, pure_eq_ok,
        Prod.mk.injEq, Nat.not_lt]
      constructor
      · rintro ⟨-, hRoom, rfl, rfl⟩
        exact ⟨hRoom, rfl, h.push_word hRoom⟩
      · rintro ⟨hRoom, rfl, hStores⟩
        exact ⟨(), hRoom, rfl, (h.push_word hRoom).unique hStores⟩
  | bytes vch =>
      simp only [Datum.allocate, allocateBytes, bind_eq_ok, reject_eq_ok, pure_eq_ok,
        Prod.mk.injEq, Nat.not_lt]
      -- with room for the bytes their number fits in 16 bits
      have hSmall (hRoom : vm.nPointer + Datum.size (.bytes vch) ≤ REGISTERS) :
          vch.length % 2 ^ 16 = vch.length := by
        have hLe := Datum.length_le_size vch
        have hMax : REGISTERS = 256 := rfl
        omega
      constructor
      · rintro ⟨-, hRoom, rfl, rfl⟩
        rw [hSmall hRoom, List.take_length]
        exact ⟨hRoom, rfl, h.push_bytes hRoom⟩
      · rintro ⟨hRoom, rfl, hStores⟩
        rw [hSmall hRoom, List.take_length]
        exact ⟨(), hRoom, rfl, (h.push_bytes hRoom).unique hStores⟩

/-- Freeing the value at the top pops its block. -/
theorem Stores.release (h : Stores vm (vchUsed ++ vchBlock))
    (hBegin : vchUsed.length = 8 * value.nBegin) (hEnd : value.nEnd = vm.nPointer) :
    Stores (vm.release value) vchUsed := by
  have hPointer := h.pointer
  have hBound := h.bound
  rw [List.length_append] at hPointer
  have hSize : vchBlock.length = 8 * value.size := by
    rw [Value.size]
    omega
  refine ⟨?_, ?_, ?_⟩
  · have hZeros : (List.replicate (8 * value.size) (0 : UInt8)).length = vchBlock.length := by
      rw [List.length_replicate, hSize]
    rw [BaseVM.release, h.memory, ← hBegin, overwrite_append hZeros, List.append_assoc,
      List.replicate_append_replicate, List.length_append]
    have hCount : 8 * value.size + (8 * REGISTERS - (vchUsed.length + vchBlock.length)) =
        8 * REGISTERS - vchUsed.length := by
      omega
    rw [hCount]
  · show vchUsed.length = 8 * (vm.nPointer - value.size)
    rw [Value.size]
    omega
  · exact Nat.le_trans (Nat.sub_le ..) hBound

/-- An assignment to the first register of a value. -/
theorem Stores.setAt {n : UInt64} (h : Stores vm (vchUsed ++ vchBlock ++ vchRest))
    (hBegin : vchUsed.length = 8 * value.nBegin) (hBlock : vchBlock.length = 8) :
    Stores (vm.setAt value n) (vchUsed ++ FixedWidth.encode n ++ vchRest) := by
  have hLength : (FixedWidth.encode n).length = vchBlock.length := by simp [hBlock]
  obtain ⟨hMemory, hPointer, hBound⟩ := h
  refine ⟨?_, ?_, hBound⟩
  · rw [BaseVM.setAt, hMemory, List.append_assoc (vchUsed ++ vchBlock), ← hBegin,
      overwrite_append hLength]
    simp only [List.append_assoc, List.length_append, hLength]
  · rw [List.length_append, List.length_append, hLength, ← List.length_append,
      ← List.length_append, hPointer]
    rfl

theorem checkTop_eq_ok :
    vm.checkTop value = .ok () ↔
      vm.nPointer ≠ 0 ∧ value.nEnd ≠ 0 ∧ value.nEnd = vm.nPointer ∧
        vm.nPointer - value.size < 2 ^ 31 := by
  simp only [checkTop, bind_eq_ok, reject_eq_ok, not_or, not_not, Nat.not_le]
  constructor
  · rintro ⟨-, ⟨hPointer, hEnd⟩, -, hTop, hMax⟩
    exact ⟨hPointer, hEnd, hTop, hMax⟩
  · rintro ⟨hPointer, hEnd, hTop, hMax⟩
    exact ⟨(), ⟨hPointer, hEnd⟩, (), hTop, hMax⟩

theorem deallocate_eq_ok :
    vm.deallocate value = .ok vm' ↔ vm.checkTop value = .ok () ∧ vm' = vm.release value := by
  simp only [deallocate, bind_eq_ok, pure_eq_ok]
  constructor
  · rintro ⟨⟨⟩, hTop, rfl⟩
    exact ⟨hTop, rfl⟩
  · rintro ⟨hTop, rfl⟩
    exact ⟨(), hTop, rfl⟩

end BaseVM

end Nexus.Register
