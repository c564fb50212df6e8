import Nexus.Lib.Overflow
import Nexus.Operation.Operands
import Nexus.Safety.Claims

/-!
# Slices and concatenations

`SUBDATA` frees the value at the top and allocates a slice of its bytes, from a
begin and a size that the condition states; `CAT` frees two values and allocates
the bytes of both.  `CAT` takes its bytes from the values.  `SUBDATA` never
compares the end of the slice with the size of the data, so a slice past the end
is filled from the memory behind the copy.

## Main results

* `slice_exact_iff`: `SUBDATA` is the slice exactly when the slice ends in the
  data, or is an empty one that cannot be paid; `CAT` is the concatenation.
* `slice_past_end`: a slice that holds more than the value.
-/

namespace Nexus.Safety

open Nexus.Lib.Bytes
open Nexus.Lib.Checked
open Nexus.Lib.Overflow
open Nexus.Util
open Nexus.Register
open Nexus.Register.BaseVM
open Nexus.Operation
open Nexus.Operation.Condition
open Nexus.LLD

/-- The bytes of a datum. -/
def dataOf (d : Datum) : List UInt8 := d.block.take d.nBytes

/-- A datum is allocated as a value, over some bytes and under others. -/
structure Holding (vm : BaseVM) (value : Value) (vchUsed : List UInt8) (d : Datum)
    (vchRest : List UInt8) : Prop where
  stores : Stores vm (vchUsed ++ d.block ++ vchRest)
  begins : vchUsed.length = 8 * value.nBegin
  value : value = valueAt value.nBegin d
  wide : d.nBytes ≤ d.block.length

/-- The begin and the size of a slice are next in the stream. -/
def StatesSlice (c : Condition) (nBegin nSize : UInt16) (c' : Condition) : Prop :=
  ∃ c₁, c.extract UInt16 = .ok (nBegin, c₁) ∧ c₁.extract UInt16 = .ok (nSize, c')

/-- The positions in the data of a value that the copy of a slice reads. -/
def sliceReads (nBegin nSize : UInt16) : List Nat :=
  (List.range nSize.toNat).map fun i => nBegin.toNat + i

/-- `SUBDATA` fails or is the slice that the stream states, and reads no byte outside the
data. -/
structure ExactSlice (rt : Runtime) (vRet : Value) (c : Condition) (vchData : List UInt8) : Prop where
  slice : ∀ fRet value c', subdata rt vRet c = .ok (fRet, value, c') → fRet = true →
    ∃ nBegin nSize c₁, StatesSlice c nBegin nSize c₁ ∧
      nBegin.toNat + nSize.toNat ≤ vchData.length ∧
      c'.vm.bytes value = (vchData.drop nBegin.toNat).take nSize.toNat
  inside : ∀ nBegin nSize c₁, StatesSlice c nBegin nSize c₁ → ∀ p ∈ sliceReads nBegin nSize,
    p < vchData.length

/-- `CAT` fails or is the concatenation, and takes its bytes from the values. -/
structure ExactCat (vRet vCat : Value) (c : Condition) (vchData vchCat : List UInt8) : Prop where
  cat : ∀ fRet value c', cat vRet vCat c = .ok (fRet, value, c') → fRet = true →
    c'.vm.bytes value = vchData ++ vchCat
  sources : c.vm.bytes vRet = vchData ∧ c.vm.bytes vCat = vchCat

variable {rt : Runtime} {vm vm' : BaseVM} {value vRet vCat : Value} {c c' : Condition}
  {vchUsed vchMid vchRest vch : List UInt8} {d e : Datum} {nBegin nSize : UInt16}

/-! ## Values -/

@[simp] theorem dataOf_bytes (vch : List UInt8) : dataOf (.bytes vch) = vch := by
  rw [dataOf, Datum.block, Datum.nBytes, List.take_left]

theorem dataOf_length (h : d.nBytes ≤ d.block.length) : (dataOf d).length = d.nBytes := by
  rw [dataOf, List.length_take, Nat.min_eq_left h]

/-- The bytes of a value are those of its datum. -/
theorem Holding.bytes (h : Holding vm value vchUsed d vchRest) : vm.bytes value = dataOf d := by
  have hBytes : value.nBytes = d.nBytes := by
    rw [h.value]
    rfl
  rw [BaseVM.bytes, h.stores.memory, ← h.begins, List.append_assoc, List.append_assoc, List.drop_left,
    hBytes, List.take_append_of_le_length h.wide, dataOf]

theorem Holding.ends (h : Holding vm value vchUsed d vchRest) : value.nEnd = value.nBegin + d.size := by
  rw [h.value]
  rfl

/-- The value at the top is freed. -/
theorem Holding.release (h : Holding vm value vchUsed d []) :
    value.nEnd = vm.nPointer ∧ Stores (vm.release value) vchUsed := by
  have hStores := h.stores
  rw [List.append_nil] at hStores
  have hPointer := hStores.pointer
  have hEnds := h.ends
  rw [List.length_append, h.begins, Datum.block_length] at hPointer
  have hTop : value.nEnd = vm.nPointer := by omega
  exact ⟨hTop, hStores.release h.begins hTop⟩

theorem Holding.checkTop (h : Holding vm value vchUsed d []) (hPos : 0 < vm.nPointer) :
    vm.checkTop value = .ok () := by
  have hTop := h.release.1
  have hStores := h.stores
  have hBound := hStores.bound
  have hMax : REGISTERS = 256 := by decide
  exact checkTop_eq_ok.mpr ⟨by omega, by omega, hTop, by omega⟩

/-- What an allocation of bytes holds. -/
theorem holding_of_allocate (hStores : Stores vm vchUsed)
    (h : (Datum.bytes vch).allocate vm = .ok (value, vm')) :
    Holding vm' value vchUsed (.bytes vch) [] := by
  obtain ⟨hRoom, rfl, hStores'⟩ := (allocate_eq_ok hStores).mp h
  refine ⟨?_, hStores.pointer, rfl, ?_⟩
  · rwa [List.append_nil]
  · rw [Datum.block_length]
    exact Datum.length_le_size vch

/-! ## Slices -/

theorem StatesSlice.unique {nBegin' nSize' : UInt16} {c'' : Condition}
    (h : StatesSlice c nBegin nSize c') (h' : StatesSlice c nBegin' nSize' c'') :
    nBegin' = nBegin ∧ nSize' = nSize ∧ c'' = c' := by
  obtain ⟨c₁, hBegin, hSize⟩ := h
  obtain ⟨c₂, hBegin', hSize'⟩ := h'
  rw [hBegin, Except.ok.injEq, Prod.mk.injEq] at hBegin'
  rw [← hBegin'.2, hSize, Except.ok.injEq, Prod.mk.injEq] at hSize'
  exact ⟨hBegin'.1.symm, hSize'.1.symm, hSize'.2.symm⟩

/-- The stream is the only part of the machine that stating a slice moves. -/
theorem StatesSlice.frame (h : StatesSlice c nBegin nSize c') :
    c'.vm = c.vm ∧ c'.nCost = c.nCost := by
  obtain ⟨c₁, hBegin, hSize⟩ := h
  simp only [Condition.extract, map_eq_ok, Prod.exists, Prod.mk.injEq] at hBegin hSize
  obtain ⟨-, ss, -, -, rfl⟩ := hBegin
  obtain ⟨-, ss', -, -, rfl⟩ := hSize
  exact ⟨rfl, rfl⟩

/-- The bytes that `SUBDATA` allocates. -/
def sliceBytes (rt : Runtime) (vchData : List UInt8) (nBegin nSize : UInt16) : List UInt8 :=
  (List.range nSize.toNat).map fun i => BaseVM.byteAt rt vchData (nBegin.toNat + i)

/-- `SUBDATA` at the top, after its operands were read. -/
theorem subdata_eq (hTop : Holding c.vm vRet vchUsed d []) (hPos : 0 < c.vm.nPointer)
    (h : StatesSlice c nBegin nSize c') :
    subdata rt vRet c = loadBytes "OP::SUBDATA" (sliceBytes rt (dataOf d) nBegin nSize)
      (UInt64.ofNat (dataOf d).length) { c' with vm := c.vm.release vRet } := by
  obtain ⟨hMemory, -⟩ := h.frame
  obtain ⟨c₁, hBegin, hSize⟩ := h
  have hFree : c'.vm.deallocateBytes vRet = .ok (dataOf d, c.vm.release vRet) := by
    rw [hMemory, deallocateBytes, hTop.checkTop hPos, ok_bind, hTop.bytes]
    rfl
  simp only [subdata, hBegin, ok_bind, hSize, hFree]
  rfl

/-- A slice that ends in the data is copied from it. -/
theorem sliceBytes_inside {vchData : List UInt8} (h : nBegin.toNat + nSize.toNat ≤ vchData.length) :
    sliceBytes rt vchData nBegin nSize = (vchData.drop nBegin.toNat).take nSize.toNat := by
  apply List.ext_getElem?
  intro i
  rw [sliceBytes, List.getElem?_map, List.getElem?_take, List.getElem?_drop]
  by_cases hi : i < nSize.toNat
  · have hIn : nBegin.toNat + i < vchData.length := by omega
    rw [if_pos hi, List.getElem?_range hi, Option.map_some, BaseVM.byteAt, List.getElem?_eq_getElem hIn,
      Option.getD_some]
  · rw [if_neg hi, List.getElem?_eq_none (by rw [List.length_range]; omega), Option.map_none]

theorem mem_sliceReads {p : Nat} :
    p ∈ sliceReads nBegin nSize ↔ nBegin.toNat ≤ p ∧ p < nBegin.toNat + nSize.toNat := by
  simp only [sliceReads, List.mem_map, List.mem_range]
  constructor
  · intro h
    obtain ⟨i, hi, rfl⟩ := h
    omega
  · intro h
    exact ⟨p - nBegin.toNat, by omega, by omega⟩

/-- The slice ends in the data, or it is empty and the charge for the data does not fit. -/
def SliceFits (c : Condition) (vchData : List UInt8) (nBegin nSize : UInt16) : Prop :=
  nBegin.toNat + nSize.toNat ≤ vchData.length ∨
    (nSize = 0 ∧ 2 ^ 64 ≤ c.nCost.toNat + vchData.length)

theorem dataOf_small (h : Holding vm value vchUsed d vchRest) :
    (UInt64.ofNat (dataOf d).length).toNat = (dataOf d).length := by
  have hStores := h.stores
  have hPointer := hStores.pointer
  have hBound := hStores.bound
  have hMax : REGISTERS = 256 := by decide
  have hWide := h.wide
  rw [List.length_append, List.length_append] at hPointer
  rw [dataOf_length h.wide]
  exact UInt64.toNat_ofNat_of_lt' (Nat.lt_of_le_of_lt (show d.nBytes ≤ 2048 by omega) (by decide))

/-- An empty slice always has room. -/
theorem empty_loads (hStores : Stores c.vm vchUsed) {nCost : UInt64} {strOP : String}
    (hCost : ¬ c.nCost + nCost < c.nCost) :
    ∃ value c', loadBytes strOP [] nCost c = .ok (true, value, c') := by
  have hRoom : c.vm.nPointer + Datum.size (.bytes []) ≤ REGISTERS := hStores.bound
  have hAllocate : ∃ r, (Datum.bytes []).allocate c.vm = .ok r := by
    rw [Datum.allocate, allocateBytes, reject, if_neg]
    · exact ⟨_, rfl⟩
    · exact Nat.not_lt.mpr hRoom
  obtain ⟨⟨value, vm⟩, hAllocate⟩ := hAllocate
  exact ⟨value, _, loadBytes_eq_ok.mpr ⟨rfl, hCost, vm, hAllocate, rfl⟩⟩

theorem statesSlice_of_subdata {fRet : Bool} (h : subdata rt vRet c = .ok (fRet, value, c')) :
    ∃ nBegin nSize c₁, StatesSlice c nBegin nSize c₁ := by
  simp only [subdata, bind_eq_ok, Prod.exists] at h
  obtain ⟨nBegin, c₁, hBegin, nSize, c₂, hSize, -⟩ := h
  exact ⟨nBegin, nSize, c₂, c₁, hBegin, hSize⟩

/-- A slice that fits is exact. -/
theorem exactSlice_of_fits (hTop : Holding c.vm vRet vchUsed d []) (hPos : 0 < c.vm.nPointer)
    (hFits : ∀ nBegin nSize c₁, StatesSlice c nBegin nSize c₁ →
      SliceFits c (dataOf d) nBegin nSize) :
    ExactSlice rt vRet c (dataOf d) := by
  constructor
  · intro fRet value c' hRun hRet
    obtain ⟨nBegin, nSize, c₁, hStates⟩ := statesSlice_of_subdata hRun
    rw [subdata_eq hTop hPos hStates] at hRun
    obtain ⟨-, hCost, vm, hAllocate, rfl⟩ := loadBytes_eq_ok.mp hRun
    have hHolding := holding_of_allocate hTop.release.2 hAllocate
    rcases hFits nBegin nSize c₁ hStates with hIn | ⟨-, hOverflow⟩
    · refine ⟨nBegin, nSize, c₁, hStates, hIn, ?_⟩
      rw [hHolding.bytes, dataOf_bytes, sliceBytes_inside hIn]
    · rw [add_wraps_iff, dataOf_small hTop] at hCost
      exact absurd (hStates.frame.2 ▸ hOverflow) hCost
  · intro nBegin nSize c₁ hStates p hp
    rw [mem_sliceReads] at hp
    rcases hFits nBegin nSize c₁ hStates with hIn | ⟨hEmpty, -⟩
    · omega
    · rw [hEmpty, UInt16.toNat_zero] at hp
      omega

theorem exactSlice_iff (hTop : Holding c.vm vRet vchUsed d []) (hPos : 0 < c.vm.nPointer) :
    ExactSlice rt vRet c (dataOf d) ↔
      ∀ nBegin nSize c₁, StatesSlice c nBegin nSize c₁ → SliceFits c (dataOf d) nBegin nSize := by
  refine ⟨fun hExact nBegin nSize c₁ hStates => ?_, exactSlice_of_fits hTop hPos⟩
  by_cases hEmpty : nSize = 0
  · by_cases hOverflow : 2 ^ 64 ≤ c.nCost.toNat + (dataOf d).length
    · exact .inr ⟨hEmpty, hOverflow⟩
    · -- the empty slice is allocated, so it must be one of the data
      have hBytes : sliceBytes rt (dataOf d) nBegin nSize = [] := by
        rw [sliceBytes, hEmpty]
        rfl
      have hCost : ¬ c₁.nCost + UInt64.ofNat (dataOf d).length < c₁.nCost := by
        rw [add_wraps_iff, dataOf_small hTop, hStates.frame.2]
        exact hOverflow
      obtain ⟨value, c', hLoads⟩ : ∃ value c', loadBytes "OP::SUBDATA" []
          (UInt64.ofNat (dataOf d).length) { c₁ with vm := c.vm.release vRet } =
            .ok (true, value, c') := empty_loads hTop.release.2 hCost
      have hRun : subdata rt vRet c = .ok (true, value, c') := by
        rw [subdata_eq hTop hPos hStates, hBytes]
        exact hLoads
      obtain ⟨nBegin', nSize', c₂, hStates', hIn, -⟩ := hExact.slice true value c' hRun rfl
      obtain ⟨rfl, rfl, -⟩ := hStates.unique hStates'
      exact .inl hIn
  · left
    have hPositive : 0 < nSize.toNat := Nat.pos_of_ne_zero fun h => hEmpty (UInt16.toNat_inj.mp h)
    have hLast := hExact.inside nBegin nSize c₁ hStates (nBegin.toNat + nSize.toNat - 1)
      (mem_sliceReads.mpr (by omega))
    omega

/-! ## Concatenations -/

theorem exactCat (hLeft : Holding c.vm vRet vchUsed d (vchMid ++ e.block))
    (hRight : Holding c.vm vCat (vchUsed ++ d.block ++ vchMid) e []) :
    ExactCat vRet vCat c (dataOf d) (dataOf e) := by
  refine ⟨fun fRet value c' hRun hRet => ?_, hLeft.bytes, hRight.bytes⟩
  simp only [cat, bind_eq_ok, deallocate_eq_ok] at hRun
  obtain ⟨vm₁, ⟨-, rfl⟩, vm₂, ⟨hTop, rfl⟩, hLoads⟩ := hRun
  obtain ⟨-, -, vm₃, hAllocate, rfl⟩ := loadBytes_eq_ok.mp hLoads
  have hFreed := hRight.release.2
  obtain ⟨-, -, hEnd, -⟩ := checkTop_eq_ok.mp hTop
  -- the left value is at the top of what is left, so nothing is between the two
  have hAll : Stores ((c.vm.release vCat).release vRet) vchUsed := by
    rw [List.append_assoc] at hFreed
    exact hFreed.release hLeft.begins hEnd
  rw [(holding_of_allocate hAll hAllocate).bytes, dataOf_bytes, hLeft.bytes, hRight.bytes]

theorem slice_exact_iff (rt : Runtime) (hTop : Holding c.vm vRet vchUsed d [])
    (hPos : 0 < c.vm.nPointer) :
    (ExactSlice rt vRet c (dataOf d) ↔
      ∀ nBegin nSize c₁, StatesSlice c nBegin nSize c₁ → SliceFits c (dataOf d) nBegin nSize) ∧
    ∀ (c : Condition) (vRet vCat : Value) (vchUsed vchMid : List UInt8) (d e : Datum),
      Holding c.vm vRet vchUsed d (vchMid ++ e.block) →
        Holding c.vm vCat (vchUsed ++ d.block ++ vchMid) e [] →
          ExactCat vRet vCat c (dataOf d) (dataOf e) :=
  ⟨exactSlice_iff hTop hPos, fun _ _ _ _ _ _ _ hLeft hRight => exactCat hLeft hRight⟩

/-! ## A word of three letters -/

/-- The bytes `abc` in the memory, and a slice in the stream. -/
def threeBytes (nBegin nSize : UInt16) : Condition where
  vm := { vRegister := [97, 98, 99] ++ List.replicate 2045 0, nPointer := 1 }
  contract :=
    { ssCondition := { vchData := FixedWidth.encode nBegin ++ FixedWidth.encode nSize } }
  caller := {}

def threeValue : Value := { nBegin := 0, nEnd := 1, nBytes := 3 }

theorem threeBytes_holding (nBegin nSize : UInt16) :
    Holding (threeBytes nBegin nSize).vm threeValue [] (.bytes [97, 98, 99]) [] := by
  have hBound : (threeBytes nBegin nSize).vm.nPointer ≤ REGISTERS := by
    show 1 ≤ REGISTERS
    decide
  exact ⟨⟨rfl, rfl, hBound⟩, rfl, rfl, by decide⟩

theorem threeBytes_states (nBegin nSize : UInt16) :
    ∃ c, StatesSlice (threeBytes nBegin nSize) nBegin nSize c := by
  have hAt : (threeBytes nBegin nSize).At
      (FixedWidth.encode nBegin ++ (FixedWidth.encode nSize ++ [])) := by
    refine ⟨Nat.zero_le _, ?_⟩
    rw [List.append_nil]
    rfl
  obtain ⟨hBegin, hAt'⟩ := hAt.extract
  obtain ⟨hSize, -⟩ := hAt'.extract
  exact ⟨_, _, hBegin, hSize⟩

/-- A slice of the last two of three bytes is exact. -/
theorem slice_exact_iff_abc :
    ExactSlice exampleRuntime threeValue (threeBytes 1 2) [97, 98, 99] := by
  have hLaw := (slice_exact_iff exampleRuntime (threeBytes_holding 1 2) (by decide)).1
  rw [dataOf_bytes] at hLaw
  refine hLaw.mpr fun nBegin nSize c₁ hStates => ?_
  obtain ⟨c, hThree⟩ := threeBytes_states 1 2
  obtain ⟨rfl, rfl, -⟩ := hThree.unique hStates
  exact .inl (by decide)

/-- A slice of four of three bytes reads behind them, and is accepted. -/
theorem slice_past_end :
    (∃ value c, subdata exampleRuntime threeValue (threeBytes 0 4) = .ok (true, value, c)) ∧
      ¬ ExactSlice exampleRuntime threeValue (threeBytes 0 4) [97, 98, 99] := by
  constructor
  · have hRun : (subdata exampleRuntime threeValue (threeBytes 0 4)).toOption.map (·.1) = some true := by
      decide +kernel
    cases h : subdata exampleRuntime threeValue (threeBytes 0 4) with
    | error e =>
        rw [h] at hRun
        cases hRun
    | ok r =>
        rw [h] at hRun
        exact ⟨r.2.1, r.2.2, by rw [← Option.some.inj hRun]⟩
  · intro hExact
    obtain ⟨c, hStates⟩ := threeBytes_states 0 4
    have hRead := hExact.inside 0 4 c hStates 3 (by decide)
    exact absurd hRead (by decide)

end Nexus.Safety
