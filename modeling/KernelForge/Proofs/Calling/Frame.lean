import KernelForge.Host.Argument
import KernelForge.Proofs.Holdings.Device

/-!
# Arguments in a parameter frame

What was written to the heap is read there again, whole or in parts, so each argument stands in its
slot of a frame. A slot is a 64-bit word; `ofSlot` is the value a kernel takes a word for, and for
an argument that fits the kind it is the value of the argument (`Argument.ofSlot_slot`).
-/

namespace KernelForge

open List
open Binary.Format (half ofNumber ofRatio)

/-! ## Bytes in memory -/

namespace Device.Heap

variable {h h' : Heap} {address : Nat} {data : List UInt8} {bytes : Array UInt8}

/-- The bytes of an array after a part of it was overwritten. -/
theorem getElem?_overwrite {start : Nat} (hfit : start + data.length ≤ bytes.size) (j : Nat) :
    (overwrite bytes start data)[j]? =
      if start ≤ j ∧ j < start + data.length then data[j - start]? else bytes[j]? := by
  induction data generalizing bytes start with
  | nil => rw [overwrite, if_neg (by rw [length_nil]; omega)]
  | cons b rest ih =>
    rw [length_cons] at hfit
    rw [overwrite, ih (by rw [Array.size_setIfInBounds]; omega), length_cons]
    by_cases hj : j = start
    · subst hj
      rw [if_neg (by omega), if_pos (by omega), Nat.sub_self, List.getElem?_cons_zero,
        Array.getElem?_setIfInBounds_self_of_lt (by omega)]
    · by_cases hin : start + 1 ≤ j ∧ j < start + 1 + rest.length
      · rw [if_pos hin, if_pos (by omega), show j - start = (j - (start + 1)) + 1 by omega,
          List.getElem?_cons_succ]
      · rw [if_neg hin, if_neg (by omega), Array.getElem?_setIfInBounds_ne (by omega)]

/-- The overwritten part holds the new bytes. -/
theorem extract_overwrite {start : Nat} (hfit : start + data.length ≤ bytes.size) :
    ((overwrite bytes start data).extract start (start + data.length)).toList = data := by
  refine ext_getElem? fun j => ?_
  rw [Array.getElem?_toList, Array.getElem?_extract, size_overwrite]
  by_cases hj : j < data.length
  · rw [if_pos (by omega), getElem?_overwrite hfit, if_pos (by omega), Nat.add_sub_cancel_left]
  · rw [if_neg (by omega), List.getElem?_eq_none (by omega)]

/-- The bytes at an address. -/
def Holds (h : Heap) (address : Nat) (data : List UInt8) : Prop :=
  h.read address data.length = .ok data

theorem holds_iff : h.Holds address data ↔ h.InBounds address data.length ∧
    ∀ j < data.length, h.bytes[address - heapBase + j]? = data[j]? := by
  unfold Holds read
  constructor
  · intro hread
    split at hread
    · next hin =>
      refine ⟨hin, fun j hj => ?_⟩
      have hget := congrArg (·[j]?) (Except.ok.inj hread)
      rwa [Array.getElem?_toList, Array.getElem?_extract, if_pos] at hget
      have := hin.2
      omega
    · cases hread
  · rintro ⟨hin, hbytes⟩
    rw [if_pos hin]
    refine congrArg Except.ok (ext_getElem? fun j => ?_)
    rw [Array.getElem?_toList, Array.getElem?_extract]
    have hbound := hin.2
    by_cases hj : j < data.length
    · rw [if_pos (by omega), hbytes j hj]
    · rw [if_neg (by omega), List.getElem?_eq_none (by omega)]

/-- What was written is there. -/
theorem holds_write (hw : h.write address data = .ok h') : h'.Holds address data := by
  unfold write at hw
  split at hw
  · next hin =>
    cases hw
    have hfit : address - heapBase + data.length ≤ h.bytes.size := hin.2
    have hin' : InBounds { h with bytes := overwrite h.bytes (address - heapBase) data } address
        data.length := ⟨hin.1, by rw [size_overwrite]; exact hfit⟩
    unfold Holds read
    rw [if_pos hin']
    exact congrArg Except.ok (extract_overwrite hfit)
  · cases hw

theorem Holds.part {before part after : List UInt8}
    (hd : h.Holds address (before ++ part ++ after)) : h.Holds (address + before.length) part := by
  obtain ⟨⟨hbase, hbound⟩, hbytes⟩ := holds_iff.1 hd
  simp only [length_append] at hbound hbytes
  refine holds_iff.2 ⟨⟨by omega, by omega⟩, fun j hj => ?_⟩
  have hget := hbytes (before.length + j) (by omega)
  rw [append_assoc, List.getElem?_append_right (by omega), Nat.add_sub_cancel_left,
    List.getElem?_append_left hj] at hget
  rw [show address + before.length - heapBase + j = address - heapBase + (before.length + j) by
    omega]
  exact hget

end Device.Heap

/-! ## Arguments -/

namespace Host

open KernelForge.Binary (mask bytesLE convert)
open Device (Value Heap)
open Lir (Kind)

/-- The value of a kind that a word of a frame stands for. -/
def ofSlot (word : Nat) : Kind → Option Value
  | .i64 | .ptr => some (.int word 64)
  | .i8 => some (.ofBits word 8)
  | .i16 => some (.ofBits word 16)
  | .i32 => some (.ofBits word 32)
  | .f64 => some (.float word 64)
  | .f32 => some (.float (mask word 32) 32)
  | .f16 => some (.float (mask word 16) 16)
  | .bool => some (.bool (word != 0))
  | .vector _ _ | .void => none

/-- An argument that matches the kind of a parameter. Addresses and the bits of numbers
are words of their width. -/
inductive Argument.Fits : Argument → Kind → Prop
  | i8 (n : Int64) : Fits (.int n) .i8
  | i16 (n : Int64) : Fits (.int n) .i16
  | i32 (n : Int64) : Fits (.int n) .i32
  | i64 (n : Int64) : Fits (.int n) .i64
  | address {address : Nat} (h : address < Nat.pow 2 64) : Fits (.buffer address) .i64
  | pointer {address : Nat} (h : address < Nat.pow 2 64) : Fits (.buffer address) .ptr
  | f16 {bits : Nat} (h : bits < Nat.pow 2 32) : Fits (.f16 bits) .f16
  | f32 {bits : Nat} (h : bits < Nat.pow 2 32) : Fits (.f32 bits) .f32
  | f64 {bits : Nat} (h : bits < Nat.pow 2 64) : Fits (.f64 bits) .f64
  | bool (b : Bool) : Fits (.bool b) .bool

/-- An argument as a value of a kind. Integers are reduced to the width of the kind,
addresses and numbers keep their bits, and a 16-bit number is the one nearest to what was given. -/
def Argument.valueAt (k : Kind) : Argument → Value
  | .buffer address => .int address 64
  | .int n => .int (n.toInt % Nat.pow 2 k.bits).toNat k.bits
  | .f64 bits => .float bits 64
  | .f32 bits => .float bits 32
  | .f16 bits => .float (convert .single .half bits) 16
  | .bool b => .bool b

/-- A pattern of the 16-bit format has 16 bits. -/
theorem half_lt (x : Binary.Number) : half.ofNumber x < Nat.pow 2 16 := by
  have hsign : ∀ negative, half.signBit negative ≤ 32768 := by decide
  have hinfinity : half.infinity = 31744 := by decide
  have hpow : Nat.pow 2 16 = 65536 := by decide
  cases x with
  | nan => decide
  | infinite negative =>
    have := hsign negative
    show half.signBit negative + half.infinity < _
    omega
  | finite negative m p =>
    have := hsign negative
    unfold ofNumber ofRatio
    dsimp only
    split
    · omega
    · split <;> omega

variable {a : Argument}

theorem Argument.Fits.slot_lt {k : Kind} (h : a.Fits k) : a.slot < Nat.pow 2 64 := by
  cases h with
  | i8 n | i16 n | i32 n | i64 n => exact n.toUInt64.toNat_lt
  | address h | pointer h | f64 h => exact h
  | f16 => exact Nat.lt_trans (half_lt _) (by decide)
  | f32 h => exact Nat.lt_trans h (by decide)
  | bool b => cases b <;> decide

/-- The low bits of an integer as a word. -/
theorem word_mod (n : Int64) {width : Nat} (h : width = 8 ∨ width = 16 ∨ width = 32 ∨ width = 64) :
    n.toUInt64.toNat % Nat.pow 2 width = (n.toInt % Nat.pow 2 width).toNat := by
  have hword : (n.toUInt64.toNat : Int) = n.toInt % Nat.pow 2 64 := by
    have hlt := n.toUInt64.toNat_lt
    have hint : n.toInt = if 2 * n.toUInt64.toNat < 2 ^ 64 then (n.toUInt64.toNat : Int)
        else (n.toUInt64.toNat : Int) - (2 ^ 64 : Nat) := BitVec.toInt_eq_toNat_cond _
    simp only [Nat.pow_eq]
    split at hint <;> omega
  rcases h with rfl | rfl | rfl | rfl
  all_goals
    simp only [Nat.pow_eq] at hword ⊢
    omega

/-- A kernel takes the slot of an argument for the value of the argument. -/
theorem Argument.ofSlot_slot {k : Kind} (h : a.Fits k) : ofSlot a.slot k = some (a.valueAt k) := by
  cases h with
  | i8 n => exact congrArg (fun bits => some (Value.int bits 8)) (word_mod n (by decide))
  | i16 n => exact congrArg (fun bits => some (Value.int bits 16)) (word_mod n (by decide))
  | i32 n => exact congrArg (fun bits => some (Value.int bits 32)) (word_mod n (by decide))
  | i64 n =>
    refine congrArg (fun bits => some (Value.int bits 64)) ?_
    rw [← word_mod n (by decide)]
    exact (Nat.mod_eq_of_lt n.toUInt64.toNat_lt).symm
  | address | pointer | f64 => rfl
  | f16 => exact congrArg (fun bits => some (Value.float bits 16)) (Nat.mod_eq_of_lt (half_lt _))
  | f32 h => exact congrArg (fun bits => some (Value.float bits 32)) (Nat.mod_eq_of_lt h)
  | bool b => cases b <;> rfl

/-! ## Frames -/

theorem length_slots (args : List Argument) :
    (args.flatMap fun a => bytesLE 8 a.slot).length = args.length * 8 := by
  induction args with
  | nil => rfl
  | cons a args ih =>
    rw [flatMap_cons, length_append, Binary.length_bytesLE, length_cons]
    omega

theorem length_frameBytes (args : List Argument) :
    (frameBytes args).length = (Codegen.reservedSlots + args.length) * 8 := by
  rw [frameBytes, length_append, length_replicate, length_slots]
  omega

/-- Each argument stands in its slot of the frame. -/
theorem holds_slot {heap : Heap} {address j : Nat} {args : List Argument}
    (h : heap.Holds address (frameBytes args)) (hj : args[j]? = some a) :
    heap.Holds (address + (Codegen.reservedSlots + j) * 8) (bytesLE 8 a.slot) := by
  obtain ⟨hlt, hget⟩ := List.getElem?_eq_some_iff.1 hj
  have hsplit : frameBytes args = (List.replicate (Codegen.reservedSlots * 8) 0 ++
      (args.take j).flatMap fun a => bytesLE 8 a.slot) ++ bytesLE 8 a.slot ++
      (args.drop (j + 1)).flatMap fun a => bytesLE 8 a.slot := by
    have hargs : args = args.take j ++ a :: args.drop (j + 1) := by
      rw [← hget, ← drop_eq_getElem_cons hlt, take_append_drop]
    unfold frameBytes
    conv => lhs; rw [hargs]
    rw [flatMap_append, flatMap_cons, append_assoc, append_assoc]
  rw [hsplit] at h
  have hpart := h.part
  rwa [length_append, length_replicate, length_slots, length_take,
    Nat.min_eq_left (Nat.le_of_lt hlt), ← Nat.add_mul] at hpart

end Host

end KernelForge
