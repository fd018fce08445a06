import KernelForge.Proofs.Calling.Recipes

/-!
# Reading the arguments of a kernel

The first block of a kernel reads one 64-bit slot of its parameter frame for each parameter and
takes it for a value of the parameter's kind. Afterwards each parameter has the value of its slot,
under its id and in its own variable if it has one (`Running.kernelParams_takes`).
-/

namespace KernelForge

open List

namespace Binary

/-- Going on by a number of elements does not wrap if the end is a 64-bit word. -/
theorem word64_advance {a b s : Nat} (hb : b < Nat.pow 2 64) (h : a + b * s < Nat.pow 2 64) :
    word64 ((a : Int) + signExtend b 64 * s) = a + b * s := by
  have hmod : ((a : Int) + signExtend b 64 * s) % (Nat.pow 2 64 : Nat) =
      ((a + b * s : Nat) : Int) % (Nat.pow 2 64 : Nat) := by
    have hlow : b % Nat.pow 2 (min 64 64) = b := Nat.mod_eq_of_lt hb
    unfold signExtend
    dsimp only
    rw [hlow]
    split
    · rw [Int.natCast_add, Int.natCast_mul]
    · rw [Int.sub_mul, ← Int.add_sub_assoc, Nat.min_self, Int.sub_mul_emod_self_left,
        Int.natCast_add, Int.natCast_mul]
  rw [word64, hmod, ← Int.natCast_emod]
  exact Nat.mod_eq_of_lt h

end Binary

namespace Codegen.Running

open KernelForge.Binary (bytesLE)
open Host (ofSlot)
open Lir (Kind)
open Spirv
open Device (Env Value)

variable {R : Running} {K : Facts} {k : Kind} {t raw : Temp} {word : Nat}

/-- A value is converted to a kind. -/
theorem convertSlot_computes {op : Opcode} {x y : Value} (hx : K.temps[t]? = some (.result x))
    (hop : op ≠ .extInst) (h : ∀ {locals store s type id}, R.env.value locals s = .ok x →
      R.names.session.types.get? k = some type →
      R.env.execute locals store ⟨op, some type, some id, [.ref s]⟩ = .ok (.next (some y) store)) :
    R.Computes K (Select.convertSlot op k t) y := by
  refine (type_adds k).next (Executes.computes ⟨hop, fun hm ht ho => ?_⟩ (K.grows_add _))
  obtain ⟨s, others, rfl, hs, ho⟩ := hm.arg (.inr ((K.grows_add _).lookup hx)) ho
  cases ho
  exact h hs (hm.lookup (K.add_last _) ht)

section Slot

variable (hraw : K.temps[raw]? = some (.result (.int word 64)))

include hraw

theorem cutSlot_computes {w : Nat} (hk : scalarTy k = some (.int w)) :
    R.Computes K (Select.convertSlot .uConvert k raw) (.ofBits word w) :=
  convertSlot_computes hraw nofun fun hs ht => Env.execute_cut hs (R.known.type ht hk)

/-- A slot is taken for a value of the kind. -/
theorem slotValue_takes (k : Kind) (hword : word < Nat.pow 2 64) :
    R.Takes K (Select.slotValue raw k) fun t K' => K.Grows K' ∧
      ∃ x, ofSlot word k = some x ∧ K'.temps[t]? = some (.result x) := by
  have found : ∀ {x : Value}, ofSlot word k = some x → ∀ (t : Temp) (K' : Facts),
      K.Grows K' ∧ K'.temps[t]? = some (.result x) →
      K.Grows K' ∧ ∃ x, ofSlot word k = some x ∧ K'.temps[t]? = some (.result x) :=
    fun hx _ _ ⟨hg, ht⟩ => ⟨hg, _, hx, ht⟩
  cases k with
  | vector | void => exact takes_fail _
  | i64 | ptr => exact .pure ⟨.refl K, _, rfl, hraw⟩
  | i8 | i16 | i32 => exact Takes.imp (cutSlot_computes hraw rfl) (found rfl)
  | f64 =>
    refine Takes.imp (convertSlot_computes hraw nofun fun hs ht => ?_) (found rfl)
    exact Env.execute_castBits (.float (by decide) hword) hs (R.known.type ht rfl)
  | f32 | f16 =>
    refine Takes.bind (cutSlot_computes hraw rfl) fun t K' ⟨hg, ht⟩ => ?_
    refine Takes.imp (convertSlot_computes ht nofun fun hs ht => ?_) fun t K'' ⟨hg', hx⟩ =>
      found rfl t K'' ⟨hg.trans hg', hx⟩
    exact Env.execute_castBits (.float (by decide) (Binary.mask_lt (by decide))) hs
      (R.known.type ht rfl)
  | bool =>
    refine (constant_adds (x := .int 0 64) fun id hid => R.known.index (by decide) hid).next ?_
    have hgrows := (K.grows_add (.constant (.int 0 64))).trans (Facts.grows_add _ (.type .bool))
    refine (type_adds .bool).next (Takes.imp (Executes.computes ⟨nofun, fun hm ht ho => ?_⟩ hgrows)
      (found rfl))
    obtain ⟨s, others, rfl, hs, ho⟩ := hm.arg (.inr (hgrows.lookup hraw)) ho
    obtain ⟨z, others, rfl, hz, ho⟩ :=
      hm.arg (.inl ((Facts.grows_add _ _).lookup (K.add_last _))) ho
    cases ho
    exact Env.execute_differ (by decide) hs hz

end Slot

/-- The value of a slot can be stored. -/
theorem stores_ofSlot {x : Value} (h : ofSlot word k = some x) (hword : word < Nat.pow 2 64) :
    R.Stores k x := by
  cases k with
  | vector | void => cases h
  | bool =>
    cases h
    exact stores_scalar rfl (.bool _)
  | i64 | ptr =>
    cases h
    exact stores_scalar rfl (.int (by decide) hword)
  | f64 =>
    cases h
    exact stores_scalar rfl (.float (by decide) hword)
  | i8 | i16 | i32 =>
    cases h
    exact stores_scalar rfl (.int (by decide) (Binary.mask_lt (by decide)))
  | f16 | f32 =>
    cases h
    exact stores_scalar rfl (.float (by decide) (Binary.mask_lt (by decide)))

/-- Words of 64 bits in the slots of a frame from one slot on; the frame ends in memory. -/
structure HoldsSlots (heap : Device.Heap) (address slot count : Nat) (words : Nat → Nat) :
    Prop where
  stop : address + (slot + count) * 8 ≤ Nat.pow 2 64
  word : ∀ i, slot ≤ i → i < slot + count →
    words i < Nat.pow 2 64 ∧ heap.Holds (address + i * 8) (bytesLE 8 (words i))

section Frame

variable {frame slotPtr long : Temp} {slot address : Nat} {type : Id} {words : Nat → Nat}
  {params : List Lir.Param} (htype : R.names.session.types.get? .i64 = some type)

include htype

/-- The parameters are defined from the slots of the frame. -/
theorem frameParams_takes
    (hframe : K.temps[frame]? = some (.result (.pointer ⟨.heap, address, type⟩)))
    (hptr : K.temps[slotPtr]? = some (.pointer .i64 StorageClass.crossWorkgroup))
    (hlong : K.temps[long]? = some (.type .i64))
    (hslots : HoldsSlots R.heap address slot params.length words)
    (hkinds : ∀ param ∈ params, R.names.scope.function.kindOf? param.var = some param.kind)
    (hnodup : (params.map Lir.Param.var).Nodup) :
    R.Takes K (Select.frameParams frame slotPtr long slot params) fun _ K' =>
      (∀ (j : Nat) param, params[j]? = some param →
        ∃ x, ofSlot (words (slot + j)) param.kind = some x ∧ K'.vars param.var = some x) ∧
      ∀ w, w ∉ params.map Lir.Param.var → K'.vars w = K.vars w := by
  induction params generalizing slot K with
  | nil => exact .pure ⟨nofun, fun _ _ => rfl⟩
  | cons param params ih =>
    obtain ⟨hend, hwords⟩ := hslots
    rw [length_cons] at hend hwords
    obtain ⟨hword, hheap⟩ := hwords slot (Nat.le_refl _) (by omega)
    have hslot : slot < Nat.pow 2 64 := by omega
    have hplace : Binary.word64 ((address : Int) + Binary.signExtend slot 64 * (8 : Nat)) =
        address + slot * 8 := Binary.word64_advance hslot (by omega)
    -- find the slot and read it
    refine (constant_adds (x := .int slot 64) fun id hid => R.known.index hslot hid).next ?_
    refine Adds.next (instr_adds (x := .pointer ⟨.heap, address + slot * 8, type⟩)
      ⟨nofun, fun hm ht ho => ?_⟩) ?_
    · obtain ⟨f, others, rfl, hf, ho⟩ := hm.arg (.inr ((K.grows_add _).lookup hframe)) ho
      obtain ⟨index, others, rfl, hindex, ho⟩ := hm.arg (.inl (K.add_last _)) ho
      cases ho
      obtain ⟨type', htype', hpointer⟩ := hm.lookup ((K.grows_add _).lookup hptr) ht
      cases htype.symm.trans htype'
      rw [← hplace]
      exact Env.execute_access hf hindex (by decide) (R.known.sizeOf htype nofun)
        (R.known.pointer hpointer)
    have hgrows := (K.grows_add (.constant (.int slot 64))).trans
      (Facts.grows_add _ (.result (.pointer ⟨.heap, address + slot * 8, type⟩)))
    refine Takes.bind (Executes.computes (x := .int (words slot) 64)
      ⟨nofun, fun hm ht ho => ?_⟩ hgrows) fun raw K₁ ⟨hgrows₁, hraw⟩ => ?_
    · obtain ⟨place, others, rfl, hp, -⟩ := hm.arg (.inr (Facts.add_last _ _)) ho
      cases htype.symm.trans (hm.lookup (hgrows.lookup hlong) ht)
      obtain ⟨image, himage, hlength, hdecode⟩ := stores_ofSlot (R := R) (k := .i64) rfl hword
      cases himage
      refine Env.execute_load hp ((R.known.sizeOf htype nofun).trans (congrArg _ hlength.symm)) ?_
        (hdecode type htype)
      rw [← hm.heap] at hheap
      exact hheap
    -- take it for a value of the kind and define the parameter
    refine (slotValue_takes hraw param.kind hword).bind fun t K₂ ⟨hgrows₂, x, hx, ht⟩ => ?_
    have hgrows₂ := hgrows₁.trans hgrows₂
    refine (forward_takes ht (hkinds param mem_cons_self) (stores_ofSlot hx hword)).bind ?_
    rintro _ _ rfl
    obtain ⟨hnew, hnodup⟩ := nodup_cons.1 hnodup
    refine Takes.imp (ih (K := K₂.define param.var x) (hgrows₂.lookup hframe) (hgrows₂.lookup hptr)
      (hgrows₂.lookup hlong) ⟨by omega, fun i hle hlt => hwords i (by omega) (by omega)⟩
      (fun p hp => hkinds p (mem_cons_of_mem _ hp)) hnodup) fun _ K₃ ⟨hparams, hothers⟩ => ?_
    refine ⟨fun j p hj => ?_, fun w hw => ?_⟩
    · cases j with
      | zero =>
        cases hj
        exact ⟨x, hx, (hothers _ hnew).trans (if_pos rfl)⟩
      | succ j =>
        rw [show slot + (j + 1) = slot + 1 + j by omega]
        exact hparams j p hj
    · rw [map_cons, mem_cons, not_or] at hw
      rw [hothers w hw.2, ← hgrows₂.vars]
      exact if_neg hw.1

/-- A kernel is given a pointer to the heap and the place of the frame in it. -/
theorem kernelParams_takes {byte : Id} {base frame : Nat}
    (hbyte : R.names.session.types.get? .i8 = some byte)
    (hslots : HoldsSlots R.heap (base + frame) reservedSlots params.length words)
    (hkinds : ∀ param ∈ params, R.names.scope.function.kindOf? param.var = some param.kind)
    (hnodup : (params.map Lir.Param.var).Nodup) :
    R.Takes ⟨[.result (.pointer ⟨.heap, base, byte⟩), .result (.int frame 64)], fun _ => none⟩
      (Select.kernelParams 0 1 params) fun _ K' =>
        ∀ (j : Nat) param, params[j]? = some param →
          ∃ x, ofSlot (words (reservedSlots + j)) param.kind = some x ∧
            K'.vars param.var = some x := by
  have hreserved : reservedSlots = 3 := rfl
  have hend := hslots.stop
  have hat : Binary.word64 ((base : Int) + Binary.signExtend frame 64 * (1 : Nat)) =
      base + frame := by
    have hadvance := Binary.word64_advance (a := base) (b := frame) (s := 1) (by omega) (by omega)
    rwa [Nat.mul_one] at hadvance
  refine (pointer_adds _ _).next ((pointer_adds _ _).next ((type_adds _).next ?_))
  refine Adds.next (instr_adds (x := .pointer ⟨.heap, base + frame, byte⟩)
    ⟨nofun, fun hm ht ho => ?_⟩) ?_
  · obtain ⟨heap, others, rfl, hheap, ho⟩ := hm.arg (.inr rfl) ho
    obtain ⟨place, others, rfl, hplace, ho⟩ := hm.arg (.inr rfl) ho
    cases ho
    obtain ⟨byte', hbyte', hpointer⟩ := hm.lookup rfl ht
    cases hbyte.symm.trans hbyte'
    rw [← hat]
    exact Env.execute_access hheap hplace (by decide) (R.known.sizeOf hbyte nofun)
      (R.known.pointer hpointer)
  refine Adds.next (instr_adds (x := .pointer ⟨.heap, base + frame, type⟩)
    ⟨nofun, fun hm ht ho => ?_⟩) ?_
  · obtain ⟨bytes, others, rfl, hbytes, ho⟩ := hm.arg (.inr rfl) ho
    cases ho
    obtain ⟨type', htype', hpointer⟩ := hm.lookup rfl ht
    cases htype.symm.trans htype'
    exact Env.execute_castPointer hbytes (R.known.pointer hpointer)
  exact Takes.imp (frameParams_takes htype rfl rfl rfl hslots hkinds hnodup) fun _ _ h => h.1

end Frame

end Codegen.Running

end KernelForge
