import KernelForge.Proofs.Execution.Straight
import KernelForge.Proofs.Execution.Ranges

/-!
# Runs that meet no trap

A sound program whose instructions have no arrays for results keeps all its values sound: no
instruction traps (`execute_free`), a step leads from a sound state to a sound one (`step_free`),
and so a whole launch ends without a trap (`Program.launch_free`).
-/

namespace KernelForge.Device

open List hiding set
open Binary (natLE word64)
open Spirv (Id Instruction)

/-! ## Images -/

theorem natLE_lt (bytes : List UInt8) : natLE bytes < Nat.pow 256 bytes.length := by
  induction bytes with
  | nil => decide
  | cons b rest ih =>
    have hb : b.toNat < 256 := b.toNat_lt
    have hstep : Nat.pow 256 (rest.length + 1) = Nat.pow 256 rest.length * 256 := rfl
    rw [natLE, length_cons]
    omega

variable {i : Instruction} {v : Value} {size count position : Nat} {item : WorkItem}

theorem natLE_take_lt (bytes : List UInt8) (h : size ≤ 8) :
    natLE (bytes.take size) < Nat.pow 2 64 := by
  have hlen : (bytes.take size).length ≤ 8 := by
    rw [length_take]
    omega
  calc natLE (bytes.take size) < Nat.pow 256 (bytes.take size).length := natLE_lt _
    _ ≤ Nat.pow 256 8 := Nat.pow_le_pow_right (by decide) hlen
    _ = Nat.pow 2 64 := by decide

/-- A sound integer takes at most the bytes of a word. -/
theorem wordBytes_free {bits w : Nat} (hw : IsWidth w) : Untrapped (wordBytes (w / 8) bits) := by
  have hle := hw.le
  rw [wordBytes, if_neg (by omega)]
  trivial

theorem encodeLanes_free {lanes : List Value} (h : ∀ v ∈ lanes, Untrapped (encode v)) :
    Untrapped (encodeLanes lanes) := by
  induction lanes with
  | nil => trivial
  | cons v lanes ih =>
    obtain ⟨hv, hlanes⟩ := forall_mem_cons.1 h
    exact hv.bind fun _ _ => (ih hlanes).bind fun _ _ => trivial

/-- Sound values have images. -/
theorem encode_free (h : v.Sound) : Untrapped (encode v) := by
  induction h with
  | bool b | float bits w => trivial
  | int hw =>
    exact wordBytes_free hw
  | vector h ih =>
    exact encodeLanes_free ih
  | @pointer q h =>
    obtain ⟨space, offset, pointee⟩ := q
    cases space with
    | heap => trivial
    | _ => exact .error nofun

namespace Program

variable {p : Program} {id : Id} {t : Ty}

/-- Whether an id is no type of arrays. -/
def Plain (p : Program) (id : Id) : Prop :=
  ∀ element length, p.types[id]? ≠ some (.array element length)

theorem sizeTimes_free {bound : Nat} (h : size * count ≤ bound)
    (hb : bound < Nat.pow 2 64) : TrapFree (· ≤ bound) (sizeTimes size count) := by
  rw [sizeTimes, if_neg (by omega)]
  exact h

/-- A lane takes at most eight bytes, however deep the search. -/
theorem laneSize_free (h : p.Sound) (ht : p.types[id]? = some t) (hlane : t.IsLane)
    (fuel : Nat) : TrapFree (· ≤ 8) (p.sizeWithin (fuel + 1) id) := by
  have hsound := h.types id t ht
  rw [sizeWithin_succ ht]
  cases t with
  | bool => exact (by decide : 1 ≤ 8)
  | int w =>
    have hle : w ≤ 64 := hsound.le
    exact (by omega : w / 8 ≤ 8)
  | float w =>
    have hle : w ≤ 64 := hsound
    exact (by omega : w / 8 ≤ 8)
  | _ => cases hlane

/-- A value that is no array takes at most 128 bytes. -/
theorem plainSize_free (h : p.Sound) (hplain : p.Plain id) (fuel : Nat) :
    TrapFree (· ≤ 128) (p.sizeWithin (fuel + 2) id) := by
  refine (type_free h id).bind fun t ht => ?_
  obtain ⟨hid, hsound⟩ := ht
  cases t with
  | vector element lanes =>
    obtain ⟨hlanes, t, helement, hlane⟩ := hsound
    refine (laneSize_free h helement hlane fuel).bind fun size hsize => ?_
    exact sizeTimes_free (Nat.mul_le_mul hsize hlanes) (by decide)
  | array element length => exact absurd hid (hplain element length)
  | bool => exact (by decide : 1 ≤ 128)
  | int w =>
    have hle : w ≤ 64 := hsound.le
    exact (by omega : w / 8 ≤ 128)
  | float w =>
    have hle : w ≤ 64 := hsound
    exact (by omega : w / 8 ≤ 128)
  | pointer _ _ => exact (by decide : 8 ≤ 128)
  | void | function => exact .error nofun

/-- The size of every type is a word. -/
theorem sizeOf_free (h : p.Sound) (id : Id) : Untrapped (p.sizeOf id) := by
  by_cases hplain : p.Plain id
  · exact (plainSize_free h hplain _).untrapped
  · obtain ⟨element, length, hid⟩ : ∃ element length,
        p.types[id]? = some (.array element length) := by
      simpa [Plain] using hplain
    obtain ⟨hlength, t, ht, hne⟩ := h.types id _ hid
    have helement : p.Plain element := fun e n he => hne e n (Option.some.inj (ht.symm.trans he))
    rw [sizeOf_eq hid]
    refine (plainSize_free h helement _).bind fun size hsize => ?_
    exact (sizeTimes_free (Nat.mul_le_mul hsize (Nat.le_of_lt hlength)) (by decide)).untrapped

/-- A lane is read from the bytes of a word. -/
theorem decodeLane_free (h : p.Sound) (ht : p.types[id]? = some t) (hlane : t.IsLane)
    (fuel : Nat) (bytes : List UInt8) :
    TrapFree Value.Sound (p.decodeWithin (fuel + 1) bytes id) := by
  refine (laneSize_free h ht hlane _).bind fun size hsize => ?_
  dsimp only
  split
  · exact .error nofun
  · rw [type_of_some ht]
    cases t with
    | bool | int | float =>
      simp only [if_neg (Nat.not_lt.2 hsize)]
      exact ofBits_free h (natLE_take_lt bytes hsize) id
    | _ => cases hlane

theorem decodeLanes_free {decode : List UInt8 → Except Fault Value}
    (hdecode : ∀ bytes, TrapFree Value.Sound (decode bytes)) {n : Nat} {bytes : List UInt8}
    (hlen : size * n ≤ bytes.length) :
    TrapFree (fun vs => ∀ v ∈ vs, v.Sound) (decodeLanes decode size n bytes) := by
  induction n generalizing bytes with
  | zero => exact fun _ hv => nomatch hv
  | succ n ih =>
    rw [Nat.mul_succ] at hlen
    have hdrop : size * n ≤ (bytes.drop size).length := by
      rw [length_drop]
      omega
    rw [decodeLanes, if_neg (by omega)]
    refine (hdecode _).bind fun v hv => (ih hdrop).bind fun vs hvs => ?_
    exact forall_mem_cons.2 ⟨hv, hvs⟩

/-- The size of a lane does not depend on the depth of the search. -/
theorem laneSize_eq (ht : p.types[id]? = some t) (hlane : t.IsLane) :
    p.sizeWithin (p.types.size + 2) id = p.sizeOf id := by
  rw [sizeOf_eq ht, sizeWithin_succ ht]
  cases t with
  | bool | int | float => rfl
  | _ => cases hlane

/-- A value that is no array can be read from its image, and it is sound. -/
theorem decode_free (h : p.Sound) (hplain : p.Plain id) (bytes : List UInt8) :
    TrapFree Value.Sound (p.decode bytes id) := by
  refine (plainSize_free h hplain _).known.bind fun size hsize => ?_
  dsimp only
  split
  · exact .error nofun
  · next hlen =>
    refine (type_free h id).bind fun t ht => ?_
    obtain ⟨hid, hsound⟩ := ht
    have hscalar : (size ≤ 8) → TrapFree Value.Sound (do
        if 8 < size then throw (.trapped (.slice size 8))
        p.ofBits (natLE (bytes.take size)) id) := by
      intro hle
      simp only [if_neg (Nat.not_lt.2 hle)]
      exact ofBits_free h (natLE_take_lt bytes hle) id
    have hfound : p.sizeOf id = .ok size := hsize.2
    rw [sizeOf_eq hid] at hfound
    cases t with
    | vector element lanes =>
      obtain ⟨-, t, ht, hlane⟩ := hsound
      refine (laneSize_free h ht hlane _).known.bind fun laneSize hlaneSize => ?_
      refine .bind (decodeLanes_free (fun bytes => decodeLane_free h ht hlane _ bytes) ?_)
        fun values hvalues => .vector hvalues
      -- the size of the vector is that of its lanes
      have htimes : sizeTimes laneSize lanes = .ok size := by
        have hlaneSize : p.sizeOf element = .ok laneSize := hlaneSize.2
        rw [← laneSize_eq ht hlane] at hlaneSize
        have hfound :
          (p.sizeWithin (p.types.size + 2) element).bind (sizeTimes · lanes) = .ok size :=
          hfound
        rw [hlaneSize] at hfound
        exact hfound
      unfold sizeTimes at htimes
      split at htimes
      · cases htimes
      · cases htimes
        exact Nat.not_lt.1 hlen
    | array element length => exact absurd hid (hplain element length)
    | bool | pointer => exact hscalar (by cases hfound; decide)
    | int w =>
      have hle : w ≤ 64 := hsound.le
      exact hscalar (by cases hfound; omega)
    | float w =>
      have hle : w ≤ 64 := hsound
      exact hscalar (by cases hfound; omega)
    | void | function => cases hfound

theorem laneZero_free (h : p.Sound) (ht : p.types[id]? = some t) (hlane : t.IsLane)
    (fuel : Nat) : TrapFree Value.Sound (p.zeroWithin (fuel + 1) id) := by
  rw [zeroWithin, type_of_some ht]
  cases t with
  | bool => exact .bool false
  | int w => exact Value.ofBits_sound (h.types id _ ht) (by decide)
  | float => exact .float _ _
  | _ => cases hlane

theorem zero_free (h : p.Sound) (id : Id) : TrapFree Value.Sound (p.zero id) := by
  refine (type_free h id).bind fun t ht => ?_
  cases t with
  | vector =>
    obtain ⟨-, lane, helement, hlane⟩ := ht.2
    refine (laneZero_free h helement hlane _).bind fun v hv => .vector fun lane hlane => ?_
    rw [eq_of_mem_replicate hlane]
    exact hv
  | bool => exact .bool false
  | int w => exact Value.ofBits_sound ht.2 (by decide)
  | float => exact .float _ _
  | pointer => exact .pointer (Nat.two_pow_pos 64)
  | _ => exact .error nofun

theorem pointee_free (h : p.Sound) (id : Id) : Untrapped (p.pointee id) := by
  refine (type_free h id).bind fun t _ => ?_
  cases t with
  | pointer _ _ => trivial
  | _ => exact .error nofun

theorem laneType_free (h : p.Sound) (id : Id) : TrapFree (·.Sound p) (p.laneType id) := by
  refine (type_free h id).bind fun t ht => ?_
  cases t with
  | vector element => exact (type_free h element).mono fun _ ht => ht.2
  | _ => exact ht.2

/-- No instruction of a function has an array for its result. -/
def Typed (p : Program) (i : Instruction) : Prop := ∀ type ∈ i.resultType, p.Plain type

end Program

/-! ## Operands -/

theorem idAt_free (i : Instruction) (index : Nat) : Untrapped (idAt i index) := by
  unfold idAt
  split
  · trivial
  · exact .error nofun

theorem literalAt_free (i : Instruction) (index : Nat) : Untrapped (literalAt i index) := by
  unfold literalAt
  split
  · trivial
  · exact .error nofun

theorem resultOf_free (i : Instruction) : Untrapped (resultOf i) := by
  unfold resultOf
  split
  · trivial
  · exact .error nofun

theorem resultTypeOf_free {p : Program} (h : p.Typed i) : TrapFree p.Plain (resultTypeOf i) := by
  unfold resultTypeOf
  split
  · next type ht => exact h type ht
  · exact .error nofun

/-- Values of a call that are sound. -/
def Locals.Sound (locals : Locals) : Prop := ∀ (id : Id) v, locals[id]? = some v → v.Sound

theorem Locals.Sound.insert {locals : Locals} (h : locals.Sound) (hv : v.Sound)
    (id : Id) : Locals.Sound (locals.insert id v) := by
  intro id' v' hid
  rw [Std.TreeMap.getElem?_insert] at hid
  split at hid
  · cases hid
    exact hv
  · exact h id' v' hid

theorem Locals.Sound.insertAll {α : Type} {locals : Locals} (h : locals.Sound) {l : List α}
    (key : α → Id) (value : α → Value) (hl : ∀ e ∈ l, (value e).Sound) :
    Locals.Sound (l.foldl (fun (m : Locals) e => m.insert (key e) (value e)) locals) := by
  induction l generalizing locals with
  | nil => exact h
  | cons e l ih =>
    obtain ⟨he, hl⟩ := forall_mem_cons.1 hl
    exact ih (h.insert he _) hl

def WorkItem.Words (w : WorkItem) : Prop :=
  ∀ b, TrapFree (fun e => ∀ n ∈ e.toList, n < Nat.pow 2 64) (w.builtIn b)

/-! ## Memory -/

theorem readVar_free (bytes : Array UInt8) (offset length : Nat) :
    Untrapped (readVar bytes offset length) := by
  unfold readVar
  split
  · trivial
  · exact .error nofun

theorem writeVar_free (bytes : Array UInt8) (offset : Nat) (data : List UInt8) :
    Untrapped (writeVar bytes offset data) := by
  unfold writeVar
  split
  · trivial
  · exact .error nofun

namespace Store

theorem read_free (s : Store) (q : Pointer) (length : Nat) : Untrapped (s.read q length) := by
  unfold read
  split
  · unfold Heap.read
    split
    · trivial
    · exact .error nofun
  · split
    · exact readVar_free _ _ _
    · exact .error nofun
  · split
    · exact readVar_free _ _ _
    · exact .error nofun
  · exact .error nofun

theorem write_free (s : Store) (q : Pointer) (data : List UInt8) : Untrapped (s.write q data) := by
  have hheap : Untrapped (s.heap.write q.offset data) := by
    unfold Heap.write
    split
    · trivial
    · exact .error nofun
  unfold write
  split
  · exact hheap.bind fun _ _ => trivial
  · split
    · exact (writeVar_free _ _ _).bind fun _ _ => trivial
    · exact .error nofun
  · split
    · exact (writeVar_free _ _ _).bind fun _ _ => trivial
    · exact .error nofun
  · exact .error nofun

end Store

/-! ## Instructions -/

/-- What an instruction hands on is sound. -/
def Flow.Sound : Flow → Prop
  | .next value _ => ∀ v ∈ value, v.Sound
  | .jump _ => True
  | .call _ args => ∀ v ∈ args, v.Sound
  | .ret value => ∀ v ∈ value, v.Sound

theorem Flow.Sound.some (h : v.Sound) (s : Store) : Flow.Sound (.next (some v) s) := by
  intro v' hv'
  cases hv'
  exact h

namespace Env

section Instructions

variable {env : Env} {locals : Locals} (hp : env.program.Sound) (hl : locals.Sound) {type : Id}
include hp hl

theorem value_free (id : Id) : TrapFree Value.Sound (env.value locals id) := by
  have hglobal : ∀ g, TrapFree Value.Sound (globalPointer id g) := by
    intro g
    have hstart : ∀ space, (Value.pointer ⟨space, 0, g.pointee⟩).Sound :=
      fun _ => .pointer (Nat.two_pow_pos 64)
    unfold globalPointer
    split
    · split
      · exact hstart _
      · split
        · exact hstart _
        · exact .error nofun
    · split
      · exact hstart _
      · exact .error nofun
  unfold value
  split
  · next v hv => exact hl id v hv
  · split
    · next v hv => exact hp.constants id v hv
    · split
      · exact hglobal _
      · exact .error nofun

theorem arg_free (i : Instruction) (index : Nat) : TrapFree Value.Sound (env.arg locals i index) :=
  (idAt_free i index).bind fun id _ => value_free hp hl id

theorem argsFrom_free (i : Instruction) (start : Nat) :
    TrapFree (fun vs => ∀ v ∈ vs, v.Sound) (env.argsFrom locals i start) :=
  .mapM fun index _ => arg_free hp hl i index

open Program (decode_free pointee_free sizeOf_free type_free)

theorem walk_free (i : Instruction) (indices : List Nat) (offset : Int) (current : Id) :
    Untrapped (env.walk locals i indices offset current) := by
  induction indices generalizing offset current with
  | nil => trivial
  | cons index rest ih =>
    refine (arg_free hp hl i index).bind fun v hv => (Value.asSigned_free hv).bind fun n _ => ?_
    refine (type_free hp current).bind fun t _ => ?_
    have hstep : ∀ element, Untrapped (do
        let size ← env.program.sizeOf element
        env.walk locals i rest (offset + n * size) element) :=
      fun element => (sizeOf_free hp element).bind fun _ _ => ih _ _
    cases t with
    | array element | vector element => exact hstep element
    | _ => exact .error nofun

theorem accessChain_free (hi : env.program.Typed i) (fromElement : Bool) :
    TrapFree Value.Sound (env.accessChain locals i fromElement) := by
  refine (arg_free hp hl i 0).bind fun v hv => (Value.asPointer_free hv).bind fun q _ => ?_
  have hend : ∀ offset : Int, TrapFree Value.Sound (do
      return .pointer ⟨q.space, word64 offset, ← env.program.pointee (← resultTypeOf i)⟩) :=
    fun offset => (resultTypeOf_free hi).bind fun type _ =>
      (pointee_free hp type).bind fun _ _ => .pointer (word64_lt offset)
  split
  · refine (arg_free hp hl i 1).bind fun n hn => (Value.asSigned_free hn).bind fun _ _ => ?_
    refine (sizeOf_free hp _).bind fun _ _ => ?_
    exact (walk_free hp hl i _ _ _).bind fun offset _ => hend offset
  · exact (walk_free hp hl i _ _ _).bind fun offset _ => hend offset

theorem switchTarget_free (i : Instruction) : Untrapped (env.switchTarget locals i) := by
  refine (arg_free hp hl i 0).bind fun v _ => ?_
  cases v with
  | int bits width => exact (idAt_free i 1).bind fun _ _ => trivial
  | _ => exact .error nofun

theorem operator_free (hi : env.program.Typed i) :
    TrapFree Value.Sound (env.operator locals i) := by
  refine (argsFrom_free hp hl i 0).bind fun args hargs => ?_
  split
  · refine (resultTypeOf_free hi).bind fun type _ => ?_
    refine (Program.laneType_free hp type).bind fun target ht =>
      mapLanes_free (fun vs hvs => ?_) hargs
    cases vs with
    | nil => exact .error nofun
    | cons v =>
      refine convert_free i.opcode (hvs v mem_cons_self) fun w hw => ?_
      subst hw
      exact ht
  · exact mapLanes_free (fun vs hvs => applyOperator_free i.opcode hvs) hargs

theorem extended_free (hi : env.program.Typed i) (s : Store) :
    TrapFree Flow.Sound (env.extended locals s i) := by
  refine (idAt_free i 0).bind fun set _ => ?_
  dsimp only
  split
  · exact .error nofun
  · split
    · exact .error nofun
    · refine (resultTypeOf_free hi).bind fun type ht => ?_
      refine (arg_free hp hl i 2).bind fun n hn => (Value.asWord_free hn).bind fun index _ => ?_
      refine (arg_free hp hl i 3).bind fun v hv => (Value.asPointer_free hv).bind fun q _ => ?_
      refine (sizeOf_free hp type).bind fun size _ => ?_
      refine (Store.read_free s _ size).bind fun bytes _ => ?_
      exact (decode_free hp ht bytes).bind fun v hv => .some hv s
    · refine (arg_free hp hl i 2).bind fun data hdata => ?_
      refine (arg_free hp hl i 3).bind fun n hn => (Value.asWord_free hn).bind fun index _ => ?_
      refine (arg_free hp hl i 4).bind fun v hv => (Value.asPointer_free hv).bind fun q _ => ?_
      refine (encode_free hdata).bind fun bytes _ => ?_
      exact (Store.write_free s _ bytes).bind fun _ _ => nofun
    · refine (argsFrom_free hp hl i 2).bind fun args hargs => ?_
      exact (mapLanes_free (fun vs hvs => math_free _ hvs) hargs).bind fun v hv => .some hv s

omit hl in
theorem load_free (hw : env.item.Words) (s : Store) (q : Pointer)
    (ht : env.program.Plain type) : TrapFree Value.Sound (env.load s q type) := by
  unfold load
  split
  · refine (hw _).bind fun e he => .vector fun v hv => ?_
    obtain ⟨n, hn, rfl⟩ := mem_map.1 hv
    exact Value.ofBits_sound (.inr (.inr (.inr rfl))) (he n hn)
  · refine (sizeOf_free hp type).bind fun size _ => ?_
    exact (Store.read_free s q size).bind fun bytes _ => decode_free hp ht bytes

omit hl in
theorem bitcast_free (hv : v.Sound) (ht : env.program.Plain type) :
    TrapFree Value.Sound (env.bitcast v type) := by
  refine (type_free hp type).bind fun t _ => ?_
  split
  · cases hv with
    | pointer h => exact .pointer h
  · refine (encode_free hv).bind fun bytes _ => (sizeOf_free hp type).bind fun size _ => ?_
    split
    · exact .error nofun
    · exact decode_free hp ht bytes

omit hp hl in
theorem extract_free (i : Instruction) (indices : List Nat) (hv : v.Sound) :
    TrapFree Value.Sound (extract i indices v) := by
  induction indices generalizing v with
  | nil => exact hv
  | cons index rest ih =>
    refine (literalAt_free i index).bind fun lane _ => ?_
    cases hv with
    | vector h =>
      dsimp only
      split
      · next hlane => exact ih (h _ (mem_of_getElem? hlane))
      · exact .error nofun
    | _ => exact .error nofun

/-- No instruction traps on sound values, and what it hands on is sound. -/
theorem execute_free (hw : env.item.Words) (hi : env.program.Typed i)
    (s : Store) : TrapFree Flow.Sound (env.execute locals s i) := by
  have hnone : Flow.Sound (.next none s) := nofun
  have harg := arg_free hp hl i
  have htype := resultTypeOf_free hi
  unfold execute
  split
  case h_1 | h_2 | h_3 | h_4 | h_5 => exact hnone
  case h_6 => exact (idAt_free i 0).bind fun _ _ => trivial
  case h_7 =>
    refine (harg 0).bind fun v _ => (Value.asBool_free v).bind fun _ _ => ?_
    exact (idAt_free i _).bind fun _ _ => trivial
  case h_8 => exact (switchTarget_free hp hl i).bind fun _ _ => trivial
  case h_9 => exact fun v hv => nomatch hv
  case h_10 =>
    refine (harg 0).bind fun v hv v' hv' => ?_
    cases hv'
    exact hv
  case h_11 | h_12 => exact .error nofun
  case h_13 =>
    refine (harg 0).bind fun v hv => (Value.asPointer_free hv).bind fun q _ => ?_
    refine (harg 1).bind fun data hdata => (encode_free hdata).bind fun bytes _ => ?_
    exact (Store.write_free s q bytes).bind fun _ _ => nofun
  case h_14 =>
    refine htype.bind fun type _ => (pointee_free hp type).bind fun pointee _ => ?_
    refine (sizeOf_free hp pointee).bind fun size _ v hv => ?_
    cases hv
    exact .pointer (Nat.two_pow_pos 64)
  case h_15 =>
    refine (harg 0).bind fun v hv => (Value.asPointer_free hv).bind fun q _ => ?_
    exact htype.bind fun type ht => (load_free hp hw s q ht).bind fun v hv => .some hv s
  case h_16 | h_17 => exact (accessChain_free hp hl hi false).bind fun v hv => .some hv s
  case h_18 | h_19 => exact (accessChain_free hp hl hi true).bind fun v hv => .some hv s
  case h_20 =>
    refine (harg 0).bind fun v hv => (Value.asWord_free hv).bind fun offset hoffset => ?_
    refine htype.bind fun type _ => (pointee_free hp type).bind fun pointee _ => ?_
    exact .some (.pointer hoffset) s
  case h_21 =>
    refine (harg 0).bind fun v hv => htype.bind fun type ht => ?_
    exact (bitcast_free hp hv ht).bind fun v hv => .some hv s
  case h_22 => exact (harg 0).bind fun v hv => .some hv s
  case h_23 =>
    exact htype.bind fun type _ => (Program.zero_free hp type).bind fun v hv => .some hv s
  case h_24 =>
    refine (harg 0).bind fun v _ => (Value.asBool_free v).bind fun _ _ => ?_
    exact (harg _).bind fun v hv => .some hv s
  case h_25 =>
    exact (harg 0).bind fun v hv => (extract_free i _ hv).bind fun v hv => .some hv s
  case h_26 =>
    refine (harg 0).bind fun object hobject => (harg 1).bind fun composite hcomposite => ?_
    refine (literalAt_free i 2).bind fun lane _ => ?_
    cases hcomposite with
    | vector h =>
      dsimp only
      split
      · refine .some (.vector fun v hv => ?_) s
        rcases mem_or_eq_of_mem_set hv with hv | rfl
        · exact h v hv
        · exact hobject
      · exact .error nofun
    | _ => exact .error nofun
  case h_27 =>
    exact (argsFrom_free hp hl i 1).bind fun args hargs => (idAt_free i 0).bind fun _ _ => hargs
  case h_28 => exact extended_free hp hl hi s
  case h_29 => exact (operator_free hp hl hi).bind fun v hv => .some hv s

end Instructions

end Env

/-! ## Runs -/

/-- A sound program in which no instruction has an array for its result. -/
structure Program.Safe (p : Program) : Prop extends p.Sound where
  typed : ∀ (id : Id) f, p.functions[id]? = some f → ∀ b ∈ f.blocks, ∀ i ∈ b.body, p.Typed i

/-- The values of a call are sound, and its instructions those of a safe program. -/
structure Frame.Sound (p : Program) (f : Frame) : Prop where
  locals : f.locals.Sound
  code : ∀ b ∈ f.code.blocks, ∀ i ∈ b.body, p.Typed i
  rest : ∀ i ∈ f.rest, p.Typed i

/-- All calls of a work-item are sound. -/
def State.Sound (p : Program) (s : State) : Prop := ∀ f ∈ s.frame :: s.callers, f.Sound p

namespace Env

/-- The states a work-item passes through from one on. -/
inductive Passes (env : Env) (start : State) : State → Prop
  | here : Passes env start start
  | step {s s' : State} {i : Instruction} {rest : List Instruction} (h : Passes env start s)
      (hi : s.frame.rest = i :: rest) (hs : env.step s i rest = .ok (.inl s')) :
      Passes env start s'

variable {env : Env}

theorem setResult_sound {p : Program} {f : Frame} (hf : f.Sound p) (result : Option Id)
    {value : Option Value} (hv : ∀ v ∈ value, v.Sound) : (setResult f result value).Sound p := by
  refine ⟨?_, ?_, ?_⟩
  · cases value with
    | none => exact hf.locals
    | some v =>
      cases result with
      | none => exact hf.locals
      | some id => exact hf.locals.insert (hv v rfl) id
  · rw [setResult_code]
    exact hf.code
  · rw [setResult_rest]
    exact hf.rest

section Runs

variable (hp : env.program.Safe) (hw : env.item.Words)
include hp

theorem merge_free {locals : Locals} (hl : locals.Sound) (previous : Option Id) (i : Instruction) :
    TrapFree (fun e => e.2.Sound) (env.merge locals previous i) := by
  unfold merge
  split
  · exact .error nofun
  · split
    · exact .error nofun
    · refine (resultOf_free i).bind fun r _ => ?_
      exact (value_free hp.toSound hl _).bind fun v hv => hv

theorem enter_free {f : Frame} {b : Block} (hf : f.Sound env.program) (hb : b ∈ f.code.blocks)
    (previous : Option Id) : TrapFree (Frame.Sound env.program) (env.enter f previous b) := by
  refine TrapFree.bind (TrapFree.mapM fun i _ => merge_free hp hf.locals previous i)
    fun merged hmerged => ?_
  refine ⟨hf.locals.insertAll Prod.fst Prod.snd hmerged, hf.code, fun i hi => ?_⟩
  exact hf.code b hb i (dropWhile_sublist _ |>.subset hi)

theorem begin_free {args : List Value} (hargs : ∀ v ∈ args, v.Sound) (callee : Id) (depth : Nat)
    (result : Option Id) :
    TrapFree (Frame.Sound env.program) (env.begin callee args depth result) := by
  have hcode : TrapFree (fun f => ∀ b ∈ f.blocks, ∀ i ∈ b.body, env.program.Typed i)
      (env.program.function callee) := by
    unfold Program.function
    split
    · next f hf => exact hp.typed callee f hf
    · exact .error nofun
  unfold begin
  dsimp only
  split
  · exact .error nofun
  · refine hcode.bind fun code hcode => ?_
    split
    · exact .error nofun
    · split
      · exact .error nofun
      · next b blocks hblocks =>
        have hlocals : Locals.Sound
            ((code.params.zip args).foldl (fun (l : Locals) e => l.insert e.1.1 e.2) ∅) := by
          refine Locals.Sound.insertAll ?_ (fun e : (Id × Id) × Value => e.1.1) Prod.snd ?_
          · intro id v hv
            simp at hv
          · exact fun e he => hargs e.2 (of_mem_zip he).2
        refine enter_free hp ⟨hlocals, hcode, forall_mem_nil _⟩ ?_ none
        rw [hblocks]
        exact mem_cons_self

include hw

/-- A step from a sound state meets no trap and leads to a sound state. -/
theorem step_free {s : State} {rest : List Instruction}
    (hs : s.Sound env.program) (hi : s.frame.rest = i :: rest) :
    TrapFree (fun r => ∀ s', r = .inl s' → s'.Sound env.program) (env.step s i rest) := by
  obtain ⟨hframe, hcallers⟩ := forall_mem_cons.1 hs
  have hrest := hframe.rest
  rw [hi] at hrest
  obtain ⟨htyped, hrest⟩ := forall_mem_cons.1 hrest
  have hmoved : Frame.Sound env.program { s.frame with rest } := ⟨hframe.locals, hframe.code, hrest⟩
  refine (execute_free hp.toSound hframe.locals hw htyped s.store).bind fun flow hflow => ?_
  cases flow with
  | next =>
    intro s' hs'
    cases hs'
    exact forall_mem_cons.2 ⟨setResult_sound hmoved _ hflow, hcallers⟩
  | jump =>
    dsimp only
    split
    · exact .error nofun
    · next b hb =>
      refine (enter_free hp hframe (findBlock_ok hb).1 _).bind fun frame hf s' hs' => ?_
      cases hs'
      exact forall_mem_cons.2 ⟨hf, hcallers⟩
  | call callee =>
    refine (begin_free hp hflow callee _ _).bind fun frame hf s' hs' => ?_
    cases hs'
    exact forall_mem_cons.2 ⟨hf, forall_mem_cons.2 ⟨hmoved, hcallers⟩⟩
  | ret =>
    dsimp only
    split
    · exact nofun
    · next caller callers hc =>
      intro s' hs'
      cases hs'
      rw [hc] at hcallers
      obtain ⟨hcaller, hcallers⟩ := forall_mem_cons.1 hcallers
      exact forall_mem_cons.2 ⟨setResult_sound hcaller _ hflow, hcallers⟩

/-- A work-item that starts in a sound state passes only through sound states. -/
theorem passes_sound {start s : State} (hstart : start.Sound env.program)
    (h : env.Passes start s) : s.Sound env.program := by
  induction h with
  | here => exact hstart
  | step _ hi hs ih => exact (step_free hp hw ih hi).of_ok hs _ rfl

/-- A work-item that starts in a sound state meets no trap. -/
theorem run_free (steps : Nat) {s : State} (hs : s.Sound env.program) (trap : Trap) :
    (env.run steps s).2 ≠ some (.trapped trap) := by
  induction steps generalizing s with
  | zero =>
    unfold run
    split <;> simp
  | succ steps ih =>
    unfold run
    split
    · simp
    · next i rest hi =>
      have hfree := step_free hp hw hs hi
      split
      · next fault hfault => exact fun heq => hfree.not_trapped hfault trap (Option.some.inj heq)
      · simp
      · next s' hs' => exact ih (hfree.of_ok hs' s' rfl)

end Runs

end Env

/-! ## Launches -/

structure Range.Words (r : Range) : Prop where
  global : ∀ n ∈ r.global.toList, n < Nat.pow 2 64
  perGroup : ∀ n ∈ r.perGroup.toList, n < Nat.pow 2 64

/-- A work-item lies inside its range, in each dimension. -/
theorem coordinate_lt {group global perGroup : Nat} (hg : group < global / max perGroup 1)
    (hp : position < perGroup) : group * perGroup + position < global := by
  have hmax : max perGroup 1 = perGroup := by omega
  rw [hmax] at hg
  have hle : (group + 1) * perGroup ≤ global := (Nat.le_div_iff_mul_le (by omega)).1 hg
  rw [Nat.succ_mul] at hle
  omega

theorem Range.Words.items {r : Range} (h : r.Words) (hi : item ∈ r.items) : item.Words := by
  obtain ⟨group, position, ⟨hgx, hgy, hgz⟩, ⟨hpx, hpy, hpz⟩, rfl⟩ := mem_items.1 hi
  have hglobal := h.global
  have hperGroup := h.perGroup
  simp only [Extent.toList, forall_mem_cons] at hglobal hperGroup
  obtain ⟨hx, hy, hz, -⟩ := hglobal
  obtain ⟨hx', hy', hz', -⟩ := hperGroup
  have hix := coordinate_lt hgx hpx
  have hiy := coordinate_lt hgy hpy
  have hiz := coordinate_lt hgz hpz
  have hle : ∀ {a b : Nat}, a / b ≤ a := Nat.div_le_self _ _
  have hgroups : ∀ {g a b : Nat}, g < a / b → a < Nat.pow 2 64 → g < Nat.pow 2 64 :=
    fun hg ha => Nat.lt_trans (Nat.lt_of_lt_of_le hg hle) ha
  have htriple : ∀ {e : Extent}, e.x < Nat.pow 2 64 → e.y < Nat.pow 2 64 → e.z < Nat.pow 2 64 →
      ∀ n ∈ e.toList, n < Nat.pow 2 64 := by
    intro e h₁ h₂ h₃
    simpa [Extent.toList] using ⟨h₁, h₂, h₃⟩
  intro b
  unfold WorkItem.builtIn
  split
  · exact htriple (Nat.lt_trans hix hx) (Nat.lt_trans hiy hy) (Nat.lt_trans hiz hz)
  · split
    · exact h.global
    · split
      · exact htriple (Nat.lt_trans hpx hx') (Nat.lt_trans hpy hy') (Nat.lt_trans hpz hz')
      · split
        · exact htriple (hgroups hgx hx) (hgroups hgy hy) (hgroups hgz hz)
        · split
          · exact h.perGroup
          · exact .error nofun

namespace Program

variable {p : Program} {entry : Id} {args : List Value} {range : Range}

theorem start_sound {frame : Frame} (hp : p.Safe) (hargs : ∀ v ∈ args, v.Sound)
    (h : Env.begin ⟨p, item⟩ entry args 0 none = .ok frame) (store : Store) :
    State.Sound p ⟨frame, [], store⟩ := by
  have hf := (@Env.begin_free ⟨p, item⟩ hp args hargs entry 0 none).of_ok h
  exact forall_mem_cons.2 ⟨hf, forall_mem_nil _⟩

theorem entryArgs_free (hp : p.Safe) (entry : Id) {base frame : Nat} (hbase : base < Nat.pow 2 64)
    (hframe : frame < Nat.pow 2 64) :
    TrapFree (fun args => ∀ v ∈ args, v.Sound) (p.entryArgs entry base frame) := by
  have hfunction : Untrapped (p.function entry) := by
    unfold function
    split
    · trivial
    · exact .error nofun
  refine hfunction.bind fun f _ => ?_
  split
  · next heapType _ frameType _ =>
    refine (pointee_free hp.toSound heapType).bind fun pointee _ => ?_
    refine (ofBits_free hp.toSound hframe frameType).bind fun v hv => ?_
    exact forall_mem_cons.2 ⟨.pointer hbase, forall_mem_singleton.2 hv⟩
  · exact .error nofun

section Launches

variable (hp : p.Safe) (hr : range.Words)
include hp

theorem groupStorage_free : Untrapped p.groupStorage := by
  refine .foldlM (R := fun _ => True) trivial fun vars _ e _ => ?_
  dsimp only
  split
  · exact (sizeOf_free hp.toSound _).bind fun _ _ => trivial
  · trivial

theorem runItem_free (hargs : ∀ v ∈ args, v.Sound) (hw : item.Words)
    (entry : Id) (store : Store) (trap : Trap) :
    (p.runItem entry args item store).2 ≠ some (.trapped trap) := by
  unfold runItem
  dsimp only
  split
  · next fault hfault =>
    have hfree := @Env.begin_free ⟨p, item⟩ hp args hargs entry 0 none
    exact fun heq => hfree.not_trapped hfault trap (Option.some.inj heq)
  · next frame hframe =>
    exact @Env.run_free ⟨p, item⟩ hp hw stepLimit _ (start_sound hp hargs hframe _) trap

include hr

theorem runGroup_free (hargs : ∀ v ∈ args, v.Sound) {group : Extent}
    (hgroup : group ∈ range.groups.points) (heap : Heap) (trap : Trap) :
    (p.runGroup entry args range group heap).2 ≠ some (.trapped trap) := by
  rw [runGroup_eq]
  split
  · next fault hfault =>
    exact fun heq => (groupStorage_free hp).not_trapped hfault trap (Option.some.inj heq)
  · refine inTurn_free (fun item hitem store => ?_) _
    exact runItem_free hp hargs (hr.items (mem_flatMap.2 ⟨group, hgroup, hitem⟩)) entry store trap

/-- A launch of a safe program meets no trap. -/
theorem launch_free {base frame : Nat} (hbase : base < Nat.pow 2 64)
    (hframe : frame < Nat.pow 2 64) (entry : Id) (heap : Heap) (trap : Trap) :
    (p.launch entry range base frame heap).2 ≠ some (.trapped trap) := by
  have hargs := entryArgs_free hp entry hbase hframe
  rw [launch_eq]
  split
  · next fault hfault => exact fun heq => hargs.not_trapped hfault trap (Option.some.inj heq)
  · next args hok =>
    exact inTurn_free
      (fun group hgroup heap => runGroup_free hp hr (hargs.of_ok hok) hgroup heap trap) heap

end Launches

end Program

end KernelForge.Device
