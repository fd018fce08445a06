import KernelForge.Device.Machine

/-!
# Sound values and computations without traps

A value is sound when each of its integers has a width of 8, 16, 32 or 64 bits and fits in it, and
each pointer is a 64-bit word. On sound values no operator of the device traps, and its result is
sound again (`applyOperator_free`, `convert_free` and `math_free`, lane by lane by `mapLanes_free`).
A program is sound when its types and constants are (`Program.Sound`).
-/

namespace KernelForge.Device

open List
open Binary (signExtend word64)
open Spirv (Id Opcode MathOp)

/-! ## Computations -/

/-- A computation that ends in no trap; its result, if it has one, has a property. -/
def TrapFree {α : Type} (P : α → Prop) : Except Fault α → Prop
  | .ok a => P a
  | .error fault => ∀ trap, fault ≠ .trapped trap

/-- A computation that ends in no trap. -/
abbrev Untrapped {α : Type} (x : Except Fault α) : Prop := TrapFree (fun _ => True) x

namespace TrapFree

variable {α β : Type} {P Q : α → Prop} {R : β → Prop} {x : Except Fault α}
  {f : α → Except Fault β}

variable {fault : Fault}

theorem error (h : ∀ trap, fault ≠ .trapped trap) : TrapFree P (.error fault) := h

theorem bind (hx : TrapFree P x) (hf : ∀ a, P a → TrapFree R (f a)) : TrapFree R (x >>= f) := by
  cases x with
  | ok a => exact hf a hx
  | error => exact hx

theorem mono (hx : TrapFree P x) (h : ∀ a, P a → Q a) : TrapFree Q x := by
  cases x with
  | ok a => exact h a hx
  | error => exact hx

theorem untrapped (hx : TrapFree P x) : Untrapped x := hx.mono fun _ _ => trivial

theorem of_ok (hx : TrapFree P x) {a : α} (h : x = .ok a) : P a := by
  rw [h] at hx
  exact hx

theorem not_trapped (hx : TrapFree P x) (h : x = .error fault) (trap : Trap) :
    fault ≠ .trapped trap := by
  rw [h] at hx
  exact hx trap

/-- What a computation was is known after it. -/
theorem known (hx : TrapFree P x) : TrapFree (fun a => P a ∧ x = .ok a) x := by
  cases x with
  | ok => exact ⟨hx, rfl⟩
  | error => exact hx

variable {l : List α}

theorem mapM (h : ∀ a ∈ l, TrapFree R (f a)) : TrapFree (fun bs => ∀ b ∈ bs, R b) (l.mapM f) := by
  induction l with
  | nil => exact fun _ hb => nomatch hb
  | cons a l ih =>
    obtain ⟨ha, hl⟩ := forall_mem_cons.1 h
    rw [mapM_cons]
    exact ha.bind fun b hb => (ih hl).bind fun bs hbs => forall_mem_cons.2 ⟨hb, hbs⟩

theorem foldlM {g : β → α → Except Fault β} {b : β} (hb : R b)
    (h : ∀ b, R b → ∀ a ∈ l, TrapFree R (g b a)) : TrapFree R (l.foldlM g b) := by
  induction l generalizing b with
  | nil => exact hb
  | cons a l ih =>
    refine (h b hb a mem_cons_self).bind fun c hc => ih hc fun d hd a' ha' => ?_
    exact h d hd a' (mem_cons_of_mem _ ha')

end TrapFree

/-! ## Values -/

def IsWidth (w : Nat) : Prop := w = 8 ∨ w = 16 ∨ w = 32 ∨ w = 64

/-- Integers have a width and fit in it, and pointers are words. -/
inductive Value.Sound : Value → Prop
  | bool (b : Bool) : Sound (.bool b)
  | int {bits w : Nat} (hw : IsWidth w) (hb : bits < Nat.pow 2 w) : Sound (.int bits w)
  | float (bits w : Nat) : Sound (.float bits w)
  | vector {lanes : List Value} (h : ∀ v ∈ lanes, v.Sound) : Sound (.vector lanes)
  | pointer {q : Pointer} (h : q.offset < Nat.pow 2 64) : Sound (.pointer q)

variable {w : Nat}

theorem IsWidth.ne_zero (h : IsWidth w) : w ≠ 0 := by
  unfold IsWidth at h
  omega

theorem IsWidth.le (h : IsWidth w) : w ≤ 64 := by
  unfold IsWidth at h
  omega

theorem IsWidth.pow_le (h : IsWidth w) : Nat.pow 2 w ≤ Nat.pow 2 64 :=
  Nat.pow_le_pow_right (by decide) h.le

theorem word64_lt (n : Int) : word64 n < Nat.pow 2 64 := by
  have hpos : (0 : Int) < (Nat.pow 2 64 : Nat) := by decide
  have hlt := Int.emod_lt_of_pos n hpos
  unfold word64
  omega

/-- The magnitude of a signed number of a width is a word. -/
theorem signExtend_natAbs_lt (bits : Nat) (h : w ≤ 64) :
    (signExtend bits w).natAbs < Nat.pow 2 64 := by
  have hle : Nat.pow 2 w ≤ Nat.pow 2 64 := Nat.pow_le_pow_right (by decide) h
  have hlt : bits % Nat.pow 2 w < Nat.pow 2 w := Nat.mod_lt _ (Nat.two_pow_pos w)
  unfold signExtend
  rw [Nat.min_eq_left h]
  dsimp only
  split <;> omega

namespace Value

variable {v : Value} {bits w : Nat}

/-- A word cut to a width. -/
theorem ofBits_sound (hw : IsWidth w) (hb : bits < Nat.pow 2 64) : (ofBits bits w).Sound := by
  refine .int hw ?_
  by_cases hfull : w = 64
  · subst hfull
    exact hb
  · exact Binary.mask_lt (Nat.lt_of_le_of_ne hw.le hfull)

theorem asBool_free (v : Value) : Untrapped v.asBool := by
  unfold asBool
  split
  · trivial
  · exact .error nofun

theorem asDouble_free (v : Value) : Untrapped v.asDouble := by
  unfold asDouble
  split
  · trivial
  · exact .error nofun

theorem asWord_free (h : v.Sound) : TrapFree (· < Nat.pow 2 64) v.asWord := by
  cases h with
  | int hw hb => exact Nat.lt_of_lt_of_le hb hw.pow_le
  | @pointer q h =>
    obtain ⟨space, offset, pointee⟩ := q
    cases space with
    | heap => exact h
    | _ => exact .error nofun
  | _ => exact .error nofun

/-- The signed number of a sound integer takes no shift by a whole word. -/
theorem asSigned_free (h : v.Sound) : TrapFree (fun n => n.natAbs < Nat.pow 2 64) v.asSigned := by
  cases h with
  | @int bits w hw =>
    rw [asSigned, if_neg hw.ne_zero]
    exact signExtend_natAbs_lt bits hw.le
  | _ => exact .error nofun

theorem asPointer_free (h : v.Sound) : TrapFree (fun q => q.offset < Nat.pow 2 64) v.asPointer := by
  cases h with
  | pointer h => exact h
  | _ => exact .error nofun

end Value

/-! ## Operators -/

section Operators

open Value (Sound asDouble_free asSigned_free ofBits_sound)

variable {v x y : Value} {a b w : Nat}

/-- Conversions to a type whose integers have a width. -/
theorem convert_free (op : Opcode) (hv : v.Sound) {target : Ty}
    (ht : ∀ w, target = .int w → IsWidth w) : TrapFree Sound (convert op v target) := by
  unfold convert
  split
  · exact (asSigned_free hv).bind fun n _ => ofBits_sound (ht _ rfl) (word64_lt n)
  · exact (Value.asWord_free hv).bind fun n hn => ofBits_sound (ht _ rfl) hn
  · exact (asSigned_free hv).bind fun _ _ => .float _ _
  · exact (Value.asWord_free hv).bind fun _ _ => .float _ _
  · exact (asDouble_free v).bind fun _ _ => ofBits_sound (ht _ rfl) (word64_lt _)
  · exact (asDouble_free v).bind fun _ _ => ofBits_sound (ht _ rfl) (word64_lt _)
  · exact (asDouble_free v).bind fun _ _ => .float _ _
  · exact .error nofun

theorem unary_free (op : Opcode) (hv : v.Sound) : TrapFree Sound (unary op v) := by
  unfold unary
  split
  · cases hv with
    | int hw hb => exact ofBits_sound hw (Nat.lt_of_le_of_lt (Nat.sub_le _ _) (by decide))
  · cases hv with
    | int hw => exact ofBits_sound hw (word64_lt _)
  · exact .float _ _
  · exact .bool _
  · exact .error nofun

theorem signedDivision_free (op : Opcode) (m n : Int) (w : Nat) :
    Untrapped (signedDivision op m n w) := by
  unfold signedDivision
  split
  · exact .error nofun
  · split
    · exact .error nofun
    · trivial

/-- A width takes remainders, and the amount of a shift is less than it. -/
theorem intBinary_free (op : Opcode) (a b : Nat) (hw : IsWidth w) :
    TrapFree Sound (intBinary op a b w) := by
  have hword : ∀ n : Int, TrapFree Sound (.ok (.ofBits (word64 n) w)) :=
    fun n => ofBits_sound hw (word64_lt n)
  have hshift : b % w < 64 :=
    Nat.lt_of_lt_of_le (Nat.mod_lt _ (Nat.pos_of_ne_zero hw.ne_zero)) hw.le
  rw [intBinary, if_neg hw.ne_zero]
  unfold wordBinary
  simp only [if_pos hshift]
  split
  case h_4 | h_5 | h_6 => exact (signedDivision_free _ _ _ _).bind fun _ _ => hword _
  case h_7 | h_8 =>
    split
    · exact .error nofun
    · exact hword _
  all_goals first | exact hword _ | exact .bool _ | exact .error nofun

theorem floatBinary_free (op : Opcode) (a b w : Nat) :
    TrapFree Sound (floatBinary op a b w) := by
  unfold floatBinary
  split
  all_goals first | exact .float _ _ | exact .bool _ | exact .error nofun

theorem boolBinary_free (op : Opcode) (a b : Bool) : TrapFree Sound (boolBinary op a b) := by
  unfold boolBinary
  split
  all_goals first | exact .bool _ | exact .error nofun

theorem binary_free (op : Opcode) (hx : x.Sound) : TrapFree Sound (binary op x y) := by
  unfold binary
  split
  · cases hx with
    | int hw => exact intBinary_free op _ _ hw
  · exact floatBinary_free op _ _ _
  · exact boolBinary_free op _ _
  · exact .error nofun

variable {args : List Value}

theorem applyOperator_free (op : Opcode) (h : ∀ v ∈ args, v.Sound) :
    TrapFree Sound (applyOperator op args) := by
  unfold applyOperator
  split
  · exact unary_free op (h _ mem_cons_self)
  · exact binary_free op (h _ mem_cons_self)
  · exact .error nofun

/-! ### Extended functions -/

theorem mathFloat_free (op : MathOp) (x : Float) : Untrapped (mathFloat op x) := by
  unfold mathFloat
  split
  all_goals first | trivial | exact .error nofun

theorem mathFloats_free (op : MathOp) (x y : Float) : Untrapped (mathFloats op x y) := by
  unfold mathFloats
  split
  all_goals first | trivial | exact .error nofun

/-- An integer that fits in its width has no more zero bits than the width. -/
theorem leadingZeros_free (hw : IsWidth w) (ha : a < Nat.pow 2 w) :
    TrapFree (· ≤ 64) (leadingZeros a w) := by
  have hle := hw.le
  rw [leadingZeros, if_neg (by omega)]
  show (if a = 0 then w else w - (a.log2 + 1)) ≤ 64
  split <;> omega

theorem mathInt_free (op : MathOp) (hw : IsWidth w) (ha : a < Nat.pow 2 w) :
    TrapFree (· < Nat.pow 2 64) (mathInt op a w) := by
  have hsmall : ∀ {n : Nat}, n ≤ 64 → n < Nat.pow 2 64 := fun h => Nat.lt_of_le_of_lt h (by decide)
  unfold mathInt
  split
  · exact (asSigned_free (.int hw ha)).bind fun n hn => hn
  · exact (leadingZeros_free hw ha).mono fun n hn => hsmall hn
  · have hcount := countP_le_length (p := (a.testBit ·)) (l := List.range w)
    rw [length_range] at hcount
    exact hsmall (Nat.le_trans hcount hw.le)
  · exact .error nofun

theorem mathInts_free (op : MathOp) (hw : IsWidth w) (ha : a < Nat.pow 2 w)
    (hb : b < Nat.pow 2 64) : TrapFree (· < Nat.pow 2 64) (mathInts op a b w) := by
  have hnum : ∀ n : Nat, TrapFree (fun _ : Int => True) (Value.int n w).asSigned := by
    intro n
    rw [Value.asSigned, if_neg hw.ne_zero]
    trivial
  have ha := Nat.lt_of_lt_of_le ha hw.pow_le
  refine (hnum a).bind fun sa _ => (hnum b).bind fun sb _ => ?_
  split
  · exact word64_lt _
  · exact word64_lt _
  · show min a b < Nat.pow 2 64
    omega
  · show max a b < Nat.pow 2 64
    omega
  · exact .error nofun

theorem math_free (op : MathOp) (h : ∀ v ∈ args, v.Sound) :
    TrapFree Sound (math op args) := by
  unfold math
  split
  · exact (mathFloat_free op _).bind fun _ _ => .float _ _
  · exact (mathFloats_free op _ _).bind fun _ _ => .float _ _
  · split
    · exact .float _ _
    · exact .error nofun
  · cases h _ mem_cons_self with
    | int hw hb => exact (mathInt_free op hw hb).bind fun n hn => ofBits_sound hw hn
  · obtain ⟨hx, hy⟩ := forall_mem_cons.1 h
    cases hx with
    | int hw hb =>
      cases hy _ mem_cons_self with
      | int hw' hb' =>
        have hword := Nat.lt_of_lt_of_le hb' hw'.pow_le
        exact (mathInts_free op hw hb hword).bind fun n hn => ofBits_sound hw hn
  · exact .error nofun

/-! ### Lanes -/

theorem laneArg_free (lane : Nat) (h : v.Sound) : TrapFree Sound (laneArg lane v) := by
  unfold laneArg
  split
  · cases h with
    | vector h =>
      split
      · next hlane => exact h _ (mem_of_getElem? hlane)
      · exact .error nofun
  · exact h

/-- What holds of a function of sound values holds of it lane by lane. -/
theorem mapLanes_free {f : List Value → Except Fault Value}
    (hf : ∀ args, (∀ v ∈ args, v.Sound) → TrapFree Sound (f args))
    (h : ∀ v ∈ args, v.Sound) : TrapFree Sound (mapLanes f args) := by
  unfold mapLanes
  split
  · exact hf args h
  · refine .bind (.mapM fun lane _ => ?_) fun lanes hlanes => .vector hlanes
    exact (TrapFree.mapM fun v hv => laneArg_free lane (h v hv)).bind fun vs hvs => hf vs hvs

end Operators

/-! ## Programs -/

/-- Types of single numbers and truth values, of which vectors are made. -/
def Ty.IsLane : Ty → Prop
  | .bool | .int _ | .float _ => True
  | _ => False

/-- A type of a program with a size that can be told. Arrays do not nest. -/
def Ty.Sound (p : Program) : Ty → Prop
  | .int w => IsWidth w
  | .float w => w ≤ 64
  | .vector element lanes => lanes ≤ 16 ∧ ∃ t, p.types[element]? = some t ∧ t.IsLane
  | .array element length => length < Nat.pow 2 32 ∧
    ∃ t, p.types[element]? = some t ∧ ∀ element' length', t ≠ .array element' length'
  | _ => True

/-- The types and the constants of a program are sound. -/
structure Program.Sound (p : Program) : Prop where
  types : ∀ (id : Id) t, p.types[id]? = some t → t.Sound p
  constants : ∀ (id : Id) v, p.constants[id]? = some v → v.Sound

namespace Program

variable {p : Program} {id : Id}

theorem type_free (h : p.Sound) (id : Id) :
    TrapFree (fun t => p.types[id]? = some t ∧ t.Sound p) (p.type id) := by
  unfold type
  cases ht : p.types[id]? with
  | some t => exact ⟨rfl, h.types id t ht⟩
  | none => exact .error nofun

/-- The bits of a word make a sound value of every type. -/
theorem ofBits_free (h : p.Sound) {bits : Nat} (hbits : bits < Nat.pow 2 64) (id : Id) :
    TrapFree Value.Sound (p.ofBits bits id) := by
  refine (type_free h id).bind fun t ht => ?_
  split
  · exact .bool _
  · exact Value.ofBits_sound ht.2 hbits
  · exact .float _ _
  · exact .float _ _
  · exact .float _ _
  · exact .pointer hbits
  · exact .error nofun

end Program

end KernelForge.Device
