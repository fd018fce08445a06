import KernelForge.Proofs.Declarations.Histories
import KernelForge.Proofs.Literals
import KernelForge.Proofs.Loading.Session

/-!
# Integer constants on a device

A literal of an integer goes a long way: its text is read and cut to 64 bits, the constant is
written with one word or two, read back by the width of its type, and cut again when a device
evaluates it. What the device has in the end is the integer modulo the width of its kind
(`integer_literals`).
-/

namespace KernelForge.Codegen

open List Build Text
open Lir (Kind)
open Spirv
open Device (Program Value)
open UInt32 (ofNat)

variable {k : Kind} {w : Nat} {s : Session} {text : String} {type id n : Nat}

/-! ## Words of a constant -/

/-- The number of a constant in as many words as its type asks for. -/
def numberOperand (w n : Nat) : Operand := if w = 64 then .long n else .literal n

theorem constantForm_integer {n : Nat} (hk : scalarTy k = some (.int w))
    (h : parseInt text k = .ok n) :
    constantForm text k = .ok (.constant, [numberOperand w n]) := by
  cases k <;> cases hk <;> simp only [constantForm, h] <;> rfl

theorem word_ofNat {x limit : Nat} {rest : List UInt32} (h : x < Nat.pow 2 32) :
    Cursor.word ⟨limit + 1, ofNat x :: rest⟩ = .ok (x, ⟨limit, rest⟩) :=
  congrArg (fun n => Except.ok (n, Spirv.Cursor.mk limit rest)) (Nat.mod_eq_of_lt h)

/-- The number of a constant is read by the width of its type. -/
theorem typedNumber_operand (hw : w = 8 ∨ w = 16 ∨ w = 32 ∨ w = 64) {n : Nat} (hn : n < Nat.pow 2 w)
    (rest : List UInt32) :
    Cursor.typedNumber ⟨(numberOperand w n).words.length, (numberOperand w n).words ++ rest⟩
      (some (.int w false)) = .ok (numberOperand w n, ⟨0, rest⟩) := by
  have hnarrow : w ≤ 32 → Cursor.number ⟨1, ofNat n :: rest⟩ false =
      .ok (.literal n, ⟨0, rest⟩) := fun hle => by
    unfold Cursor.number
    rw [word_ofNat (Nat.lt_of_lt_of_le hn (Nat.pow_le_pow_right (by decide) hle))]
    rfl
  rcases hw with rfl | rfl | rfl | rfl
  · exact hnarrow (by decide)
  · exact hnarrow (by decide)
  · exact hnarrow (by decide)
  · have hhigh : n / Nat.pow 2 32 < Nat.pow 2 32 := Nat.div_lt_of_lt_mul hn
    have hlow : Cursor.word ⟨2, ofNat n :: ofNat (n / Nat.pow 2 32) :: rest⟩ =
        .ok (n % Nat.pow 2 32, ⟨1, ofNat (n / Nat.pow 2 32) :: rest⟩) := rfl
    show Cursor.number ⟨2, ofNat n :: ofNat (n / Nat.pow 2 32) :: rest⟩ true = _
    simp only [Cursor.number, hlow, word_ofNat hhigh, bind, Except.bind, if_true]
    exact congrArg (fun n => Except.ok (Operand.long n, Spirv.Cursor.mk 0 rest))
      (Nat.mod_add_div' n _)

/-- A constant is read back as it was written. -/
theorem readInstruction_constant {types : NumberTypes}
    (hw : w = 8 ∨ w = 16 ∨ w = 32 ∨ w = 64) (hn : n < Nat.pow 2 w) (htype : type < Nat.pow 2 32)
    (hid : id < Nat.pow 2 32) (hknown : types.get? type = some (.int w false))
    (rest : List UInt32) :
    let i : Instruction := ⟨.constant, some type, some id, [numberOperand w n]⟩
    ∃ first payload, i.words = first :: payload ∧
      readInstruction types first (payload ++ rest) = .ok (i, rest) := by
  have hread : ∀ {limit : Nat} {words : List UInt32} {operand : Operand},
      Cursor.typedNumber ⟨limit + 1, words⟩ (some (.int w false)) = .ok (operand, ⟨0, rest⟩) →
      limit < 2 → readInstruction types
        (ofNat ((limit + 4) * Nat.pow 2 16 + Opcode.constant.code))
        (ofNat type :: ofNat id :: words) =
          .ok (⟨.constant, some type, some id, [operand]⟩, rest) := by
    intro limit words operand hnumber hlimit
    have hfirst : (ofNat ((limit + 4) * Nat.pow 2 16 + 43)).toNat =
      (limit + 4) * 65536 + 43 :=
      Nat.mod_eq_of_lt (show (limit + 4) * 65536 + 43 < 4294967296 by omega)
    have hcount : ((limit + 4) * 65536 + 43) / Nat.pow 2 16 = limit + 4 := by
      show _ / 65536 = _
      omega
    have hcode : ((limit + 4) * 65536 + 43) % Nat.pow 2 16 = 43 := by
      show _ % 65536 = _
      omega
    have hslots : Opcode.constant.slots = [.one .resultType, .one .result, .one .contextNumber] :=
      rfl
    simp only [readInstruction, show Opcode.constant.code = 43 from rfl, hfirst, hcount, hcode,
      show Opcode.ofCode? 43 = some .constant from rfl]
    simp [hslots, Cursor.operands, Cursor.part, word_ofNat htype, word_ofNat hid, bind, Except.bind,
      pure, Except.pure, hknown, hnumber]
  have hnumber := typedNumber_operand hw hn rest
  refine ⟨_, _, rfl, ?_⟩
  rcases hw with rfl | rfl | rfl | rfl
  · exact hread hnumber Nat.zero_lt_two
  · exact hread hnumber Nat.zero_lt_two
  · exact hread hnumber Nat.zero_lt_two
  · exact hread hnumber Nat.one_lt_two

/-! ## Sessions whose declarations can be evaluated -/

/-- Every module variable has a type of pointers that the session declared. -/
def Session.Pointed (s : Session) : List Call → Prop
  | [] => True
  | c :: calls => (∀ type storage, c = .globalVariable type storage →
      ∃ key, s.pointers.get? key = some type) ∧ Pointed (c.after s) calls

theorem Session.Pointed.evaluates {calls : List Call} (h : s.Pointed calls) (hs : s.Coherent)
    (he : s.Evaluates) : (s.replay calls).Evaluates := by
  induction calls generalizing s with
  | nil => exact he
  | cons c calls ih =>
    obtain ⟨hc, hrest⟩ := h
    have hchanges : s.Changes vetted c.asked (c.after s) :=
      Call.changes (fun _ hop _ _ => hop) fun type storage heq => .inl (hc type storage heq)
    exact ih hrest (hchanges.coherent hs) (hchanges.evaluates (fun _ h => h rfl) hs he)

/-- A session has a type for every integer kind. -/
theorem typeOf_integer (hk : scalarTy k = some (.int w)) (s : Session) :
    ∃ id s', typeOf k s = .ok id s' := by
  have hdeclare : ∀ s, ∃ id s', declareScalar k s = .ok id s' := fun s => by
    cases k <;> cases hk
    case i32 => exact ⟨_, _, rfl⟩
    all_goals exact ⟨_, _, bind_of_ok (Session.require_run s _)⟩
  have hscalar : typeOf k = scalarType k := by cases k <;> cases hk <;> rfl
  cases hfound : s.types.get? k with
  | some id => exact ⟨id, s, typeOf_again hfound⟩
  | none =>
    obtain ⟨id, s', hrun⟩ := hdeclare s
    refine ⟨id, { s' with types := s'.types.insert k id }, ?_⟩
    rw [hscalar]
    refine bind_ok.2 ⟨s, s, rfl, ?_⟩
    rw [hfound]
    exact bind_ok.2 ⟨id, s', hrun, rfl⟩

theorem constant_integer {n : Nat} (hk : scalarTy k = some (.int w))
    (h : parseInt text k = .ok n) (s : Session) : ∃ id s', constant text k s = .ok id s' := by
  have hscalar : constant text k = scalarConstant text k := by cases k <;> cases hk <;> rfl
  cases hfound : s.constants.get? (text, k) with
  | some id => exact ⟨id, s, constant_again hfound⟩
  | none =>
    obtain ⟨type, s₁, htype⟩ := typeOf_integer hk s
    obtain ⟨id, s₂, hdeclare⟩ : ∃ id s₂, declareConstant text k type s₁ = .ok id s₂ := by
      unfold declareConstant
      rw [constantForm_integer hk h]
      exact ⟨_, _, rfl⟩
    refine ⟨id, { s₂ with constants := s₂.constants.insert (text, k) id }, ?_⟩
    rw [hscalar]
    refine bind_ok.2 ⟨s, s, rfl, ?_⟩
    rw [hfound]
    exact bind_ok.2 ⟨type, s₁, htype, bind_ok.2 ⟨id, s₂, hdeclare, rfl⟩⟩

/-! ## Literals -/

theorem integer_width (hk : scalarTy k = some (.int w)) :
    w = k.bits ∧ (w = 8 ∨ w = 16 ∨ w = 32 ∨ w = 64) := by
  cases k <;> cases hk <;> exact ⟨rfl, by decide⟩

/-- The text of a 64-bit integer is read as the integer modulo the width of its kind. -/
theorem parseInt_intText (hk : scalarTy k = some (.int w)) (v : Int64) :
    parseInt (intText v.toInt) k = .ok (v.toInt % (Nat.pow 2 w : Nat)).toNat := by
  obtain ⟨rfl, hw⟩ := integer_width hk
  have hlow : -9223372036854775808 ≤ v.toInt := v.minValue_le_toInt
  have hhigh : v.toInt < 9223372036854775808 := v.toInt_lt
  refine parseInt_iff.2 ⟨_, intText_spells _, ?_, ?_⟩
  · show v.toInt.natAbs < 18446744073709551616
    omega
  · rw [Nat.min_eq_left (by omega)]

/-- A session remembers the constant of an integer by its type and its number. -/
theorem Session.Declares.integer {id n : Nat} (hd : s.Declares)
    (hk : scalarTy k = some (.int w)) (hparse : parseInt text k = .ok n)
    (h : s.constants.get? (text, k) = some id) : ∃ type, s.types.get? k = some type ∧
      ⟨.constant, some type, some id, [numberOperand w n]⟩ ∈ s.draft.module.globals := by
  have hdeclared := hd.constants text k id h
  cases k with
  | vector => cases hk
  | _ =>
    obtain ⟨type, form, htype, hform, hmem⟩ := hdeclared
    rw [constantForm_integer hk hparse] at hform
    cases hform
    exact ⟨type, htype, hmem⟩

/-- A device that knows the constant of an integer has its number. -/
theorem integer_known {p : Program} (hn : n < Nat.pow 2 w)
    (htype : p.types[type]? = some (.int w))
    (h : p.Knows ⟨.constant, some type, some id, [numberOperand w n]⟩) :
    p.constants[id]? = some (.int n w) := by
  obtain ⟨n', v, ho, hbits, hv⟩ := h.number_of
  obtain rfl : n' = n := by
    unfold numberOperand at ho
    split at ho <;> rcases ho with ho | ho <;> cases ho <;> rfl
  unfold Program.ofBits at hbits
  rw [Program.type_of_some htype] at hbits
  cases hbits
  have hmask : Binary.mask n' w = n' := by
    unfold Binary.mask
    split
    · rfl
    · exact Nat.mod_eq_of_lt hn
  rw [hv, Value.ofBits, hmask]

/-- **integer_literals**: a literal is read exactly where its text is a numeral of at most 64 bits,
as that number modulo the width of its kind, or modulo 2^64 if its kind is wider. After any history
of a session, the constant for the text of a 64-bit integer is declared, read back as it is written,
and evaluated to the integer modulo the width of its kind. -/
theorem integer_literals (k : Kind) :
    (∀ value m, parseInt value k = .ok m ↔ ∃ z, Spells value z ∧ z.natAbs < Nat.pow 2 64 ∧
      m = (z % (Nat.pow 2 (min k.bits 64) : Nat)).toNat) ∧
    ∀ w, scalarTy k = some (.int w) → w = k.bits ∧ ∀ v : Int64,
      let n := (v.toInt % (Nat.pow 2 w : Nat)).toNat
      parseInt (intText v.toInt) k = .ok n ∧
      ∀ target calls, ({ target } : Session).Pointed calls → ∃ id s' type,
        constant (intText v.toInt) k (({ target } : Session).replay calls) = .ok id s' ∧
        let i : Instruction := ⟨.constant, some type, some id, [numberOperand w n]⟩
        i ∈ s'.draft.module.globals ∧
        (∀ (types : NumberTypes) rest, types.get? type = some (.int w false) → type < Nat.pow 2 32 →
          id < Nat.pow 2 32 → ∃ first payload, i.words = first :: payload ∧
            readInstruction types first (payload ++ rest) = .ok (i, rest)) ∧
        ∀ builtIns p₀, Device.Blank p₀ → ∃ p,
          s'.draft.module.globals.foldlM (Program.declare builtIns) p₀ = .ok p ∧
            p.types[type]? = some (.int w) ∧ p.constants[id]? = some (.int n w) := by
  refine ⟨fun value m => parseInt_iff, fun w hk => ⟨(integer_width hk).1, fun v => ?_⟩⟩
  intro n
  have hparse : parseInt (intText v.toInt) k = .ok n := parseInt_intText hk v
  have hn : n < Nat.pow 2 w := by
    have hpos : 0 < Nat.pow 2 w := Nat.two_pow_pos w
    have := Int.emod_lt_of_pos v.toInt (Int.natCast_pos.2 hpos)
    have := Int.emod_nonneg v.toInt (Int.natCast_ne_zero.2 hpos.ne')
    omega
  refine ⟨hparse, fun target calls hpointed => ?_⟩
  have hempty := Session.empty_coherent target
  have hs := (replay_kept hempty calls).1
  obtain ⟨id, s', hrun⟩ := constant_integer hk hparse (({ target } : Session).replay calls)
  obtain ⟨hanswers, -, hget⟩ := (constant_asks _ _ _).ok hrun
  have hchanges : Session.Changes vetted [] _ s' := hanswers.changes
  have hd := (hchanges.coherent hs).declares
  have he : s'.Evaluates := hchanges.evaluates (fun _ h => h rfl) hs
    (hpointed.evaluates hempty (.nil _))
  obtain ⟨type, htype, hmem⟩ := hd.integer hk hparse hget
  refine ⟨id, s', type, hrun, hmem, fun types rest hknown htype hid =>
    readInstruction_constant (integer_width hk).2 hn htype hid hknown rest, ?_⟩
  intro builtIns p₀ hblank
  obtain ⟨p, hp, hev, -⟩ := he builtIns p₀ hblank
  have htype := hd.type_known hev htype hk
  exact ⟨p, hp, htype, integer_known hn htype (hev.knows _ hmem)⟩

/-- A byte of a negative number, declared behind a variable. -/
theorem integer_literals_byte :
    let s : Session := ({} : Session).replay [.request (.pointerTo .i8 StorageClass.workgroup),
      .globalVariable 2 StorageClass.workgroup]
    ∃ id s' p, constant "-31" .i8 s = .ok id s' ∧
      s'.draft.module.globals.foldlM (Program.declare []) {} = .ok p ∧
      p.constants[id]? = some (.int 225 8) := by
  intro s
  obtain ⟨id, s', type, hrun, -, -, hdevice⟩ := (((integer_literals .i8).2 8 rfl).2 (-31)).2 {}
    [.request (.pointerTo .i8 StorageClass.workgroup), .globalVariable 2 StorageClass.workgroup]
    ⟨nofun, fun _ _ h => by cases h; exact ⟨(1, StorageClass.workgroup), rfl⟩, trivial⟩
  obtain ⟨p, hp, -, hv⟩ := hdevice [] {} ⟨rfl, rfl, rfl⟩
  rw [show intText (-31 : Int64).toInt = "-31" by decide] at hrun
  exact ⟨id, s', p, hrun, hp, hv⟩

/-- At a kind of more than 64 bits a number is taken modulo 2^64 all the same. -/
theorem wide_kind_cuts_to_word : let k := Kind.vector .f32 4
    Spells "-1" (-1) ∧ parseInt "-1" k = .ok 18446744073709551615 ∧
      (-1 % (Nat.pow 2 k.bits : Nat) : Int).toNat ≠ 18446744073709551615 := by
  have hspells := intText_spells (-1)
  rw [show intText (-1) = "-1" by decide] at hspells
  exact ⟨hspells, rfl, by decide⟩

end KernelForge.Codegen
