import KernelForge.Proofs.Literals
import KernelForge.Proofs.Execution.Places
import KernelForge.Proofs.Execution.Straight

/-!
# The storage of a call

A program that evaluated the declarations of a module knows the types, sizes and indices that the
code of a function names (`Names.Known`). So the first instructions of a function run to their end:
they make a variable for each private array and, in spill mode, one of the right size for each
declared value, a different one for each (`StorageCode.runs`).
-/

namespace KernelForge.Codegen

open List
open Lir (Kind ValueId ArrayId)
open Spirv
open Device (Program Env Locals Store Ty)
open Device.Env (Runs Fresh)

/-! ## Declared names -/

/-- Names whose declarations a program has evaluated. -/
structure Names.Known (n : Names) (p : Program) : Prop where
  intro ::
  session : ∃ s : Session, n.session.Sees s ∧ s.Declares ∧ s.Evaluated p

/-- A vector has at most 255 lanes of 8 bytes. -/
theorem kind_size_le (k : Kind) : k.size ≤ Nat.pow 2 16 := by
  cases k with
  | vector e n =>
    have hlane : e.kind.scalarSize ≤ 8 := by cases e <;> decide
    have hcount : n.toNat ≤ 256 := Nat.le_of_lt n.toNat_lt
    exact Nat.le_trans (Nat.mul_le_mul hlane hcount) (by decide)
  | _ => decide

namespace Names.Known

variable {n : Names} {p : Program} (h : n.Known p)

include h

variable {k : Kind} {id : Id}

theorem type {t : Ty} (hid : n.session.types.get? k = some id) (ht : scalarTy k = some t) :
    p.types[id]? = some t := by
  obtain ⟨s, hsees, hd, he⟩ := h.session
  exact hd.type_known he (hsees.types _ _ hid) ht

theorem pointer {type id : Id} {storage : StorageClass}
    (hid : n.session.pointers.get? (type, storage) = some id) :
    p.types[id]? = some (.pointer storage type) := by
  obtain ⟨s, hsees, hd, he⟩ := h.session
  exact hd.pointer_known he (hsees.pointers _ _ hid)

theorem index {i : Nat} (hi : i < Nat.pow 2 64)
    (hid : n.session.constants.get? (Text.natText i, .i64) = some id) :
    p.constants[id]? = some (.int i 64) := by
  obtain ⟨s, hsees, hd, he⟩ := h.session
  obtain ⟨type, form, htype, hform, hmem⟩ := hd.constants _ _ _ (hsees.constants _ _ hid)
  have hlong : Build.constantForm (Text.natText i) .i64 = .ok (.constant, [.long i]) := by
    unfold Build.constantForm
    dsimp only
    rw [parseInt_natText hi]
    rfl
  rw [hlong] at hform
  cases hform
  obtain ⟨i', v, ho, hbits, hv⟩ := (he.knows _ hmem).number_of
  rcases ho with ho | ho
  · cases ho
  · cases ho
    unfold Program.ofBits at hbits
    rw [Program.type_of_some (hd.type_known he htype rfl)] at hbits
    cases hbits
    exact hv

/-- A type takes as many bytes as its kind. -/
theorem size (fuel : Nat) (hid : n.session.types.get? k = some id) (hk : k ≠ .void) :
    p.sizeWithin (fuel + 2) id = .ok k.size := by
  have hscalar : ∀ {k : Kind} {id : Id} {fuel : Nat}, n.session.types.get? k = some id →
      k ≠ .void → k.isVector = false → p.sizeWithin (fuel + 1) id = .ok k.size := by
    intro k id fuel hid hk hv
    cases k with
    | void => exact absurd rfl hk
    | vector => cases hv
    | _ => exact Program.sizeWithin_succ (h.type hid rfl)
  cases k with
  | vector e lanes =>
    obtain ⟨s, hsees, hd, he⟩ := h.session
    obtain ⟨element, helement, hn, hvector⟩ := hd.types _ _ (hsees.types _ _ hid)
    have hs : Names.Known { n with session := s } p := ⟨s, Session.Sees.refl s, hd, he⟩
    have hlane : p.sizeWithin (fuel + 1) element = .ok e.kind.size := by
      cases e <;> exact Program.sizeWithin_succ (hs.type helement rfl)
    rw [Program.sizeWithin_succ (hvector.known he rfl)]
    show (p.sizeWithin (fuel + 1) element).bind _ = _
    rw [hlane]
    have hle := lanes_le hn
    have hsize : e.kind.size ≤ 8 := by cases e <;> decide
    have hproduct : e.kind.size * lanes.toNat < Nat.pow 2 64 :=
      Nat.lt_of_le_of_lt (Nat.mul_le_mul hsize hle) (by decide)
    have htimes : Program.sizeTimes e.kind.size lanes.toNat = .ok (e.kind.size * lanes.toNat) :=
      if_neg (Nat.not_le.2 hproduct)
    refine htimes.trans ?_
    cases e <;> rfl
  | _ => exact hscalar hid hk rfl

theorem sizeOf (hid : n.session.types.get? k = some id) (hk : k ≠ .void) :
    p.sizeOf id = .ok k.size :=
  h.size _ hid hk

theorem arraySize {length : UInt32} (hid : n.session.arrays.get? (k, length) = some id)
    (hk : k ≠ .void) : ∃ size, p.sizeOf id = .ok size := by
  obtain ⟨s, hsees, hd, he⟩ := h.session
  have hs : Names.Known { n with session := s } p := ⟨s, .refl s, hd, he⟩
  obtain ⟨type, count, htype, -, ⟨op, rt, r, operands⟩, hi, rfl, rfl, rfl⟩ :=
    hd.arrays _ _ _ (hsees.arrays _ _ hid)
  obtain ⟨size, harray⟩ := (he.knows _ hi).array_of
  have hlength : size < Nat.pow 2 32 := (he.sound.types _ _ harray).1
  have hproduct : k.size * size < Nat.pow 2 64 := by
    calc k.size * size ≤ Nat.pow 2 16 * size := Nat.mul_le_mul_right _ (kind_size_le k)
      _ < Nat.pow 2 16 * Nat.pow 2 32 := Nat.mul_lt_mul_of_pos_left hlength (by decide)
      _ < Nat.pow 2 64 := by decide
  refine ⟨k.size * size, ?_⟩
  rw [Program.sizeOf_eq harray]
  show (p.sizeWithin (p.types.size + 2) type).bind _ = _
  rw [hs.size _ htype hk]
  exact if_neg (Nat.not_le.2 hproduct)

end Names.Known

/-! ## Variables -/

section Storage

variable {n : Names} {env : Env} {c : List Instruction} {locals : Locals} {store : Store}

/-- The variables of private arrays are made. -/
theorem ArraysCode.runs (h : n.Known env.program) (locals : Locals) (store : Store)
    {as : List Lir.ArrayDecl}
    {slots : List (ArrayId × ArraySlot)} (hc : ArraysCode n.session as slots c)
    (hk : ∀ a ∈ as, a.element ≠ .void) :
    ∃ locals' store', env.Runs c locals store locals' store' ∧ store'.heap = store.heap := by
  induction hc generalizing locals store with
  | nil => exact ⟨locals, store, .nil, rfl⟩
  | @cons a as slots c type pointer id ht hp hs ih =>
    obtain ⟨ha, has⟩ := forall_mem_cons.1 hk
    have hvoid : a.element.storage ≠ .void := by
      cases hk : a.element <;> simp_all [Kind.storage]
    obtain ⟨size, hsize⟩ := h.arraySize ht hvoid
    have hfirst : env.Runs [localVar pointer id] locals store _ _ :=
      Runs.single rfl (Env.execute_variable (h.pointer hp) hsize)
    obtain ⟨locals', store', hrest, hheap⟩ := ih _ _ has
    exact ⟨locals', store', hfirst.append hrest, hheap⟩

/-- In spill mode each declared value has a variable of its own, of the size of its kind;
`place` numbers the variables. -/
structure Slotted (n : Names) (place : ValueId → Nat) (locals : Locals) (store : Store) : Prop where
  pointer : ∀ v slot, n.slot? v = some slot →
    ∃ pointee, locals[slot]? = some (.pointer ⟨.perItem (place v), 0, pointee⟩)
  room : ∀ v slot k, n.slot? v = some slot → n.scope.function.kindOf? v = some k →
    ∃ bytes, store.itemVars[place v]? = some bytes ∧ bytes.size = k.size
  apart : ∀ v w slot slot', n.slot? v = some slot → n.slot? w = some slot' → place v = place w →
    v = w

variable {slots : List (ValueId × Id)} {values : List (ValueId × Kind)}

theorem SlotsCode.names {s : Session} (hc : SlotsCode s values slots c) :
    slots.map Prod.fst = values.map Prod.fst := by
  induction hc with
  | nil => rfl
  | cons _ _ _ ih => rw [map_cons, map_cons, ih]

/-- The slots of some values, in variables from a number on. -/
structure SlotsAt (place : ValueId → Nat) (start : Nat) (values : List (ValueId × Kind))
    (slots : List (ValueId × Id)) (locals : Locals) (store : Store) : Prop where
  later : ∀ e ∈ values, start ≤ place e.1
  room : ∀ e ∈ values, ∃ bytes, store.itemVars[place e.1]? = some bytes ∧ bytes.size = e.2.size
  pointer : ∀ e ∈ slots, ∃ pointee,
    locals[e.2]? = some (.pointer ⟨.perItem (place e.1), 0, pointee⟩)
  apart : ∀ e ∈ values, ∀ e' ∈ values, place e.1 = place e'.1 → e.1 = e'.1

/-- The slots of values are made, in their order. -/
theorem SlotsCode.runs (h : n.Known env.program) (store : Store)
    (hc : SlotsCode n.session values slots c) (hk : ∀ e ∈ values, e.2 ≠ .void)
    (hnames : (values.map Prod.fst).Nodup) (hfresh : Fresh locals c) :
    ∃ locals' store' place, env.Runs c locals store locals' store' ∧ store'.heap = store.heap ∧
      (∀ i < store.itemVars.size, store'.itemVars[i]? = store.itemVars[i]?) ∧
      SlotsAt place store.itemVars.size values slots locals' store' := by
  induction hc generalizing locals store with
  | nil => exact ⟨locals, store, fun _ => 0, .nil, rfl, fun _ _ => rfl, nofun, nofun, nofun, nofun⟩
  | @cons v k values slots c type pointer id ht hp hs ih =>
    obtain ⟨hv, hk⟩ := forall_mem_cons.1 hk
    obtain ⟨hnew, hnames⟩ := nodup_cons.1 hnames
    have hfirst : env.Runs [localVar pointer id] locals store _ _ :=
      Runs.single rfl (Env.execute_variable (h.pointer hp) (h.sizeOf ht hv))
    have hfresh' := Fresh.right (c := [localVar pointer id]) hfresh hfirst
    obtain ⟨locals', store', place, hruns, hheap, hold, hat⟩ := ih _ hk hnames hfresh'
    have hvalue : ∀ e ∈ values, e.1 ≠ v := fun e he heq =>
      hnew (heq ▸ mem_map.2 ⟨e, he, rfl⟩)
    have hslot : ∀ e ∈ slots, e.1 ≠ v := fun e he heq =>
      hnew (heq ▸ hs.names ▸ mem_map.2 ⟨e, he, rfl⟩)
    have hsize : (store.itemVars.push (Array.replicate k.size (0 : UInt8))).size =
        store.itemVars.size + 1 := Array.size_push _
    -- the new variable comes first, and the others are numbered after it
    refine ⟨locals', store', fun w => if w = v then store.itemVars.size else place w,
      hfirst.append hruns, hheap, fun i hi => ?_, fun e he => ?_, fun e he => ?_, fun e he => ?_,
      fun e he e' he' heq => ?_⟩
    · rw [hold i (by rw [hsize]; omega), Array.getElem?_push, if_neg (by omega)]
    · rcases mem_cons.1 he with rfl | he
      · exact Nat.le_of_eq (if_pos rfl).symm
      · rw [if_neg (hvalue e he)]
        have := hat.later e he
        rw [hsize] at this
        omega
    · rcases mem_cons.1 he with rfl | he
      · rw [if_pos rfl, hold _ (by rw [hsize]; omega), Array.getElem?_push_size]
        exact ⟨_, rfl, Array.size_replicate⟩
      · rw [if_neg (hvalue e he)]
        exact hat.room e he
    · rcases mem_cons.1 he with rfl | he
      · rw [if_pos rfl]
        exact ⟨_, hfresh'.keeps hruns Std.TreeMap.getElem?_insert_self⟩
      · rw [if_neg (hslot e he)]
        exact hat.pointer e he
    · have hbefore : ∀ e ∈ values, place e.1 ≠ store.itemVars.size := fun e he hplace => by
        have := hat.later e he
        rw [hsize] at this
        omega
      rcases mem_cons.1 he with rfl | he <;> rcases mem_cons.1 he' with rfl | he'
      · rfl
      · rw [if_pos rfl, if_neg (hvalue e' he')] at heq
        exact absurd heq.symm (hbefore e' he')
      · rw [if_pos rfl, if_neg (hvalue e he)] at heq
        exact absurd heq (hbefore e he)
      · rw [if_neg (hvalue e he), if_neg (hvalue e' he')] at heq
        exact hat.apart e he e' he' heq

/-- A function whose private arrays and, in spill mode, values can have variables: no
element and no value is void, and no value is declared twice. -/
structure Storable (settings : CodegenSettings) (f : Lir.Function) : Prop where
  arrays : ∀ a ∈ f.arrays, a.element ≠ .void
  values : settings.optimizeLoadStore = false → ∀ e ∈ f.values, e.2 ≠ .void
  names : settings.optimizeLoadStore = false → (f.values.map Prod.fst).Nodup

/-- The storage of a function is made. -/
theorem StorageCode.runs (h : n.Known env.program) (store : Store) {base : Table ArrayId ArraySlot}
    (hc : StorageCode n base c) (hf : Storable n.scope.settings n.scope.function)
    (hfresh : Fresh locals c) :
    ∃ locals' store' place, env.Runs c locals store locals' store' ∧ store'.heap = store.heap ∧
      Slotted n place locals' store' := by
  obtain ⟨arrays, slots, ca, cs, rfl, harrays, -, hslots, hsymbols⟩ := hc.code
  obtain ⟨locals₁, store₁, hfirst, hheap₁⟩ := harrays.runs h locals store
    fun a ha => hf.arrays a (mem_filter.1 ha).1
  have hspill : ∀ {v slot}, n.slot? v = some slot →
      n.scope.settings.optimizeLoadStore = false ∧ (v, slot) ∈ slots := by
    intro v slot hv
    unfold Names.slot? at hv
    split at hv
    · cases hv
    · next hoff =>
      rw [hsymbols] at hv
      rcases mem_or_get?_of_insertAll hv with hmem | hnone
      · exact ⟨Bool.eq_false_iff.2 hoff, hmem⟩
      · cases hnone
  have hvalues : ∀ e ∈ (if n.scope.settings.optimizeLoadStore then [] else
      n.scope.function.values), e.2 ≠ .void := by
    intro e he
    split at he
    · cases he
    · next hoff => exact hf.values (Bool.eq_false_iff.2 hoff) e he
  have hnames : ((if n.scope.settings.optimizeLoadStore then [] else
      n.scope.function.values).map Prod.fst).Nodup := by
    split
    · exact nodup_nil
    · next hoff => exact hf.names (Bool.eq_false_iff.2 hoff)
  obtain ⟨locals', store', place, hrest, hheap, -, hat⟩ :=
    hslots.runs h store₁ hvalues hnames (hfresh.right hfirst)
  refine ⟨locals', store', place, hfirst.append hrest, hheap.trans hheap₁,
    fun v slot hv => hat.pointer _ (hspill hv).2, ?_, ?_⟩
  · intro v slot k hv hk
    obtain ⟨hoff, hmem⟩ := hspill hv
    rw [hoff] at hat
    refine hat.room (v, k) ?_
    obtain ⟨e, he, rfl⟩ := Option.map_eq_some_iff.1 hk
    have hkey := List.find?_some he
    rw [← eq_of_beq hkey]
    exact mem_of_find?_eq_some he
  · intro v w slot slot' hv hw heq
    obtain ⟨hoff, hmem⟩ := hspill hv
    obtain ⟨-, hmem'⟩ := hspill hw
    rw [hoff] at hat hslots
    have hin : ∀ {v slot}, (v, slot) ∈ slots → ∃ e ∈ n.scope.function.values, e.1 = v := by
      intro v slot hv
      have hname : v ∈ n.scope.function.values.map Prod.fst := hslots.names ▸ mem_map.2 ⟨_, hv, rfl⟩
      obtain ⟨e, he, rfl⟩ := mem_map.1 hname
      exact ⟨e, he, rfl⟩
    obtain ⟨e, he, rfl⟩ := hin hmem
    obtain ⟨e', he', rfl⟩ := hin hmem'
    exact hat.apart e he e' he' heq

end Storage

end KernelForge.Codegen
