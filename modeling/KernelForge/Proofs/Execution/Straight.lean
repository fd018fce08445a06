import KernelForge.Proofs.Loading.Declarations

/-!
# Code without branches

`Env.Runs` tells what straight-line code does to values and memory when it runs to its end; the
machine then goes on with what follows it (`Env.Runs.run`). The lemmas on single instructions say
what each of them does where its operands have the values it asks for.
-/

namespace KernelForge.Device

open List
open Binary (signExtend word64 mask bytesLE natLE)
open Spirv (Id Operand Instruction StorageClass)

/-- Values of other ids stay. -/
theorem locals_insert_of_ne {locals : Locals} {a b : Id} (v : Value) (h : a ≠ b) :
    (locals.insert a v)[b]? = locals[b]? := by
  rw [Std.TreeMap.getElem?_insert, if_neg fun heq => h (Std.LawfulEqCmp.eq_of_compare heq)]

variable {v : Value} {t : Ty}

namespace Env

/-- The values after an instruction. -/
def assign (locals : Locals) : Option Id → Option Value → Locals
  | some id, some v => locals.insert id v
  | _, _ => locals

theorem setResult_eq (f : Frame) (r : Option Id) (v : Option Value) :
    setResult f r v = { f with locals := assign f.locals r v } := by
  cases v <;> cases r <;> rfl

/-- Code without branches that runs to its end. -/
inductive Runs (env : Env) : List Instruction → Locals → Store → Locals → Store → Prop
  | nil {locals : Locals} {store : Store} : Runs env [] locals store locals store
  | cons {i : Instruction} {c : List Instruction} {v : Option Value} {locals locals' : Locals}
      {store store₁ store' : Store} (hx : env.execute locals store i = .ok (.next v store₁))
      (hc : Runs env c (assign locals i.result v) store₁ locals' store') :
      Runs env (i :: c) locals store locals' store'

variable {id : Id} {i : Instruction}

namespace Runs

variable {env : Env} {c c' : List Instruction} {locals locals₁ locals' : Locals}
  {store store₁ store' : Store}

theorem append (h : env.Runs c locals store locals₁ store₁)
    (h' : env.Runs c' locals₁ store₁ locals' store') :
    env.Runs (c ++ c') locals store locals' store' := by
  induction h with
  | nil => exact h'
  | cons hx _ ih => exact .cons hx (ih h')

theorem single (hr : i.result = some id)
    (hx : env.execute locals store i = .ok (.next (some v) store')) :
    env.Runs [i] locals store (locals.insert id v) store' := by
  refine .cons hx ?_
  rw [hr]
  exact .nil

theorem perform (hr : i.result = none) (hx : env.execute locals store i = .ok (.next none store')) :
    env.Runs [i] locals store locals store' := by
  refine .cons hx ?_
  rw [hr]
  exact .nil

/-- The machine goes on with what follows. -/
theorem run {callers : List Frame} {rest : List Instruction} {f : Frame}
    (h : env.Runs c f.locals store locals' store') (hrest : f.rest = c ++ rest) (steps : Nat) :
    env.run (c.length + steps) ⟨f, callers, store⟩ =
      env.run steps ⟨{ f with locals := locals', rest }, callers, store'⟩ := by
  generalize hl : f.locals = locals at h
  induction h generalizing f with
  | nil =>
    obtain ⟨function, code, _, label, _, result⟩ := f
    subst hl hrest
    rw [length_nil, Nat.zero_add]
  | @cons i c v locals locals' store store₁ store' hx hc ih =>
    subst hl
    have hlength : (i :: c).length + steps = (c.length + steps) + 1 := by
      rw [length_cons]
      omega
    have hstep : env.step ⟨f, callers, store⟩ i (c ++ rest) = .ok (.inl
        ⟨{ f with locals := assign f.locals i.result v, rest := c ++ rest }, callers, store₁⟩) := by
      unfold step
      rw [hx]
      dsimp only [bind, Except.bind]
      rw [setResult_eq]
      rfl
    rw [hlength, Env.run, hrest]
    dsimp only [cons_append]
    rw [hstep]
    exact ih rfl rfl

/-- What has no new value keeps its old one. -/
theorem locals_eq (h : env.Runs c locals store locals' store')
    (hid : id ∉ Spirv.results c) : locals'[id]? = locals[id]? := by
  induction h with
  | nil => rfl
  | @cons i c v locals locals' store store₁ store' hx hc ih =>
    have hi : i.result ≠ some id := fun hr => hid (mem_filterMap.2 ⟨i, mem_cons_self, hr⟩)
    have hrest : id ∉ Spirv.results c := fun hin => by
      obtain ⟨i', hi', hr⟩ := mem_filterMap.1 hin
      exact hid (mem_filterMap.2 ⟨i', mem_cons_of_mem _ hi', hr⟩)
    rw [ih hrest]
    unfold assign
    split
    · next r v hr =>
      exact locals_insert_of_ne v fun heq => hi (heq ▸ hr)
    · rfl

end Runs

/-- Code that gives each of its results a first value. -/
structure Fresh (locals : Locals) (c : List Instruction) : Prop where
  nodup : (Spirv.results c).Nodup
  unset : ∀ id ∈ Spirv.results c, locals[id]? = none

namespace Fresh

variable {env : Env} {c c' : List Instruction} {locals locals' : Locals} {store store' : Store}

theorem left (h : Fresh locals (c ++ c')) : Fresh locals c := by
  obtain ⟨hnodup, hunset⟩ := h
  rw [Spirv.results, filterMap_append] at hnodup hunset
  exact ⟨(nodup_append.1 hnodup).1, fun id hid => hunset id (mem_append_left _ hid)⟩

/-- After the first part, the second gives first values. -/
theorem right (h : Fresh locals (c ++ c')) (hr : env.Runs c locals store locals' store') :
    Fresh locals' c' := by
  obtain ⟨hnodup, hunset⟩ := h
  rw [Spirv.results, filterMap_append] at hnodup hunset
  obtain ⟨-, hc', hapart⟩ := nodup_append.1 hnodup
  refine ⟨hc', fun id hid => ?_⟩
  rw [hr.locals_eq fun hin => hapart id hin id hid rfl]
  exact hunset id (mem_append_right _ hid)

/-- Values stay. -/
theorem keeps (h : Fresh locals c) (hr : env.Runs c locals store locals' store')
    (hv : locals[id]? = some v) : locals'[id]? = some v := by
  rw [hr.locals_eq fun hin => ?_]
  · exact hv
  · rw [h.unset id hin] at hv
    cases hv

end Fresh

/-! ## Values -/

variable {env : Env} {locals : Locals} {store : Store}

theorem value_of_constant (hl : locals[id]? = none)
    (hc : env.program.constants[id]? = some v) : env.value locals id = .ok v := by
  rw [value, hl]
  rw [hc]

theorem arg_ref {index : Nat}
    (h : i.operands[index]? = some (.ref id)) : env.arg locals i index = env.value locals id := by
  rw [arg, idAt, h]
  rfl

end Env

/-! ## Types and images -/

/-- The bytes of a type, where those of its elements are known. -/
def Ty.sizeBy (size : Id → Except Fault Nat) : Ty → Except Fault Nat
  | .bool => .ok 1
  | .int w | .float w => .ok (w / 8)
  | .vector element lanes => (size element).bind fun n => Program.sizeTimes n lanes
  | .array element length => (size element).bind fun n => Program.sizeTimes n length
  | .pointer _ _ => .ok 8
  | t => .error (.noSize t)

namespace Program

variable {p : Program} {id element : Id}

theorem sizeWithin_succ {fuel : Nat} (h : p.types[id]? = some t) :
    p.sizeWithin (fuel + 1) id = t.sizeBy (p.sizeWithin fuel) := by
  rw [sizeWithin, type_of_some h]
  cases t <;> rfl

theorem sizeOf_eq (h : p.types[id]? = some t) :
    p.sizeOf id = t.sizeBy (p.sizeWithin (p.types.size + 2)) :=
  sizeWithin_succ h

theorem pointee_of {storage : StorageClass} (h : p.types[id]? = some (.pointer storage element)) :
    p.pointee id = .ok element := by
  unfold pointee
  rw [type_of_some h]
  rfl

/-- What is no vector is decoded from its first bytes. -/
theorem decode_scalar {size fuel : Nat} {bytes : List UInt8} (h : p.types[id]? = some t)
    (ht : ∀ element lanes, t ≠ .vector element lanes) (hsize : p.sizeOf id = .ok size)
    (hlen : size ≤ bytes.length) (hword : size ≤ 8) :
    p.decodeWithin (fuel + 1) bytes id = p.ofBits (natLE (bytes.take size)) id := by
  unfold decodeWithin
  rw [hsize]
  dsimp only [bind, Except.bind]
  rw [if_neg (by omega), type_of_some h]
  cases t with
  | vector element lanes => exact absurd rfl (ht element lanes)
  | _ =>
    rw [if_neg (by omega)]

end Program

/-- Values of a scalar type. -/
inductive Ty.Has : Ty → Value → Prop
  | bool (b : Bool) : Has .bool (.bool b)
  | int {width bits : Nat} (hw : width = 8 ∨ width = 16 ∨ width = 32 ∨ width = 64)
      (hbits : bits < Nat.pow 2 width) : Has (.int width) (.int bits width)
  | float {width bits : Nat} (hw : width = 16 ∨ width = 32 ∨ width = 64)
      (hbits : bits < Nat.pow 2 width) : Has (.float width) (.float bits width)

open Program (sizeOf_eq type_of_some)

/-- A value of a scalar type is decoded from its image. -/
theorem Ty.Has.image (h : t.Has v) :
    ∃ image, encode v = .ok image ∧ (∀ size, t.sizeBy size = .ok image.length) ∧
      ∀ {p : Program} {fuel : Nat} {id : Id}, p.types[id]? = some t →
        p.decodeWithin (fuel + 1) image id = .ok v := by
  have hdecode : ∀ {p : Program} {fuel size bits : Nat} {id : Id}, p.types[id]? = some t →
      t.sizeBy (p.sizeWithin (p.types.size + 2)) = .ok size → size ≤ 8 → bits < Nat.pow 256 size →
      p.decodeWithin (fuel + 1) (bytesLE size bits) id = p.ofBits bits id := by
    intro p fuel size bits id hid hsize hle hbits
    have hlength := Binary.length_bytesLE size bits
    rw [Program.decode_scalar hid (by cases h <;> nofun) ((sizeOf_eq hid).trans hsize)
      (Nat.le_of_eq hlength.symm) hle, take_of_length_le (Nat.le_of_eq hlength),
      Binary.natLE_bytesLE, Nat.mod_eq_of_lt hbits]
  cases h with
  | bool b =>
    refine ⟨bytesLE 1 b.toNat, by cases b <;> rfl, fun _ => rfl, fun hid => ?_⟩
    rw [hdecode hid rfl (by decide) (by cases b <;> decide), Program.ofBits,
      type_of_some hid]
    cases b <;> rfl
  | @int width bits hw hbits =>
    refine ⟨bytesLE (width / 8) bits, if_neg (by omega), fun _ => ?_, fun hid => ?_⟩
    · rw [Binary.length_bytesLE]
      rfl
    · rw [hdecode hid rfl (by omega) (by rcases hw with rfl | rfl | rfl | rfl <;> exact hbits),
        Program.ofBits, type_of_some hid]
      refine congrArg (fun bits => Except.ok (Value.int bits width)) ?_
      unfold mask
      split
      · rfl
      · exact Nat.mod_eq_of_lt hbits
  | @float width bits hw hbits =>
    have hsize : floatBytes width = width / 8 := by rcases hw with rfl | rfl | rfl <;> rfl
    refine ⟨bytesLE (floatBytes width) bits, rfl, fun _ => ?_, fun hid => ?_⟩
    · rw [Binary.length_bytesLE, hsize]
      rfl
    · rw [hsize, hdecode hid rfl (by omega) (by rcases hw with rfl | rfl | rfl <;> exact hbits),
        Program.ofBits, type_of_some hid]
      rcases hw with rfl | rfl | rfl
      · exact congrArg (fun bits => Except.ok (Value.float bits 16)) (Nat.mod_eq_of_lt hbits)
      · exact congrArg (fun bits => Except.ok (Value.float bits 32)) (Nat.mod_eq_of_lt hbits)
      · rfl

/-! ## Single instructions -/

namespace Env

variable {env : Env} {locals : Locals} {store : Store} {type r a b : Id}

variable {q : Pointer} {bits size width width' : Nat} {storage : StorageClass} {pointee : Id}
  {image : List UInt8}

/-- An access chain goes on by a number of elements. -/
theorem execute_access (ha : env.value locals a = .ok (.pointer q))
    (hb : env.value locals b = .ok (.int bits width)) (hw : width ≠ 0)
    (hsize : env.program.sizeOf q.pointee = .ok size)
    (ht : env.program.types[type]? = some (.pointer storage pointee)) :
    env.execute locals store ⟨.inBoundsPtrAccessChain, some type, some r, [.ref a, .ref b]⟩ =
      .ok (.next (some (.pointer
        ⟨q.space, word64 (q.offset + signExtend bits width * size), pointee⟩)) store) := by
  unfold execute accessChain
  rw [arg_ref rfl, arg_ref rfl, ha, hb]
  dsimp only [bind, Except.bind, Value.asPointer, Value.asSigned, if_true]
  rw [if_neg hw]
  rw [hsize]
  dsimp only [walk, resultTypeOf]
  rw [Program.pointee_of ht]
  rfl

/-- A pointer taken for one of another type. -/
theorem execute_castPointer (ha : env.value locals a = .ok (.pointer q))
    (ht : env.program.types[type]? = some (.pointer storage pointee)) :
    env.execute locals store ⟨.bitcast, some type, some r, [.ref a]⟩ =
      .ok (.next (some (.pointer { q with pointee })) store) := by
  unfold execute bitcast
  rw [arg_ref rfl, ha]
  dsimp only [bind, Except.bind, resultTypeOf]
  rw [type_of_some ht]
  rfl

/-- A value is loaded from its image. -/
theorem execute_load {extra : List Operand}
    (ha : env.value locals a = .ok (.pointer q))
    (hsize : env.program.sizeOf type = .ok image.length)
    (hread : store.read q image.length = .ok image) (hv : env.program.decode image type = .ok v) :
    env.execute locals store ⟨.load, some type, some r, .ref a :: extra⟩ =
      .ok (.next (some v) store) := by
  unfold execute load
  rw [arg_ref rfl, ha]
  dsimp only [bind, Except.bind, Value.asPointer, resultTypeOf]
  cases hspace : q.space with
  | input =>
    rw [Store.read, hspace] at hread
    cases hread
  | _ =>
    rw [hsize]
    dsimp only
    rw [hread]
    dsimp only
    rw [hv]
    rfl

theorem execute_cut (ha : env.value locals a = .ok (.int bits width))
    (ht : env.program.types[type]? = some (.int width')) :
    env.execute locals store ⟨.uConvert, some type, some r, [.ref a]⟩ =
      .ok (.next (some (.ofBits bits width')) store) := by
  unfold execute operator argsFrom
  rw [show List.range' 0 ([Operand.ref a].length - 0) = [0] from rfl]
  rw [mapM_cons, arg_ref rfl, ha]
  dsimp only [bind, Except.bind, pure, Except.pure, isConversion, if_true, resultTypeOf]
  unfold Program.laneType
  rw [type_of_some ht]
  rfl

/-- The bits of an integer taken for those of a number. -/
theorem execute_castBits (hx : (Ty.float width).Has (.float bits width))
    (ha : env.value locals a = .ok (.int bits width))
    (ht : env.program.types[type]? = some (.float width)) :
    env.execute locals store ⟨.bitcast, some type, some r, [.ref a]⟩ =
      .ok (.next (some (.float bits width)) store) := by
  obtain ⟨image, himage, hsize, hdecode⟩ := hx.image
  have hsame : encode (.int bits width) = .ok image := by
    rw [← himage]
    cases hx with
    | float hw => rcases hw with rfl | rfl | rfl <;> rfl
  unfold execute bitcast
  rw [arg_ref rfl, ha]
  dsimp only [bind, Except.bind, resultTypeOf]
  rw [type_of_some ht]
  rw [hsame]
  rw [sizeOf_eq ht, hsize]
  dsimp only
  rw [if_neg (not_not_intro rfl), Program.decode, Program.depth, hdecode ht]
  rfl

/-- Whether two integers differ. -/
theorem execute_differ {x y : Nat} (hw : width ≠ 0) (ha : env.value locals a = .ok (.int x width))
    (hb : env.value locals b = .ok (.int y width')) :
    env.execute locals store ⟨.iNotEqual, some type, some r, [.ref a, .ref b]⟩ =
      .ok (.next (some (.bool (x != y))) store) := by
  unfold execute operator argsFrom
  rw [show List.range' 0 ([Operand.ref a, Operand.ref b].length - 0) = [0, 1] from rfl]
  rw [mapM_cons, mapM_cons, arg_ref rfl, arg_ref rfl, ha, hb]
  have hbool : intBinary .iNotEqual x y width = .ok (.bool (x != y)) := if_neg hw
  show (intBinary .iNotEqual x y width >>= fun v => pure (Flow.next (some v) store)) = _
  rw [hbool]
  rfl

theorem execute_copy (ha : env.value locals a = .ok v) :
    env.execute locals store ⟨.copyObject, some type, some r, [.ref a]⟩ =
      .ok (.next (some v) store) := by
  unfold execute
  rw [arg_ref rfl, ha]
  rfl

/-- A new variable of the work-item. -/
theorem execute_variable {operands : List Operand}
    (ht : env.program.types[type]? = some (.pointer storage pointee))
    (hsize : env.program.sizeOf pointee = .ok size) :
    env.execute locals store ⟨.variableDecl, some type, some r, operands⟩ =
      .ok (.next (some (.pointer ⟨.perItem store.itemVars.size, 0, pointee⟩))
        { store with itemVars := store.itemVars.push (Array.replicate size 0) }) := by
  unfold execute
  dsimp only [resultTypeOf, bind, Except.bind]
  rw [Program.pointee_of ht]
  dsimp only
  rw [hsize]
  rfl

/-- A value stored in a variable of the work-item. -/
theorem execute_storeVar {slot : Nat} {bytes : Array UInt8}
    (ha : env.value locals a = .ok (.pointer ⟨.perItem slot, 0, pointee⟩))
    (hb : env.value locals b = .ok v) (hv : encode v = .ok image)
    (hs : store.itemVars[slot]? = some bytes) (hlen : image.length ≤ bytes.size) :
    env.execute locals store ⟨.store, none, none, [.ref a, .ref b]⟩ =
      .ok (.next none { store with
        itemVars := store.itemVars.setIfInBounds slot (Heap.overwrite bytes 0 image) }) := by
  unfold execute
  rw [arg_ref rfl, arg_ref rfl, ha, hb]
  dsimp only [bind, Except.bind, Value.asPointer]
  rw [hv]
  dsimp only [Store.write]
  rw [hs]
  dsimp only [writeVar]
  rw [if_pos (by omega)]
  rfl

end Env

end KernelForge.Device
