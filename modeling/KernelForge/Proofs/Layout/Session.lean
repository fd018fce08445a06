import KernelForge.Proofs.Ledger.Session

/-!
# What a session declares and appends

A session never forgets a declaration, and each one it remembers stands among the globals of its
module in a form that depends on what was asked for and on nothing else (`Session.Declares`). A step
inside a function appends instructions to the open block and leaves the function otherwise alone
(`Session.Adds`). Both are told for every step of a session; later modules never open one.
-/

namespace KernelForge

namespace Codegen

open Lir (Kind)
open Spirv

/-- A later session of the same module. -/
structure Session.Grows (s s' : Session) : Prop extends Session.Sees s s' where
  declares : s.Declares → s'.Declares

namespace Session.Grows

variable {s s' s'' : Session}

theorem refl (s : Session) : s.Grows s := ⟨.refl s, id⟩

theorem trans (h : s.Grows s') (h' : s'.Grows s'') : s.Grows s'' :=
  ⟨h.toSees.trans h'.toSees, fun hd => h'.declares (h.declares hd)⟩

/-- Moving on with a draft that has no fewer declarations. -/
theorem withDraft {d : Draft} (h : s.draft.module.globals ⊆ d.module.globals) :
    s.Grows { s with draft := d } := by
  have hsees : s.Sees { s with draft := d } := { Sees.refl s with globals := h }
  exact ⟨hsees, fun hd => ⟨fun k id hk => hsees.typeDeclared (hd.types k id hk),
    fun type storage id hk => hsees.declared (hd.pointers type storage id hk),
    fun k length id hk => hsees.arrayDeclared (hd.arrays k length id hk),
    fun text k id hk => hsees.constantDeclared (hd.constants text k id hk)⟩⟩

end Session.Grows

/-! ## Steps inside a function -/

/-- A draft with more declarations and with instructions at the end of its open
block. -/
structure Appends (c : List Instruction) (d d' : Draft) : Prop where
  function : d'.function = d.function
  functions : d'.module.functions = d.module.functions
  block : d'.block = d.block.map fun b => { b with body := b.body ++ c }
  globals : d.module.globals ⊆ d'.module.globals
  entryPoints : d'.module.entryPoints = d.module.entryPoints

variable {i : Instruction}

namespace Appends

variable {c c' : List Instruction} {d d' d'' : Draft}

theorem refl (d : Draft) : Appends [] d d where
  function := rfl
  functions := rfl
  block := by simp
  globals := List.Subset.refl _
  entryPoints := rfl

theorem trans (h : Appends c d d') (h' : Appends c' d' d'') : Appends (c ++ c') d d'' where
  function := h'.function.trans h.function
  functions := h'.functions.trans h.functions
  block := by
    rw [h'.block, h.block]
    cases d.block <;> simp
  globals := List.Subset.trans h.globals h'.globals
  entryPoints := h'.entryPoints.trans h.entryPoints

theorem declare (d : Draft) (i : Instruction) (next : Id) :
    Appends [] d { d.declare i with next } where
  function := rfl
  functions := rfl
  block := by simp [Draft.declare, Draft.onModule]
  globals := List.subset_append_left _ _
  entryPoints := rfl

theorem append (h : d.append i = .ok d') : Appends [i] d d' := by
  unfold Draft.append at h
  cases hb : d.block with
  | none => simp [hb] at h
  | some =>
    simp only [hb, Except.ok.injEq] at h
    subst h
    exact ⟨rfl, rfl, by simp [hb], List.Subset.refl _, rfl⟩

end Appends

/-- A step that appends to the open block and changes no table. -/
structure Session.Kept (c : List Instruction) (s s' : Session) : Prop where
  draft : Appends c s.draft s'.draft
  types : s'.types = s.types
  pointers : s'.pointers = s.pointers
  arrays : s'.arrays = s.arrays
  constants : s'.constants = s.constants
  mathImport : s'.mathImport = s.mathImport

/-- A later session, with instructions appended to the open block. -/
structure Session.Adds (c : List Instruction) (s s' : Session) : Prop
    extends Session.Grows s s' where
  draft : Appends c s.draft s'.draft

variable {s s' s'' : Session} {c c' : List Instruction}

namespace Session.Kept

theorem refl (s : Session) : s.Kept [] s := ⟨.refl _, rfl, rfl, rfl, rfl, rfl⟩

theorem sees (h : s.Kept c s') : s.Sees s' where
  types k id hk := by rw [h.types, hk]
  pointers k id hk := by rw [h.pointers, hk]
  arrays k id hk := by rw [h.arrays, hk]
  constants k id hk := by rw [h.constants, hk]
  mathImport id hk := by rw [h.mathImport, hk]
  globals := h.draft.globals

theorem declares (h : s.Kept c s') (hd : s.Declares) : s'.Declares where
  types k id hk := h.sees.typeDeclared (hd.types k id (h.types ▸ hk))
  pointers type storage id hk := h.sees.declared (hd.pointers type storage id (h.pointers ▸ hk))
  arrays k length id hk := h.sees.arrayDeclared (hd.arrays k length id (h.arrays ▸ hk))
  constants text k id hk := h.sees.constantDeclared (hd.constants text k id (h.constants ▸ hk))

theorem adds (h : s.Kept c s') : s.Adds c s' := ⟨⟨h.sees, h.declares⟩, h.draft⟩

end Session.Kept

namespace Session.Adds

theorem refl (s : Session) : s.Adds [] s := (Kept.refl s).adds

theorem trans (h : s.Adds c s') (h' : s'.Adds c' s'') : s.Adds (c ++ c') s'' :=
  ⟨h.toGrows.trans h'.toGrows, h.draft.trans h'.draft⟩

variable {known : Opcode → Id → Prop}

/-- An answer to a request appends nothing. -/
theorem ofAnswer (h : Answer known s s') : s.Adds [] s' := by
  have hchange : Change known [] s s' := .answer h
  have hr := hchange.remembers
  refine ⟨⟨⟨hr.types, hr.pointers, hr.arrays, hr.constants, ?_, hr.globals.subset⟩,
    hchange.declares⟩, ?_⟩
  · intro id hid
    cases h <;> exact hid
  · cases h with
    | adopt =>
      unfold adopt Draft.declareType
      split
      · exact ⟨rfl, rfl, by simp [enable, Draft.onModule], List.Subset.refl _, rfl⟩
      · exact ⟨rfl, rfl, by simp [enable, Draft.declare, Draft.onModule],
          List.subset_append_left _ _, rfl⟩
    | constant => exact Appends.declare _ _ _
    | _ => exact Appends.refl _

theorem ofAnswers (h : s.Answers known s') : s.Adds [] s' := by
  induction h with
  | refl => exact refl s
  | tail _ h ih => exact ih.trans (ofAnswer h)

end Session.Adds

namespace Build

/-! ### Steps that change no table -/

/-- A step that appends nothing and changes no table. -/
def Quiet {α : Type} (x : Build α) : Prop := ∀ ⦃s a s'⦄, x s = .ok a s' → s.Kept [] s'

theorem fresh_quiet : Quiet fresh := by
  intro s id s' h
  cases modifyGet_ok.1 h
  exact ⟨⟨rfl, rfl, by simp [Draft.fresh], List.Subset.refl _, rfl⟩, rfl, rfl, rfl, rfl, rfl⟩

/-- Capabilities and names stand outside of functions. -/
theorem place_quiet (h : i.opcode = .capability ∨ i.opcode = .name) : Quiet (place i) := by
  intro s u s' hrun
  obtain ⟨d, hd, rfl⟩ := onDraft_ok hrun
  unfold Draft.place at hd
  rcases h with h | h <;>
  · simp only [h, Except.ok.injEq] at hd
    subst hd
    exact ⟨⟨rfl, rfl, by simp [Draft.onModule], List.Subset.refl _, rfl⟩, rfl, rfl, rfl, rfl, rfl⟩

variable {op : Opcode} {operands : List Operand} {id type : Id}

theorem declareValue_ok (h : declareValue op type operands s = .ok id s') :
    s.Kept [] s' ∧ ⟨op, some type, some id, operands⟩ ∈ s'.draft.module.globals := by
  have h := modifyGet_ok.1 h
  obtain ⟨rfl, rfl⟩ := h
  refine ⟨⟨.declare _ _ _, rfl, rfl, rfl, rfl, rfl⟩, ?_⟩
  simp [Draft.declare, Draft.onModule]

/-! ### Requests -/

/-- A request that succeeds is remembered, and appends nothing. -/
theorem Asks.adds {α : Type} {x : Build α} {found : Session → α → Session → Prop} {a : α}
    (h : Asks x (fun _ _ => True) found) (hrun : x s = .ok a s') : s.Adds [] s' ∧ found s a s' := by
  obtain ⟨hanswers, hfound⟩ := (h s).ok hrun
  exact ⟨.ofAnswers hanswers, hfound⟩

variable {k : Kind} {storage : StorageClass} {u : Unit}

/-- A session remembers the type of a kind it was asked for. -/
theorem typeOf_ok (h : typeOf k s = .ok id s') : s.Adds [] s' ∧ s'.types.get? k = some id :=
  ((typeOf_asks k).adds h).imp_right And.right

theorem pointerToType_ok {pointee : Id} (h : pointerToType pointee storage s = .ok id s') :
    s.Adds [] s' ∧ s'.pointers.get? (pointee, storage) = some id :=
  (pointerToType_asks storage trivial).adds h

/-- A session remembers the type of pointers it was asked for. -/
theorem pointerTo_ok (h : pointerTo k storage s = .ok id s') :
    s.Adds [] s' ∧ ∃ type, s'.types.get? k = some type ∧
      s'.pointers.get? (type, storage) = some id :=
  (pointerTo_asks k storage).adds h

theorem functionType_ok {ret : Id} {params : List Id}
    (h : functionType ret params s = .ok id s') : s.Adds [] s' :=
  ((functionType_asks fun _ _ => trivial).adds h).1

/-- A session remembers the constant it was asked for. -/
theorem constant_ok {text : String} (h : constant text k s = .ok id s') :
    s.Adds [] s' ∧ s'.constants.get? (text, k) = some id :=
  ((constant_asks text k).adds h).imp_right And.right

theorem arrayOf_ok {length : UInt32} (h : arrayOf k length s = .ok id s') :
    s.Adds [] s' ∧ s'.arrays.get? (k, length) = some id :=
  (arrayOf_asks k length).adds h

/-! ### Instructions -/

theorem append_ok (h : append i s = .ok u s') : s.Kept [i] s' := by
  obtain ⟨d, hd, rfl⟩ := onDraft_ok h
  exact ⟨.append hd, rfl, rfl, rfl, rfl, rfl⟩

theorem openBlock_ok (h : place ⟨.label, none, some id, []⟩ s = .ok u s') :
    s' = { s with draft := { s.draft with block := some ⟨⟨.label, none, some id, []⟩, []⟩ } } := by
  obtain ⟨d, hd, rfl⟩ := onDraft_ok h
  simp only [Draft.place, Draft.openBlock] at hd
  split at hd <;> cases hd
  rfl

/-- Terminators end the open block. -/
theorem terminate_ok (hop : op.isTerminator = true)
    (h : place ⟨op, none, none, operands⟩ s = .ok u s') :
    ∃ f b, s.draft.function = some f ∧ s.draft.block = some b ∧ s' = { s with draft :=
      { s.draft with
        function := some { f with
          blocks := f.blocks ++ [{ b with body := b.body ++ [⟨op, none, none, operands⟩] }] }
        block := none } } := by
  obtain ⟨d, hd, rfl⟩ := onDraft_ok h
  have hplace : s.draft.place ⟨op, none, none, operands⟩ =
      s.draft.terminate ⟨op, none, none, operands⟩ := by
    cases op <;> cases hop <;> rfl
  rw [hplace, Draft.terminate] at hd
  split at hd <;> cases hd
  exact ⟨_, _, ‹_›, ‹_›, rfl⟩

theorem emit_ok (h : emit op type operands s = .ok id s') :
    s.Adds [⟨op, some type, some id, operands⟩] s' := by
  obtain ⟨r, s₁, hfresh, h⟩ := bind_ok.1 h
  obtain ⟨_, s₂, happend, h⟩ := bind_ok.1 h
  obtain ⟨rfl, rfl⟩ := pure_ok.1 h
  exact (fresh_quiet hfresh).adds.trans (append_ok happend).adds

theorem importedSet_ok {set : Id} (h : importedSet s = .ok set s') :
    s.mathImport = some set ∧ s = s' := by
  replace h := get_bind_ok.1 h
  cases hm : s.mathImport with
  | none =>
    simp only [hm] at h
    exact absurd h throw_ok
  | some =>
    simp only [hm] at h
    obtain ⟨rfl, rfl⟩ := pure_ok.1 h
    exact ⟨rfl, rfl⟩

theorem emitMath_ok {given : Option Id} {number : Nat}
    (h : emitMath type given number operands s = .ok id s') :
    ∃ set, s'.mathImport = some set ∧ (∀ r ∈ given, r = id) ∧
      s.Adds [⟨.extInst, some type, some id, .ref set :: .extInst number :: operands⟩] s' := by
  obtain ⟨set, hset, h⟩ := look_ok importedSet_ok h
  cases given with
  | some =>
    obtain ⟨_, _, hpure, h⟩ := bind_ok.1 h
    obtain ⟨rfl, rfl⟩ := pure_ok.1 hpure
    obtain ⟨_, s₂, happend, h⟩ := bind_ok.1 h
    obtain ⟨rfl, rfl⟩ := pure_ok.1 h
    have hadds := (append_ok happend).adds
    exact ⟨set, hadds.mathImport _ hset, by simp, hadds⟩
  | none =>
    obtain ⟨r, s₂, hfresh, h⟩ := bind_ok.1 h
    obtain ⟨_, s₃, happend, h⟩ := bind_ok.1 h
    obtain ⟨rfl, rfl⟩ := pure_ok.1 h
    have hadds := (fresh_quiet hfresh).adds.trans (append_ok happend).adds
    exact ⟨set, hadds.mathImport _ hset, by simp, hadds⟩

end Build

end Codegen

end KernelForge
