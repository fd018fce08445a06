import KernelForge.Proofs.Layout.Apart

/-!
# The declarations of a module under assembly

Between its header and its end, whatever an assembler does to the declarations of its session is a
chain of changes: this holds of every step inside a body and of every step around one. A session
under assembly is therefore coherent.
-/

namespace KernelForge.Codegen

open Spirv Build

/-- An assembler declares variables only with types that its session remembers. -/
def vetted (op : Opcode) (_ : Id) : Prop := op ≠ .variableDecl

variable {s₀ : Session}

theorem place_around {i : Instruction} (hi : isInner i.opcode = true) :
    Preserves (s₀.Changes vetted []) (place i) := fun _ _ _ h hs =>
  hs.tail (.aside ((place_beside hi _).ok h))

instance : Session.Around (s₀.Changes vetted []) where
  fresh _ _ _ h hs := by
    cases modifyGet_ok.1 h
    exact hs.tail (.aside (fresh_beside _))
  typeOf _ _ _ _ h hs := hs.trans ((typeOf_asks _ _).ok h).1.changes
  constant _ _ _ _ _ h hs := hs.trans ((constant_asks _ _ _).ok h).1.changes
  pointerToType _ _ _ _ _ h hs := hs.trans ((pointerToType_asks _ nofun _).ok h).1.changes
  arrayOf _ _ _ _ _ h hs := hs.trans ((arrayOf_asks _ _ _).ok h).1.changes
  append _ _ _ _ h hs := hs.tail (.aside ((append_beside _ _).ok h))
  name _ _ := place_around rfl
  openBlock _ := place_around rfl
  terminate _ hop _ := place_around (isInner_of_isTerminator hop)
  functionType _ _ _ _ _ h hs := hs.trans ((functionType_asks (fun _ _ => nofun) _).ok h).1.changes
  globalVariable _ _ _ _ _ _ h hs := by
    cases modifyGet_ok.1 h
    exact hs.2.tail (.moduleVariable (.inl ⟨_, hs.1⟩))
  decorate _ _ _ := place_around rfl
  entryPoint _ := place_around rfl
  openFunction _ _ _ := place_around rfl
  param _ _ := place_around rfl
  closeFunction := place_around rfl

theorem headed_coherent (target : Target) : (Assemble.headed target).Coherent where
  declares := Assembler.headed_declares target
  ordered := ⟨List.nodup_nil, List.pairwise_singleton _ _, List.forall_mem_nil _⟩

end KernelForge.Codegen
