import KernelForge.Proofs.Execution.Traps
import KernelForge.Proofs.Loading.Install

/-!
# Launches of assembled modules meet no trap

The program of an assembled module, read back as it was written, is safe: the session declares only
sound types and constants, and it hands out no type of arrays as the type of a result
(`Assembler.Loaded.safe`). So no launch of it meets a trap, and all its values stay sound.

That the words are read back as they were written is assumed: an instruction whose words cannot be
counted in 16 bits is read as others, which need not be sound.
-/

namespace KernelForge.Codegen

open List
open Device (Program Env)

variable {m : Lir.Module} {settings : CodegenSettings} {binary : Binary} {a : Assembler}
  {p : Program}

/-- The program of an assembled module is sound, and none of its results is an array. -/
theorem Assembler.Loaded.safe (h : a.Loaded m p) (hdone : a.Completed m settings binary) :
    p.Safe where
  toSound := h.evaluated.sound
  typed id f hf b hb i hi type htype element length harray := by
    obtain ⟨e, he, rfl⟩ := h.taken id f hf
    obtain ⟨b₁, hb₁, rfl⟩ := mem_map.1 hb
    obtain ⟨b₀, hb₀, rfl⟩ := mem_map.1 hb₁
    obtain ⟨i₀, hi₀, rfl⟩ := mem_map.1 hi
    have htype₀ : type ∈ i₀.resultType := by
      unfold Spirv.Instruction.asRead at htype
      split at htype <;> exact htype
    have hbody : i₀ ∈ a.session.draft.instructions := by
      have hfunction : i₀ ∈ e.instructions := by
        simp only [Spirv.Function.instructions, mem_append, mem_flatMap]
        exact .inl (.inr ⟨b₀, hb₀, mem_cons_of_mem _ hi₀⟩)
      simp only [Spirv.Draft.instructions, Spirv.Module.instructions, mem_append, mem_flatMap]
      exact .inl (.inl (.inr ⟨e, he, hfunction⟩))
    -- a type of arrays would have been declared, and declarations are instructions too
    refine hdone.typed i₀ hbody type htype₀ ?_
    obtain ⟨g, hg, hgt⟩ := mem_filterMap.1 (h.evaluated.arrays type element length harray)
    refine mem_filterMap.2 ⟨g, ?_, hgt⟩
    simp only [Spirv.Draft.instructions, Spirv.Module.instructions, mem_append]
    exact .inl (.inl (.inl (.inr hg)))

/-- **assembled_traps_never**: an assembled module, read back as it was written, has a program whose
launches meet no trap, whatever memory they start from; its constants are sound, and so are the
values of all calls in every state that a work-item passes through. -/
theorem assembled_traps_never {m : Lir.Module} {target : Target} {settings : CodegenSettings}
    {binary : Binary} (h : assemble m target settings = .ok binary)
    (hread : readsBack m target settings = true) :
    ∃ p, Program.ofWords binary.words = .ok p ∧
      (∀ (id : Spirv.Id) v, p.constants[id]? = some v → v.Sound) ∧
      ∀ entry range base frame, range.Words → base < Nat.pow 2 64 → frame < Nat.pow 2 64 →
        (∀ heap trap, (p.launch entry range base frame heap).2 ≠ some (.trapped trap)) ∧
        ∀ item ∈ range.items, ∀ args start store s, p.entryArgs entry base frame = .ok args →
          Env.begin ⟨p, item⟩ entry args 0 none = .ok start →
          Env.Passes ⟨p, item⟩ ⟨start, [], store⟩ s →
          ∀ f ∈ s.frame :: s.callers, ∀ (id : Spirv.Id) v, f.locals[id]? = some v → v.Sound := by
  obtain ⟨a, p, -, hdone, hloaded, hp⟩ := assemble_completed h hread
  have hsafe := hloaded.safe hdone
  refine ⟨p, hp, hsafe.constants, fun entry range base frame hr hbase hframe => ⟨?_, ?_⟩⟩
  · exact fun heap trap => Program.launch_free hsafe hr hbase hframe entry heap trap
  · intro item hitem args start store s hargs hstart hpasses f hf
    have hsound := (Program.entryArgs_free hsafe entry hbase hframe).of_ok hargs
    have hs := @Env.passes_sound ⟨p, item⟩ hsafe (hr.items hitem) _ _
      (Program.start_sound hsafe hsound hstart store) hpasses
    exact (hs f hf).locals

theorem assembled_traps_never_calling :
    ∃ binary p, assemble calling {} {} = .ok binary ∧ readsBack calling {} {} = true ∧
      Program.ofWords binary.words = .ok p ∧
      ∀ entry heap trap, (p.launch entry (.line 8 4) Device.heapBase 16 heap).2 ≠
        some (.trapped trap) := by
  have hread : readsBack calling {} {} = true := by decide +kernel
  have hrange : (Device.Range.line 8 4).Words := ⟨by decide, by decide⟩
  obtain ⟨binary, hrun⟩ : ∃ binary, assemble calling {} {} = .ok binary :=
    exists_of_isOk (by decide +kernel)
  obtain ⟨p, hp, -, hlaunch⟩ := assembled_traps_never hrun hread
  exact ⟨binary, p, hrun, hread, hp, fun entry =>
    (hlaunch entry _ _ _ hrange (by decide) (by decide)).1⟩

end KernelForge.Codegen
