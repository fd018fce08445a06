import KernelForge.Proofs.Calling.Launch
import KernelForge.Proofs.Calling.Prologue

/-!
# Kernels receive their arguments

A launch copies its arguments into a frame; a kernel's first block reads its parameters from there.
So every work-item that starts with the arguments in the frame has them in its parameters when it
comes to the kernel's own code (`launch_binds`). A function has its storage by then if nothing in it
is void (`storage_made`). Work-items run one after another on one heap, and the frame is a part of
it: a kernel that writes there changes what later work-items receive (`frame_overwritten`).
-/

namespace KernelForge.Codegen

open Device (Program Env Store Value Heap WorkItem Range heapBase Operate)
open Host (Argument frameBytes Control)
open Spirv

/-- A work-item that calls a kernel runs its first block to the end. Each parameter then
holds its argument, and the heap is as it was. -/
def Binds (n : Names) (l : FunctionLayout) (args : List Argument) (env : Env) (entry : Id)
    (values : List Value) (store : Store) : Prop :=
  ∃ start locals store', env.begin entry values 0 none = .ok start ∧
    (∀ steps, env.run ((l.storage ++ l.binding).length + steps) ⟨start, [], store⟩ =
      env.run steps ⟨{ start with locals, rest := [⟨.branch, none, none, [.ref l.entry]⟩] }, [],
        store'⟩) ∧
    store'.heap = store.heap ∧
    ∀ (j : Nat) param arg, n.scope.function.params[j]? = some param → args[j]? = some arg →
      n.Holds locals store' param.var (arg.valueAt param.kind)

/-- A launch on a heap gives the arguments in a frame to its work-items: to each one that
starts while they stand there, so to all of them if each leaves them there. -/
structure Passes (n : Names) (l : FunctionLayout) (args : List Argument) (k : Device.Kernel)
    (range : Range) (address : Nat) (heap : Heap) : Prop where
  binds : ∀ values item s,
    k.program.Starts k.entry range heapBase (address - heapBase) heap values item s →
    s.heap.Holds address (frameBytes args) → Binds n l args ⟨k.program, item⟩ k.entry values s
  bindsAll : (∀ values item s,
      k.program.Starts k.entry range heapBase (address - heapBase) heap values item s →
      s.heap.Holds address (frameBytes args) →
      (k.program.runItem k.entry values item s).1.heap.Holds address (frameBytes args)) →
    ∀ values item s,
      k.program.Starts k.entry range heapBase (address - heapBase) heap values item s →
      Binds n l args ⟨k.program, item⟩ k.entry values s

section Kernel

variable {n : Names} {id : Id} {l : FunctionLayout} {e : Function} {p : Program}
  {args : List Argument} {address : Nat}

def slotWord (args : List Argument) (slot : Nat) : Nat :=
  ((args[slot - reservedSlots]?).map Argument.slot).getD 0

/-- An emitted kernel binds its parameters to the arguments of a frame. -/
theorem Owned.binds (h : Owned n id l e) (hn : n.Known p)
    (hk : n.scope.function.role = .kernel) (hparams : n.scope.function.paramVars.Nodup)
    (hf : Storable n.scope.settings n.scope.function) (hp : p.functions[id]? = some (.of e.asRead))
    (hlength : args.length = n.scope.function.params.length)
    (hfits : ∀ (j : Nat) arg param, args[j]? = some arg →
      n.scope.function.params[j]? = some param → arg.Fits param.kind)
    {store : Store} (hsize : heapBase + store.heap.used ≤ Nat.pow 2 64)
    (hheap : store.heap.Holds address (frameBytes args)) {values : List Value}
    (hvalues : p.entryArgs id heapBase (address - heapBase) = .ok values) (item : WorkItem) :
    Binds n l args ⟨p, item⟩ id values store := by
  obtain ⟨⟨hbase, hbound⟩, -⟩ := Heap.holds_iff.1 hheap
  unfold Heap.used at hsize
  rw [Host.length_frameBytes, hlength] at hbound
  -- the frame stands where the kernel is told, and its slots are words
  have hplace : heapBase + (address - heapBase) = address := by omega
  have hslot : ∀ (j : Nat) arg, args[j]? = some arg → arg.slot < Nat.pow 2 64 := by
    intro j arg harg
    have hj : j < n.scope.function.params.length := hlength ▸ (List.getElem?_eq_some_iff.1 harg).1
    exact (hfits j arg _ harg (List.getElem?_eq_getElem hj)).slot_lt
  have hslots : Running.HoldsSlots store.heap (heapBase + (address - heapBase)) reservedSlots
      n.scope.function.params.length (slotWord args) := by
    refine ⟨by omega, fun i hle hlt => ?_⟩
    have hj : i - reservedSlots < args.length := by omega
    have harg := List.getElem?_eq_getElem hj
    have hslotted := Host.holds_slot hheap harg
    rw [Nat.add_sub_cancel' hle] at hslotted
    rw [slotWord, harg, hplace]
    exact ⟨hslot _ _ harg, hslotted⟩
  have hn : n.Known (Env.mk p item).program := hn
  obtain ⟨values', start, locals, store', hargs, hbegin, hrest, hrun, hkept, hholds⟩ :=
    h.prologue_runs hn hk hparams hf hp hslots
  cases hargs.symm.trans hvalues
  refine ⟨start, locals, store', hbegin, fun steps => hrun.run hrest steps, hkept, ?_⟩
  intro j param arg hparam harg
  obtain ⟨x, hx, hbound⟩ := hholds j param hparam
  rw [slotWord, Nat.add_sub_cancel_left, harg] at hx
  cases hx.symm.trans (Argument.ofSlot_slot (hfits j arg param harg hparam))
  exact hbound

/-- Arguments stand in the frame once they were copied there. -/
theorem copied_holds {d₀ d₁ : Device.Simulator} {u : PUnit} {data : List UInt8}
    (h : [.write address data, .barrier].forM Operate.execute d₀ = .ok u d₁) :
    d₁.heap.Holds address data := by
  obtain ⟨_, d, hwrite, h⟩ := bind_ok.1 h
  obtain ⟨_, d', hbarrier, h⟩ := bind_ok.1 h
  obtain ⟨-, rfl⟩ := pure_ok.1 hbarrier
  obtain ⟨-, rfl⟩ := pure_ok.1 h
  have hrun := Operate.onHeap_run (fun h => (h.write address data).map ((), ·)) d₀
  cases hheap : d₀.heap.write address data with
  | error =>
    rw [hheap] at hrun
    cases hrun.symm.trans hwrite
  | ok =>
    rw [hheap] at hrun
    cases hrun.symm.trans hwrite
    exact Heap.holds_write hheap

end Kernel

/-- **launch_binds**: a launch of a kernel of an assembled module is recorded as a copy of its
arguments and a run of the kernel. Where a device does so, with the kernel that was built from the
module, every work-item that starts with the arguments in the frame has them in its parameters. -/
theorem launch_binds {m : Lir.Module} {target : Target} {settings : CodegenSettings}
    {binary : Binary} (h : assemble m target settings = .ok binary)
    (hread : readsBack m target settings = true) {i : Nat} {f : Lir.Function}
    (hf : m.functions[i]? = some f)
    (hlast : ∀ (j : Nat) g, i < j → m.functions[j]? = some g → g.name ≠ f.name)
    (hk : f.isKernel = true) (hd : f.Distinct) (hs : Storable settings f) {args : List Argument}
    (hlength : args.length = f.params.length)
    (hfits : ∀ (j : Nat) arg param, args[j]? = some arg → f.params[j]? = some param →
      arg.Fits param.kind)
    {plan device thread : Nat} {key : String} {range : Range} {index : Nat} {c c' : Host.Context}
    (hlaunch : Control.launch plan device thread key range args c = .ok index c') :
    ∃ a e n l, Assemble.wholeModule m (Assembler.new m.name target settings) = .ok binary a ∧
      a.session.draft.finish.functions[i]? = some e ∧ n.scope.function = f ∧
      FunctionCode n (a.idOf f.name) l e ∧
      ∃ kernel list address d before start stop,
        (c.share plan device).kernels.getKey? key = some kernel ∧
        (c'.queues plan).get? device thread = some list ∧ c'.devices[device]? = some d ∧
        d.lists.get? list =
          some (before ++ [.stamp start, .write address (frameBytes args), .barrier,
          .launch kernel.handle range heapBase (address - heapBase), .stamp stop]) ∧
        ∀ d₀ d₁ k,
          [.write address (frameBytes args), .barrier].forM Operate.execute d₀ = .ok () d₁ →
          d₁.kernels.get? kernel.handle = some k →
          Operate.build binary.bytes f.name = .ok (k.program, k.entry) →
          heapBase + d₁.heap.used ≤ Nat.pow 2 64 →
          d₁.heap.Holds address (frameBytes args) ∧ Passes n l args k range address d₁.heap := by
  obtain ⟨a, p, hrun, hdone, hloaded, hp⟩ := assemble_completed h hread
  obtain ⟨e, he, -⟩ := hdone.function_at hf
  obtain ⟨n, l, rfl, hsettings, hsees, howned⟩ := hdone.code i f e hf he hd
  obtain ⟨kernel, list, address, d, before, start, stop, hkernel, hqueue, hdevice, hlist⟩ :=
    Control.launch_records hlaunch
  refine ⟨a, e, n, l, hrun, he, rfl, howned.toFunctionCode, kernel, list, address, d, before, start,
    stop, hkernel, hqueue, hdevice, hlist, fun d₀ d₁ k hwrite hget hbuild hsize => ?_⟩
  have hheap := copied_holds hwrite
  -- the kernel that was built is the emitted one
  have hmem := List.mem_filter.2 ⟨List.mem_of_getElem? hf, hk⟩
  have hbuilt := Operate.build_ok (Spirv.wordsOfBytes?_bytesOfWords binary.words) hp
    (Program.entry?_kernel hloaded.entries hmem)
  obtain ⟨name, entry, program⟩ := k
  obtain ⟨rfl, rfl⟩ := Prod.mk.inj (Except.ok.inj (hbuild.symm.trans hbuilt))
  have hbinds : ∀ values item s,
      program.Starts (a.idOf n.scope.function.name) range heapBase (address - heapBase)
        d₁.heap values
        item s → s.heap.Holds address (frameBytes args) →
      Binds n l args ⟨program, item⟩ (a.idOf n.scope.function.name) values s := by
    intro values item s hstarts hholds
    refine howned.binds ⟨a.session, hsees, hdone.loads.declares, hloaded.evaluated⟩
      (eq_of_beq hk) (List.nodup_append.1 hd.assigned).1 ?_
      (hloaded.functions i _ e hf hlast he) hlength hfits ?_ hholds hstarts.called item
    · rw [hsettings, hdone.settings]
      exact hs
    · rw [hstarts.extent.used]
      exact hsize
  refine ⟨hheap, hbinds, fun hkeeps values item s hstarts => ?_⟩
  refine hbinds values item s hstarts
    (hstarts.started.heap (Q := fun heap => heap.Holds address (frameBytes args)) ?_ hheap)
  intro item' s' hs'
  exact hkeeps values item' s' ⟨hstarts.called, hs'⟩

/-- A kernel that stores its parameters. -/
def mixing : Lir.Function :=
  ⟨"mix", .kernel, [⟨⟨0⟩, .ptr, none⟩, ⟨⟨1⟩, .i8, none⟩, ⟨⟨2⟩, .f16, none⟩, ⟨⟨3⟩, .f32, none⟩,
      ⟨⟨4⟩, .bool, none⟩], .void, [], [],
    [⟨⟨0⟩, [.store (.heap ⟨0⟩ none) (.var ⟨1⟩),
      .store (.heap ⟨0⟩ (some (.const ⟨"1", .i64⟩))) (.var ⟨4⟩),
      .store (.heap ⟨0⟩ (some (.const ⟨"2", .i64⟩))) (.var ⟨2⟩),
      .store (.heap ⟨0⟩ (some (.const ⟨"4", .i64⟩))) (.var ⟨3⟩)], .ret none⟩]⟩

/-- Arguments for it: -2, 1, a number of 32 bits and true. -/
def mixed (address : Nat) : List Argument :=
  [.buffer address, .int (-2), .f16 0x3f800000, .f32 0xc0490fdb, .bool true]

theorem launch_binds_mixing :
    (Host.trial ⟨"m", [mixing]⟩ {} "mix" {} (List.replicate 8 0) mixed).toOption =
      some [254, 1, 0, 60, 219, 15, 73, 192] ∧
    ∃ binary c c' index, assemble ⟨"m", [mixing]⟩ {} {} = .ok binary ∧
      Control.launch 0 0 0 "m-mix" {} (mixed heapBase) c = .ok index c' ∧
      ∃ n id l e, n.scope.function = mixing ∧ FunctionCode n id l e ∧
        ∃ kernel address, (c.share 0 0).kernels.getKey? "m-mix" = some kernel ∧
          ∀ d₀ d₁ k,
            [.write address (frameBytes (mixed heapBase)), .barrier].forM Operate.execute d₀ =
              .ok () d₁ →
            d₁.kernels.get? kernel.handle = some k →
            Operate.build binary.bytes "mix" = .ok (k.program, k.entry) →
            heapBase + d₁.heap.used ≤ Nat.pow 2 64 →
            Passes n l (mixed heapBase) k {} address d₁.heap := by
  have hread : readsBack ⟨"m", [mixing]⟩ {} {} = true := by decide +kernel
  have hlaunched : (assemble ⟨"m", [mixing]⟩ {} {}).toOption.any (fun binary =>
      match (Control.installModule 0 0 "m" binary >>= fun _ =>
        Control.launch 0 0 0 "m-mix" {} (mixed heapBase)) {} with
      | .ok _ _ => true
      | .error _ _ => false) = true := by decide +kernel
  have hlast : ∀ (j : Nat) g, 0 < j → [mixing][j]? = some g → g.name ≠ mixing.name := by
    intro j g hj hg
    cases j with
    | zero => cases hj
    | succ => cases hg
  have hfits : ∀ (j : Nat) arg param, (mixed heapBase)[j]? = some arg →
      mixing.params[j]? = some param → arg.Fits param.kind := by
    intro j arg param harg hparam
    match j with
    | 0 => cases harg; cases hparam; exact .pointer (by decide)
    | 1 => cases harg; cases hparam; exact .i8 _
    | 2 => cases harg; cases hparam; exact .f16 (by decide)
    | 3 => cases harg; cases hparam; exact .f32 (by decide)
    | 4 => cases harg; cases hparam; exact .bool _
    | j + 5 => cases harg
  have hstorable : Storable {} mixing := ⟨by decide, by decide, by decide⟩
  refine ⟨by decide +kernel, ?_⟩
  cases hrun : assemble ⟨"m", [mixing]⟩ {} {} with
  | error =>
    rw [hrun] at hlaunched
    cases hlaunched
  | ok binary =>
    rw [hrun] at hlaunched
    dsimp only [Except.toOption, Option.any_some] at hlaunched
    split at hlaunched
    · next index c' hall =>
      obtain ⟨ks, c, -, hlaunch⟩ := bind_ok.1 hall
      obtain ⟨a, e, n, l, -, -, hn, hcode, kernel, list, address, d, before, start, stop, hkernel,
        -,
        -, -, hpasses⟩ := launch_binds hrun hread (i := 0) rfl hlast rfl ⟨by decide, by decide⟩
          hstorable rfl hfits hlaunch
      refine ⟨binary, c, c', index, rfl, hlaunch, n, _, l, e, hn, hcode, kernel, address,
        hkernel, ?_⟩
      intro d₀ d₁ k hwrite hget hbuild hsize
      exact (hpasses d₀ d₁ k hwrite hget hbuild hsize).2
    · cases hlaunched

/-- **storage_made**: a function whose arrays have elements and, in spill mode, whose values are not
void has storage of its own in every call: its variables are made without a fault, and each spilled
value has one of the size of its kind. -/
theorem storage_made {m : Lir.Module} {target : Target} {settings : CodegenSettings}
    {binary : Binary} (h : assemble m target settings = .ok binary)
    (hread : readsBack m target settings = true) {i : Nat} {f : Lir.Function}
    (hf : m.functions[i]? = some f) (hd : f.Distinct) (hs : Storable settings f) :
    ∃ a p e n l, Assemble.wholeModule m (Assembler.new m.name target settings) = .ok binary a ∧
      Program.ofWords binary.words = .ok p ∧ a.session.draft.finish.functions[i]? = some e ∧
      n.scope.function = f ∧ FunctionCode n (a.idOf f.name) l e ∧
      ∀ item locals store, (∀ j, j ∉ l.params.map Prod.snd → locals[j]? = none) →
        ∃ locals' store' place, Env.Runs ⟨p, item⟩ l.storage locals store locals' store' ∧
          Slotted n place locals' store' := by
  obtain ⟨a, p, hrun, hdone, hloaded, hp⟩ := assemble_completed h hread
  obtain ⟨e, he, -⟩ := hdone.function_at hf
  obtain ⟨n, l, rfl, hsettings, hsees, howned⟩ := hdone.code i f e hf he hd
  obtain ⟨entry, slots, -, -, hbody⟩ := howned.code
  refine ⟨a, p, e, n, l, hrun, hp, he, rfl, howned.toFunctionCode, ?_⟩
  intro item locals store hlocals
  have hn : n.Known (Env.mk p item).program :=
    ⟨a.session, hsees, hdone.loads.declares, hloaded.evaluated⟩
  rw [← hdone.settings, ← hsettings] at hs
  obtain ⟨locals', store', place, hruns, -, hslotted⟩ :=
    hbody.prologue.storage.runs hn store hs (howned.prologue_fresh hlocals).1.left
  exact ⟨locals', store', place, hruns, hslotted⟩

theorem storage_made_mixing : ∃ binary p n l,
    assemble ⟨"m", [mixing]⟩ {} { optimizeLoadStore := false } = .ok binary ∧
      Program.ofWords binary.words = .ok p ∧ n.scope.function = mixing ∧
      ∀ item store, ∃ locals' store' place,
        Env.Runs ⟨p, item⟩ l ∅ store locals' store' ∧ Slotted n place locals' store' := by
  have hread : readsBack ⟨"m", [mixing]⟩ {} { optimizeLoadStore := false } = true := by
    decide +kernel
  obtain ⟨binary, hrun⟩ := exists_of_isOk
    (show (assemble ⟨"m", [mixing]⟩ {} { optimizeLoadStore := false }).isOk by decide +kernel)
  obtain ⟨a, p, e, n, l, -, hp, -, hn, -, hruns⟩ := storage_made hrun hread (i := 0) rfl
    ⟨by decide, by decide⟩ ⟨by decide, by decide, by decide⟩
  exact ⟨binary, p, n, _, hrun, hp, hn, fun item store =>
    hruns item ∅ store fun _ _ => Std.TreeMap.getElem?_emptyc⟩

/-- A kernel that stores its argument for each work-item, then writes past its buffer. -/
def overwriting : Lir.Function :=
  ⟨"k", .kernel, [⟨⟨0⟩, .ptr, none⟩, ⟨⟨1⟩, .i32, none⟩], .void, [⟨⟨2⟩, .i64⟩, ⟨⟨3⟩, .i64⟩], [],
    [⟨⟨0⟩, [.threadId ⟨2⟩ .globalId 0, .binary ⟨3⟩ .mul (.var ⟨2⟩) (.const ⟨"4", .i64⟩),
      .store (.heap ⟨0⟩ (some (.var ⟨3⟩))) (.var ⟨1⟩),
      .store (.heap ⟨0⟩ (some (.const ⟨"96", .i64⟩))) (.const ⟨"7", .i32⟩)], .ret none⟩]⟩

/-- Both work-items are given 5. The first one overwrites the frame, and the second one reads 7. -/
theorem frame_overwritten :
    overwriting.StrictSSA ∧ (Host.trial ⟨"m", [overwriting]⟩ {} "k" (.line 2 1) (List.replicate 8 0)
      fun a => [.buffer a, .int 5]).toOption = some [5, 0, 0, 0, 7, 0, 0, 0] := by
  refine ⟨Lir.Function.strictSSA_of_isStrict (fun _ => []) ?_, ?_⟩ <;> decide +kernel

end KernelForge.Codegen
