import KernelForge.Device.Simulator
import KernelForge.Proofs.Execution.Steps
import KernelForge.Proofs.Runs
import KernelForge.Proofs.Tables

/-!
# What a device has given out

A device gives out blocks of memory, kernels and command lists, and takes each back when it is
released. `Simulator.GivesOut` says exactly what is out. Recording and running commands, kernels
included, changes nothing of it; each of the actions that give out or take back changes it by one
resource.
-/

namespace KernelForge

open List hiding get modify

/-! ## Runs, successful or not -/

section Along

variable {ε σ α β : Type} {x : EStateM ε σ α} {s s' : σ}

/-- The state a run ends in, whether it succeeds or fails. -/
def after (x : EStateM ε σ α) (s : σ) : σ :=
  match x s with
  | .ok _ s' => s'
  | .error _ s' => s'

/-- Relations that the parts of a run can be put together along. -/
class Chain (R : σ → σ → Prop) : Prop where
  refl : ∀ s, R s s
  trans : ∀ {s s' s''}, R s s' → R s' s'' → R s s''

/-- Every run of a step leads to a related state. -/
def Along (R : σ → σ → Prop) (x : EStateM ε σ α) : Prop := ∀ s, R s (after x s)

theorem after_of_ok {a : α} (h : x s = .ok a s') : after x s = s' := by
  rw [after, h]

theorem after_of_error {e : ε} (h : x s = .error e s') : after x s = s' := by
  rw [after, h]

variable {f : α → EStateM ε σ β}

theorem after_bind_of_ok {a : α} (h : x s = .ok a s') : after (x >>= f) s = after (f a) s' := by
  rw [after, after, bind_of_ok h]

theorem after_bind_of_error {e : ε} (h : x s = .error e s') : after (x >>= f) s = s' := by
  rw [after, bind_of_error h]

namespace Along

variable {R : σ → σ → Prop} [Chain R] {x : EStateM ε σ α} {f : α → EStateM ε σ β}

theorem pure (a : α) : Along R (Pure.pure a : EStateM ε σ α) := fun s => Chain.refl s

theorem throw (e : ε) : Along R (MonadExcept.throw e : EStateM ε σ α) := fun s => Chain.refl s

theorem ofExcept (e : Except ε α) : Along R (MonadExcept.ofExcept e : EStateM ε σ α) := by
  cases e with
  | error e => exact throw e
  | ok a => exact pure a

theorem bind (hx : Along R x) (hf : ∀ a, Along R (f a)) : Along R (x >>= f) := by
  intro s
  have hfirst := hx s
  cases h : x s with
  | error =>
    rw [after_bind_of_error h]
    rwa [after_of_error h] at hfirst
  | ok a s' =>
    rw [after_bind_of_ok h]
    rw [after_of_ok h] at hfirst
    exact Chain.trans hfirst (hf a s')

theorem discard (hx : Along R x) : Along R (do let _ ← x) := hx.bind fun _ => pure _

omit [Chain R] in
/-- A step that looks at the state first. -/
theorem get {f : σ → EStateM ε σ β} (hf : ∀ s, R s (after (f s) s)) :
    Along R (MonadState.get >>= f) :=
  hf

omit [Chain R] in
theorem getThen {f : σ → EStateM ε σ β} (hf : ∀ s, Along R (f s)) :
    Along R (MonadState.get >>= f) :=
  fun s => hf s s

theorem tryCatch {handle : ε → EStateM ε σ α} (hx : Along R x) (hh : ∀ e, Along R (handle e)) :
    Along R (MonadExcept.tryCatch x handle) := by
  intro s
  have hfirst := hx s
  show R s (match EStateM.tryCatch x handle s with | .ok _ s' => s' | .error _ s' => s')
  unfold EStateM.tryCatch
  cases h : x s with
  | error e s' =>
    rw [after_of_error h] at hfirst
    exact Chain.trans hfirst (hh e s')
  | ok =>
    rw [after_of_ok h] at hfirst
    exact hfirst

variable {l : List α}

theorem forM {g : α → EStateM ε σ PUnit} (h : ∀ a ∈ l, Along R (g a)) : Along R (l.forM g) := by
  induction l with
  | nil => exact pure _
  | cons a l ih =>
    have hcons : Along R (g a >>= fun _ => l.forM g) :=
      (h a mem_cons_self).bind fun _ => ih fun a ha => h a (mem_cons_of_mem _ ha)
    exact hcons

theorem mapM (h : ∀ a ∈ l, Along R (f a)) : Along R (l.mapM f) := by
  induction l with
  | nil => exact pure _
  | cons a l ih =>
    rw [mapM_cons]
    refine (h a mem_cons_self).bind fun b => ?_
    exact (ih fun a ha => h a (mem_cons_of_mem _ ha)).bind fun bs => pure _

end Along

end Along

end KernelForge

namespace KernelForge.Device

open List hiding get modify
open Spirv (Id Instruction)

/-! ## Running a kernel keeps the blocks -/

/-- Heaps that differ in their bytes only. -/
structure Heap.SameExtent (h h' : Heap) : Prop where
  blocks : h'.blocks = h.blocks
  used : h'.used = h.used
  capacity : h'.capacity = h.capacity

namespace Heap.SameExtent

variable {h h' h'' : Heap}

theorem refl (h : Heap) : h.SameExtent h := ⟨rfl, rfl, rfl⟩

theorem trans (a : h.SameExtent h') (b : h'.SameExtent h'') : h.SameExtent h'' :=
  ⟨b.blocks.trans a.blocks, b.used.trans a.used, b.capacity.trans a.capacity⟩

end Heap.SameExtent

theorem Heap.size_overwrite (bytes : Array UInt8) (start : Nat) (data : List UInt8) :
    (overwrite bytes start data).size = bytes.size := by
  induction data generalizing bytes start with
  | nil => rfl
  | cons b rest ih =>
    rw [overwrite, ih]
    exact Array.size_setIfInBounds

variable {a size limit : Nat} {data : List UInt8}

variable {h h' : Heap}

theorem Heap.write_extent {address : Nat}
    (hw : h.write address data = .ok h') : h.SameExtent h' := by
  unfold Heap.write at hw
  split at hw
  · cases hw
    exact ⟨rfl, size_overwrite _ _ _, rfl⟩
  · cases hw

theorem Store.write_extent {s s' : Store} {p : Pointer}
    (h : s.write p data = .ok s') : s.heap.SameExtent s'.heap := by
  unfold Store.write at h
  split at h
  · obtain ⟨heap, hheap, h⟩ := except_bind_ok.1 h
    cases h
    exact Heap.write_extent hheap
  · split at h
    · obtain ⟨_, -, h⟩ := except_bind_ok.1 h
      cases h
      exact .refl _
    · cases h
  · split at h
    · obtain ⟨_, -, h⟩ := except_bind_ok.1 h
      cases h
      exact .refl _
    · cases h
  · cases h

namespace Env

variable {env : Env}

variable {i : Instruction}

theorem step_extent {s : State} {rest : List Instruction} {r : State ⊕ Store}
    (h : env.step s i rest = .ok r) : s.store.heap.SameExtent (r.elim State.store id).heap := by
  cases step_ok h with
  | next hflow =>
    rcases execute_leads hflow with hsame | ⟨_, _, hwrite⟩
    · exact ⟨congrArg Heap.blocks hsame, congrArg Heap.used hsame, congrArg Heap.capacity hsame⟩
    · exact Store.write_extent hwrite
  | jump | call | ret | done => exact .refl _

theorem run_extent (steps : Nat) (s : State) :
    s.store.heap.SameExtent (env.run steps s).1.heap := by
  induction steps generalizing s with
  | zero => exact .refl _
  | succ steps ih =>
    unfold run
    split
    · exact .refl _
    · split
      · exact .refl _
      · next h => exact step_extent h
      · next h => exact (step_extent h).trans (ih _)

end Env

namespace Program

section Starts

variable (p : Program) (entry : Id) (args : List Value) (range : Range)

inductive ItemStarts (group : Extent) : Nat → Nat → Store → WorkItem → Store → Prop
  | here {count position : Nat} {store : Store} :
    ItemStarts group (count + 1) position store
      (range.item group (range.perGroup.point position)) { store with itemVars := #[] }
  | later {count position : Nat} {store store' s : Store} {item : WorkItem}
    (hrun : p.runItem entry args (range.item group (range.perGroup.point position)) store =
      (store', none))
    (hrest : ItemStarts group count (position + 1) store' item s) :
    ItemStarts group (count + 1) position store item s

inductive GroupStarts : Nat → Nat → Heap → WorkItem → Store → Prop
  | here {count position : Nat} {heap : Heap} {vars : Std.TreeMap Id (Array UInt8)}
    {item : WorkItem} {s : Store} (hvars : p.groupStorage = .ok vars)
    (hitem : p.ItemStarts entry args range (range.groups.point position) range.perGroup.volume 0
      ⟨heap, vars, #[]⟩ item s) :
    GroupStarts (count + 1) position heap item s
  | later {count position : Nat} {heap heap' : Heap} {item : WorkItem} {s : Store}
    (hrun : p.runGroup entry args range (range.groups.point position) heap = (heap', none))
    (hrest : GroupStarts count (position + 1) heap' item s) :
    GroupStarts (count + 1) position heap item s

variable {p : Program} {entry : Id} {args : List Value} {range : Range} {Q : Heap → Prop}
  {item : WorkItem} {s : Store} {count position : Nat}

variable {group : Extent} {store : Store}

/-- What every started work-item keeps of the heap, every work-item starts with. -/
theorem ItemStarts.heap (h : p.ItemStarts entry args range group count position store item s)
    (hkeeps : ∀ item s, p.ItemStarts entry args range group count position store item s →
      Q s.heap → Q (p.runItem entry args item s).1.heap)
    (hq : Q store.heap) : Q s.heap := by
  induction h with
  | here => exact hq
  | later hrun _ ih =>
    refine ih (fun item s hs => hkeeps item s (.later hrun hs)) ?_
    have hfirst := hkeeps _ _ .here hq
    rwa [← congrArg (·.1.heap) hrun]

/-- What all work-items of a workgroup keep of the heap, the workgroup keeps. -/
theorem runItems_heap
    (hkeeps : ∀ item s, p.ItemStarts entry args range group count position store item s →
      Q s.heap → Q (p.runItem entry args item s).1.heap)
    (hq : Q store.heap) : Q (p.runItems entry args range group count position store).1.heap := by
  induction count generalizing position store with
  | zero => exact hq
  | succ count ih =>
    have hfirst : Q (p.runItem entry args (range.item group (range.perGroup.point position))
        store).1.heap := hkeeps _ { store with itemVars := #[] } .here hq
    unfold runItems
    split
    · next hrun =>
      rw [hrun] at hfirst
      exact ih (fun item s hs => hkeeps item s (.later hrun hs)) hfirst
    · next hrun =>
      rw [hrun] at hfirst
      exact hfirst

/-- The same for the workgroups of a launch. -/
theorem runGroup_heap {heap : Heap}
    (hkeeps : ∀ vars item s, p.groupStorage = .ok vars → p.ItemStarts entry args range group
      range.perGroup.volume 0 ⟨heap, vars, #[]⟩ item s →
      Q s.heap → Q (p.runItem entry args item s).1.heap)
    (hq : Q heap) : Q (p.runGroup entry args range group heap).1 := by
  unfold runGroup
  split
  · exact hq
  · next vars hvars => exact runItems_heap (fun item s => hkeeps vars item s hvars) hq

variable {start : Heap}
  (hkeeps : ∀ item s, p.GroupStarts entry args range count position start item s →
    Q s.heap → Q (p.runItem entry args item s).1.heap)

include hkeeps

theorem GroupStarts.heap (h : p.GroupStarts entry args range count position start item s)
    (hq : Q start) : Q s.heap := by
  induction h with
  | here hvars hitem =>
    exact hitem.heap (fun item s hs => hkeeps item s (.here hvars hs)) hq
  | later hrun _ ih =>
    refine ih (fun item s hs => hkeeps item s (.later hrun hs)) ?_
    have hfirst := runGroup_heap (fun _ item s hvars hs => hkeeps item s (.here hvars hs)) hq
    rwa [hrun] at hfirst

theorem runGroups_heap (hq : Q start) :
    Q (p.runGroups entry args range count position start).1 := by
  induction count generalizing position start with
  | zero => exact hq
  | succ count ih =>
    have hfirst := runGroup_heap (fun _ item s hvars hs => hkeeps item s (.here hvars hs)) hq
    unfold runGroups
    split
    · next hrun =>
      rw [hrun] at hfirst
      exact ih (fun item s hs => hkeeps item s (.later hrun hs)) hfirst
    · next hrun =>
      rw [hrun] at hfirst
      exact hfirst

end Starts

variable (p : Program) (entry : Id) (args : List Value) (range : Range)

theorem runItem_extent (item : WorkItem) (s : Store) :
    s.heap.SameExtent (p.runItem entry args item s).1.heap := by
  unfold runItem
  dsimp only
  split
  · exact .refl _
  · exact Env.run_extent stepLimit ⟨_, [], { s with itemVars := #[] }⟩

/-- A kernel writes bytes, and neither allocates nor frees. -/
theorem launch_extent (base frame : Nat) (heap : Heap) :
    heap.SameExtent (p.launch entry range base frame heap).1 := by
  unfold launch
  split
  · exact .refl _
  · exact runGroups_heap (fun item s _ hs => hs.trans (p.runItem_extent entry _ item s))
      (.refl heap)

end Program

/-! ## Resources -/

theorem Heap.size_resize (bytes : Array UInt8) (size : Nat) : (resize bytes size).size = size := by
  unfold resize
  split
  · rw [Array.size_extract]
    omega
  · rw [Array.size_append, Array.size_replicate]
    omega

/-- The next block starts right behind the bytes handed out. -/
theorem Heap.nextOffset_bounds (h : Heap) :
    h.used ≤ h.nextOffset ∧ h.nextOffset < h.used + alignment := by
  unfold nextOffset alignment
  omega

/-- Room for one more block: it ends within the capacity, and where bytes can still be counted. -/
def Heap.HasRoom (h : Heap) (size : Nat) : Prop :=
  h.nextStop size ≤ h.capacity ∧ h.nextStop size < Nat.pow 2 63

instance (h : Heap) (size : Nat) : Decidable (h.HasRoom size) := inferInstanceAs (Decidable (_ ∧ _))

/-- Only the room decides. -/
theorem Heap.allocate_cases (h : Heap) (size : Nat) :
    (¬h.HasRoom size ∧ ∃ fault, h.allocate size = .error fault) ∨
      h.HasRoom size ∧ h.allocate size = .ok (heapBase + h.nextOffset, { h with
        bytes := resize h.bytes (h.nextStop size)
        blocks := h.blocks.insert (heapBase + h.nextOffset) size }) := by
  unfold HasRoom allocate wordOr
  by_cases hword : h.nextStop size < Nat.pow 2 64
  · rw [if_pos hword]
    by_cases hfull : h.capacity < h.nextStop size
    · exact .inl ⟨fun hroom => Nat.not_lt.2 hroom.1 hfull, _, if_pos hfull⟩
    · by_cases hextent : Nat.pow 2 63 ≤ h.nextStop size
      · exact .inl
          ⟨fun hroom => Nat.not_lt.2 hextent hroom.2, _, (if_neg hfull).trans (if_pos hextent)⟩
      · exact .inr
          ⟨⟨Nat.not_lt.1 hfull, Nat.not_le.1 hextent⟩, (if_neg hfull).trans (if_neg hextent)⟩
  · rw [if_neg hword]
    exact .inl ⟨fun hroom => hword (Nat.lt_trans hroom.2 (by decide)), _, rfl⟩

/-- A block lies beyond all bytes handed out so far. -/
theorem Heap.allocate_ok (halloc : h.allocate size = .ok (a, h')) :
    h.HasRoom size ∧ a = heapBase + h.nextOffset ∧ h'.used = h.nextStop size ∧
      h'.capacity = h.capacity ∧ h'.blocks = h.blocks.insert a size ∧
      h'.bytes = resize h.bytes (h.nextStop size) := by
  rcases h.allocate_cases size with ⟨-, fault, herr⟩ | ⟨hroom, hok⟩
  · cases herr.symm.trans halloc
  · cases hok.symm.trans halloc
    exact ⟨hroom, rfl, size_resize _ _, rfl, rfl, rfl⟩

/-- What a device gives out. -/
inductive Resource where
  | block (address : Nat)
  | kernel (handle : Nat)
  | list (handle : Nat)
deriving DecidableEq, Repr

namespace Simulator

/-- The blocks, kernels and command lists that are out. -/
def resources (d : Simulator) : List Resource :=
  d.heap.blocks.keys.map .block ++ (d.kernels.keys.map .kernel ++ d.lists.keys.map .list)

/-- Exactly the listed resources are out, each once. Handles and addresses are given
out in ascending order, so the next one is new. -/
structure GivesOut (d : Simulator) (info : Info) (rs : List Resource) : Prop where
  about : d.info = info
  resources : d.resources.Perm rs
  nodup : rs.Nodup
  kernels : ∀ h, .kernel h ∈ rs → h ≤ d.lastHandle
  lists : ∀ h, .list h ∈ rs → h ≤ d.lastHandle
  blocks : ∀ a, .block a ∈ rs → a < heapBase + d.heap.used
  used : d.heap.used ≤ info.globalMemory
  capacity : d.heap.capacity = info.globalMemory

/-- Devices on which the same resources are out. -/
structure SameHoldings (d d' : Simulator) : Prop where
  about : d'.info = d.info
  heap : d.heap.SameExtent d'.heap
  kernels : d'.kernels.keys = d.kernels.keys
  lists : d'.lists.keys = d.lists.keys
  lastHandle : d'.lastHandle = d.lastHandle

instance : Chain SameHoldings where
  refl _ := ⟨rfl, .refl _, rfl, rfl, rfl⟩
  trans a b := ⟨b.about.trans a.about, a.heap.trans b.heap, b.kernels.trans a.kernels,
    b.lists.trans a.lists, b.lastHandle.trans a.lastHandle⟩

namespace GivesOut

variable {d d' : Simulator} {info : Info} {rs rs' : List Resource}

theorem perm (h : d.GivesOut info rs) (hp : rs.Perm rs') : d.GivesOut info rs' where
  about := h.about
  resources := h.resources.trans hp
  nodup := hp.nodup_iff.1 h.nodup
  kernels k hk := h.kernels k (hp.mem_iff.2 hk)
  lists l hl := h.lists l (hp.mem_iff.2 hl)
  blocks a ha := h.blocks a (hp.mem_iff.2 ha)
  used := h.used
  capacity := h.capacity

theorem same (h : d.GivesOut info rs) (hs : d.SameHoldings d') : d'.GivesOut info rs where
  about := hs.about.trans h.about
  resources := by
    rw [Simulator.resources, hs.heap.blocks, hs.kernels, hs.lists]
    exact h.resources
  nodup := h.nodup
  kernels k hk := hs.lastHandle ▸ h.kernels k hk
  lists l hl := hs.lastHandle ▸ h.lists l hl
  blocks a ha := hs.heap.used ▸ h.blocks a ha
  used := hs.heap.used ▸ h.used
  capacity := hs.heap.capacity.trans h.capacity

end GivesOut

/-- A device with nothing on it has given nothing out. -/
theorem givesOut_new (info : Info) (readings : List Nat) :
    { Simulator.new info with readings }.GivesOut info [] where
  about := rfl
  resources := .refl _
  nodup := nodup_nil
  kernels := nofun
  lists := nofun
  blocks := nofun
  used := Nat.zero_le _
  capacity := rfl

/-- A device with one more kernel. -/
def addKernel (d : Simulator) (k : Kernel) : Simulator :=
  { d with lastHandle := d.lastHandle + 1, kernels := d.kernels.insert (d.lastHandle + 1) k }

end Simulator

namespace Operate

open Simulator (SameHoldings)

variable {d : Simulator} {info : Info} {rs : List Resource}

/-! ## Actions that give nothing out -/

/-- An action that neither gives out nor takes back. -/
abbrev Idle {α : Type} (x : Operate α) : Prop := Along SameHoldings x

variable {α : Type}

theorem onHeap_run (f : Heap → Except Fault (α × Heap)) (d : Simulator) :
    onHeap f d = match f d.heap with
      | .error fault => .error (.execution fault) d
      | .ok (a, heap) => .ok a { d with heap } := by
  show (match f d.heap with
    | .error fault => (throw (Error.execution fault) : Operate α)
    | .ok (a, heap) => (do modify fun d : Simulator => { d with heap }; return a)) d = _
  rcases f d.heap with fault | ⟨a, heap⟩
  · rfl
  · rfl

theorem commands_run (list : Nat) (d : Simulator) :
    commands list d = match d.lists.get? list with
      | some cs => .ok cs d
      | none => .error (.execution (.unknownList list)) d := by
  show (match d.lists.get? list with
    | some cs => (return cs : Operate (List Command))
    | none => throw (Error.execution (.unknownList list))) d = _
  cases d.lists.get? list with
  | none | some => rfl

variable {list h : Nat}

/-- Looking at a list and then changing its commands. -/
theorem commands_bind_idle {f : List Command → Operate α}
    (hf : ∀ d cs, d.lists.get? list = some cs → SameHoldings d (after (f cs) d)) :
    Idle (commands list >>= f) := by
  intro d
  have hrun := commands_run list d
  cases h : d.lists.get? list with
  | none =>
    rw [h] at hrun
    rw [after_bind_of_error hrun]
    exact Chain.refl d
  | some cs =>
    rw [h] at hrun
    rw [after_bind_of_ok hrun]
    exact hf d cs h

theorem setCommands_same {cs cs' : List Command} (h : d.lists.get? list = some cs) :
    SameHoldings d { d with lists := d.lists.insert list cs' } :=
  ⟨rfl, .refl _, rfl, Table.keys_insert_of_some h, rfl⟩

theorem record_idle (list : Nat) (c : Command) : Idle (record list c) :=
  commands_bind_idle fun _ _ h => setCommands_same h

theorem launch_idle (list kernel : Nat) (range : Range) (base frame : Nat) :
    Idle (launch list kernel range base frame) := by
  refine .get fun d => ?_
  cases range.check d.info with
  | error => exact Chain.refl d
  | ok => exact record_idle list _ d

theorem newStamp_idle : Idle newStamp := fun _ => ⟨rfl, .refl _, rfl, rfl, rfl⟩

theorem newSink_idle : Idle newSink := fun _ => ⟨rfl, .refl _, rfl, rfl, rfl⟩

theorem takeSink_idle (cell : Nat) : Idle (takeSink cell) := fun _ => ⟨rfl, .refl _, rfl, rfl, rfl⟩

section Execute

variable {R : Simulator → Simulator → Prop} [Chain R]

variable (hheap : ∀ d heap, d.heap.SameExtent heap → R d { d with heap })

include hheap

/-- A relation that holds between devices whose memory has the same extent. -/
theorem onHeap_along
    {f : Heap → Except Fault (α × Heap)} (hf : ∀ h a h', f h = .ok (a, h') → h.SameExtent h') :
    Along R (onHeap f) := by
  intro d
  rw [after, onHeap_run]
  cases h : f d.heap with
  | error => exact Chain.refl d
  | ok => exact hheap d _ (hf _ _ _ h)

theorem runKernel_along (kernel : Nat) (range : Range) (base frame : Nat) :
    Along R (runKernel kernel range base frame) := by
  refine .get fun d => ?_
  cases d.kernels.get? kernel with
  | none => exact Chain.refl d
  | some k =>
    have hkept := k.program.launch_extent k.entry range base frame d.heap
    have hget : (get : Operate Simulator) d = .ok d d := rfl
    rw [after_bind_of_ok hget]
    generalize k.program.launch k.entry range base frame d.heap = r at hkept
    obtain ⟨heap, fault⟩ := r
    cases fault with
    | none | some => exact hheap d _ hkept

/-- A command changes memory within its extent, fills a cell or takes a time. -/
theorem execute_along
    (hsink : ∀ d cell bytes, R d { d with sinks := d.sinks.setIfInBounds cell bytes })
    (c : Command) (hstamp : ∀ cell, c = .stamp cell → Along R (execute c)) :
      Along R (execute c) := by
  cases c with
  | write address data =>
    unfold execute
    refine onHeap_along hheap fun h a h' heq => ?_
    obtain ⟨_, hw, heq⟩ := except_bind_ok.1 heq
    cases heq
    exact Heap.write_extent hw
  | read address length sink =>
    refine .bind (onHeap_along hheap fun h a h' heq => ?_) fun bytes d => hsink d sink bytes
    obtain ⟨_, -, heq⟩ := except_bind_ok.1 heq
    cases heq
    exact .refl _
  | launch kernel range base frame => exact runKernel_along hheap kernel range base frame
  | stamp cell => exact hstamp cell rfl
  | barrier => exact .pure ()

end Execute

theorem execute_idle (c : Command) : Idle (execute c) :=
  execute_along (fun _ _ h => ⟨rfl, h, rfl, rfl, rfl⟩) (fun _ _ _ => ⟨rfl, .refl _, rfl, rfl, rfl⟩)
    c fun _ h => h ▸ fun _ => ⟨rfl, .refl _, rfl, rfl, rfl⟩

/-- Running a command list gives nothing out and takes nothing back. -/
theorem flush_idle (list : Nat) : Idle (flush list) := by
  refine commands_bind_idle fun d cs h => ?_
  have hrun : Idle (cs.forM execute) := .forM fun c _ => execute_idle c
  exact Chain.trans (setCommands_same h) (hrun _)

/-! ## Giving out -/

variable {r : Resource} {binary : List UInt8}

variable {d' : Simulator}

/-- A new resource is put in front of those that are out. -/
theorem givesOut_cons (hd : d.GivesOut info rs) (habout : d'.info = d.info)
    (hr : d'.resources.Perm (r :: d.resources)) (hlast : d.lastHandle ≤ d'.lastHandle)
    (hused : d.heap.used ≤ d'.heap.used) (hcapacity : d'.heap.capacity = d.heap.capacity)
    (hfits : d'.heap.used ≤ info.globalMemory) (hnew : match r with
      | .block a => heapBase + d.heap.used ≤ a ∧ a < heapBase + d'.heap.used
      | .kernel h | .list h => d.lastHandle < h ∧ h ≤ d'.lastHandle) :
    d'.GivesOut info (r :: rs) where
  about := habout.trans hd.about
  resources := hr.trans (hd.resources.cons r)
  nodup := by
    refine nodup_cons.2 ⟨fun hmem => ?_, hd.nodup⟩
    cases r with
    | block a =>
      have hlt := hd.blocks a hmem
      omega
    | kernel h =>
      have hle := hd.kernels h hmem
      omega
    | list h =>
      have hle := hd.lists h hmem
      omega
  kernels h hmem := by
    rcases mem_cons.1 hmem with rfl | hmem
    · exact hnew.2
    · exact Nat.le_trans (hd.kernels h hmem) hlast
  lists h hmem := by
    rcases mem_cons.1 hmem with rfl | hmem
    · exact hnew.2
    · exact Nat.le_trans (hd.lists h hmem) hlast
  blocks a hmem := by
    rcases mem_cons.1 hmem with rfl | hmem
    · exact hnew.2
    · have hlt := hd.blocks a hmem
      omega
  used := hfits
  capacity := hcapacity.trans hd.capacity

theorem mem_resources_iff (hd : d.GivesOut info rs) : r ∈ d.resources ↔ r ∈ rs :=
  hd.resources.mem_iff

theorem block_mem_iff : .block a ∈ d.resources ↔ a ∈ d.heap.blocks.keys := by
  simp [Simulator.resources]

theorem kernel_mem_iff : .kernel h ∈ d.resources ↔ h ∈ d.kernels.keys := by
  simp [Simulator.resources]

theorem list_mem_iff : .list h ∈ d.resources ↔ h ∈ d.lists.keys := by
  simp [Simulator.resources]

/-- A new block starts where nothing was given out before. -/
theorem allocate_gives (hd : d.GivesOut info rs) (size : Nat) :
    (∃ e, allocate size d = .error e d) ∨
      ∃ a d', allocate size d = .ok a d' ∧ d'.GivesOut info (.block a :: rs) := by
  have hrun : allocate size d = _ := onHeap_run (·.allocate size) d
  cases h : d.heap.allocate size with
  | error =>
    simp only [h] at hrun
    exact .inl ⟨_, hrun⟩
  | ok r =>
    obtain ⟨a, heap⟩ := r
    simp only [h] at hrun
    have hnext := d.heap.nextOffset_bounds
    obtain ⟨hroom, rfl, hafter, hcapacity, hblocks, -⟩ := Heap.allocate_ok h
    have hstop : d.heap.nextStop size = d.heap.nextOffset + max size 1 := rfl
    refine .inr ⟨_, _, hrun, ?_⟩
    have hnew : d.heap.blocks.get? (heapBase + d.heap.nextOffset) = none := by
      refine Table.get?_eq_none_of_not_mem_keys fun hmem => ?_
      have hlt := hd.blocks _ ((mem_resources_iff hd).1 (block_mem_iff.2 hmem))
      omega
    refine givesOut_cons hd rfl ?_ (Nat.le_refl _) (by show _ ≤ heap.used; omega) hcapacity
      (Nat.le_trans (Nat.le_of_eq hafter) (hd.capacity ▸ hroom.1))
      ⟨by omega, by show _ < heapBase + heap.used; omega⟩
    show (heap.blocks.keys.map _ ++ _).Perm _
    rw [hblocks, Table.keys_insert_of_none hnew, map_append, append_assoc]
    exact perm_middle

theorem createQueue_gives (hd : d.GivesOut info rs) :
    ∃ list d', createQueue d = .ok list d' ∧ d'.GivesOut info (.list list :: rs) := by
  refine ⟨d.lastHandle + 1, { d with
    lastHandle := d.lastHandle + 1, lists := d.lists.insert (d.lastHandle + 1) [] }, rfl, ?_⟩
  have hnew : d.lists.get? (d.lastHandle + 1) = none := by
    refine Table.get?_eq_none_of_not_mem_keys fun hmem => ?_
    have hle := hd.lists _ ((mem_resources_iff hd).1 (list_mem_iff.2 hmem))
    omega
  refine givesOut_cons hd rfl ?_ (Nat.le_succ _) (Nat.le_refl _) rfl hd.used
    ⟨Nat.lt_succ_self _, Nat.le_refl _⟩
  show (_ ++ (_ ++ (Table.insert _ _ _).keys.map _)).Perm _
  rw [Table.keys_insert_of_none hnew, map_append, ← append_assoc, ← append_assoc,
    append_assoc _ _ (List.map _ d.lists.keys)]
  exact perm_append_singleton _ _

variable {entry : String}

theorem install_error {e : Error}
    (h : build binary entry = .error e) : install binary entry d = .error e d := by
  show (ofExcept (build binary entry) >>= _ : Operate Nat) d = _
  rw [h]
  rfl

theorem install_ok {program : Program} {main : Spirv.Id}
    (h : build binary entry = .ok (program, main)) :
    install binary entry d = .ok (d.lastHandle + 1) (d.addKernel ⟨entry, main, program⟩) := by
  show (ofExcept (build binary entry) >>= _ : Operate Nat) d = _
  rw [h]
  rfl

theorem install_gives (binary : List UInt8) (entry : String) (hd : d.GivesOut info rs) :
    (∃ e, build binary entry = .error e ∧ install binary entry d = .error e d) ∨
      ∃ h d', install binary entry d = .ok h d' ∧ d'.GivesOut info (.kernel h :: rs) := by
  cases hb : build binary entry with
  | error e => exact .inl ⟨e, rfl, install_error hb⟩
  | ok r =>
    refine .inr ⟨_, _, install_ok hb, ?_⟩
    have hnew : d.kernels.get? (d.lastHandle + 1) = none := by
      refine Table.get?_eq_none_of_not_mem_keys fun hmem => ?_
      have hle := hd.kernels _ ((mem_resources_iff hd).1 (kernel_mem_iff.2 hmem))
      omega
    refine givesOut_cons hd rfl ?_ (Nat.le_succ _) (Nat.le_refl _) rfl hd.used
      ⟨Nat.lt_succ_self _, Nat.le_refl _⟩
    show (_ ++ ((Table.insert _ _ _).keys.map _ ++ _)).Perm _
    rw [Table.keys_insert_of_none hnew, map_append, append_assoc, ← append_assoc]
    exact perm_middle.trans (by rw [append_assoc]; exact .refl _)

/-! ## Taking back -/

/-- Take a resource back. -/
def release : Resource → Operate Unit
  | .block a => free a
  | .kernel h => releaseKernel h
  | .list h => destroyQueue h

theorem releaseKernel_eq (kernel : Nat) (d : Simulator) : releaseKernel kernel d =
    if d.kernels.contains kernel then .ok () { d with kernels := d.kernels.erase kernel }
    else .error (.unknownKernel (.handle kernel)) d := by
  show (if d.kernels.contains kernel then _ else _ : Operate Unit) d = _
  split <;> rfl

/-- What is left when the first resource is taken back. -/
theorem givesOut_tail (hd : d.GivesOut info (r :: rs)) (habout : d'.info = d.info)
    (hr : (r :: d'.resources).Perm d.resources) (hlast : d'.lastHandle = d.lastHandle)
    (hused : d'.heap.used = d.heap.used) (hcapacity : d'.heap.capacity = d.heap.capacity) :
    d'.GivesOut info rs where
  about := habout.trans hd.about
  resources := (hr.trans hd.resources).cons_inv
  nodup := (nodup_cons.1 hd.nodup).2
  kernels h hmem := hlast ▸ hd.kernels h (mem_cons_of_mem _ hmem)
  lists h hmem := hlast ▸ hd.lists h (mem_cons_of_mem _ hmem)
  blocks a hmem := hused ▸ hd.blocks a (mem_cons_of_mem _ hmem)
  used := hused ▸ hd.used
  capacity := hcapacity.trans hd.capacity

/-- What is out can be taken back. -/
theorem release_takes (hd : d.GivesOut info (r :: rs)) :
    ∃ d', release r d = .ok () d' ∧ d'.GivesOut info rs := by
  have hmem : r ∈ d.resources := (mem_resources_iff hd).2 mem_cons_self
  cases r with
  | block a =>
    obtain ⟨size, hsize⟩ := Table.mem_keys_iff.1 (block_mem_iff.1 hmem)
    refine ⟨{ d with heap := { d.heap with blocks := d.heap.blocks.erase a } }, ?_, ?_⟩
    · have hfree : d.heap.free? a = some { d.heap with blocks := d.heap.blocks.erase a } := by
        rw [Heap.free?, Table.contains, hsize]
        rfl
      simp only [release, free, get_bind, hfree]
      rfl
    · refine givesOut_tail hd rfl ?_ rfl rfl rfl
      show (Resource.block a :: ((Table.erase _ _).keys.map _ ++ _)).Perm _
      exact ((Table.keys_erase_perm hsize).map _).append_right _
  | kernel h =>
    obtain ⟨k, hk⟩ := Table.mem_keys_iff.1 (kernel_mem_iff.1 hmem)
    refine ⟨{ d with kernels := d.kernels.erase h }, ?_, ?_⟩
    · show (if d.kernels.contains h then
          (modify fun d : Simulator => { d with kernels := d.kernels.erase h } : Operate Unit)
        else throw (.unknownKernel (.handle h))) d = _
      rw [Table.contains, hk]
      rfl
    · refine givesOut_tail hd rfl ?_ rfl rfl rfl
      refine perm_middle.symm.trans (.append_left _ ?_)
      exact ((Table.keys_erase_perm hk).map _).append_right _
  | list h =>
    obtain ⟨cs, hcs⟩ := Table.mem_keys_iff.1 (list_mem_iff.1 hmem)
    refine ⟨{ d with lists := d.lists.erase h }, ?_, ?_⟩
    · have hrun := commands_run h d
      rw [hcs] at hrun
      exact bind_of_ok hrun
    · refine givesOut_tail hd rfl ?_ rfl rfl rfl
      refine perm_middle.symm.trans (.append_left _ ?_)
      refine perm_middle.symm.trans (.append_left _ ?_)
      exact (Table.keys_erase_perm hcs).map _

/-- Resources are taken back one after another. -/
theorem releaseAll_takes {back : List Resource} (hd : d.GivesOut info (back ++ rs)) :
    ∃ d', back.forM release d = .ok () d' ∧ d'.GivesOut info rs := by
  induction back generalizing d with
  | nil => exact ⟨d, rfl, hd⟩
  | cons r back ih =>
    obtain ⟨d₁, hfirst, hd₁⟩ := release_takes hd
    obtain ⟨d₂, hrest, hd₂⟩ := ih hd₁
    exact ⟨d₂, (bind_of_ok hfirst).trans hrest, hd₂⟩

end Operate

end KernelForge.Device
