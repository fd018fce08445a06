import KernelForge.Proofs.Calling.Frame
import KernelForge.Proofs.Queues.Running

/-!
# Memory after a run

Copies that stay inside the memory handed out cannot fail, so the memory and the cells after a run
of them can be told from the commands alone: the memory is the one in which each copy to the device
was made in turn (`Heap.replay`), and a cell holds what stood in memory when its read was reached.
-/

namespace KernelForge.Device

open List

/-! ## Bytes of a block -/

/-- Bytes with other bytes in their place from an offset on. -/
def splice (bytes : List UInt8) (offset : Nat) (data : List UInt8) : List UInt8 :=
  bytes.take offset ++ data ++ bytes.drop (offset + data.length)

variable {offset : Nat} {x : Command}

theorem getElem?_splice {bytes data : List UInt8}
    (hfit : offset + data.length ≤ bytes.length) (j : Nat) :
    (splice bytes offset data)[j]? =
      if offset ≤ j ∧ j < offset + data.length then data[j - offset]? else bytes[j]? := by
  have htake : (bytes.take offset).length = offset := by
    rw [length_take]
    omega
  unfold splice
  by_cases hbefore : j < offset
  · rw [if_neg (by omega), append_assoc, List.getElem?_append_left (by omega),
      List.getElem?_take_of_lt hbefore]
  · by_cases hin : j < offset + data.length
    · rw [if_pos (by omega), List.getElem?_append_left (by rw [length_append]; omega),
        List.getElem?_append_right (by omega), htake]
    · rw [if_neg (by omega), List.getElem?_append_right (by rw [length_append]; omega),
        length_append, List.getElem?_drop]
      congr 1
      omega

namespace Heap

variable {h h' : Heap} {a b n : Nat} {data : List UInt8} {size : Nat}

def bytesFrom (bytes : Array UInt8) (start n : Nat) : List UInt8 :=
  (bytes.extract start (start + n)).toList

theorem extract_toList (bytes : Array UInt8) (start n : Nat) :
    (bytes.extract start (start + n)).toList = bytesFrom bytes start n := rfl

theorem getElem?_bytesFrom (bytes : Array UInt8) (start n j : Nat) :
    (bytesFrom bytes start n)[j]? = if j < n then bytes[start + j]? else none := by
  unfold bytesFrom
  rw [Array.getElem?_toList, Array.getElem?_extract]
  by_cases hj : j < n
  · split
    · rfl
    · rw [Array.getElem?_eq_none (by omega)]
  · rw [if_neg hj, if_neg (by omega)]

theorem length_bytesFrom {bytes : Array UInt8} {start : Nat} (hfit : start + n ≤ bytes.size) :
    (bytesFrom bytes start n).length = n := by
  unfold bytesFrom
  rw [Array.length_toList, Array.size_extract]
  omega

/-- The bytes at an address, as far as they have been handed out. -/
def span (h : Heap) (a n : Nat) : List UInt8 := bytesFrom h.bytes (a - heapBase) n

theorem InBounds.mono (hin : h.InBounds a n) (hused : h.used ≤ h'.used) : h'.InBounds a n :=
  ⟨hin.1, Nat.le_trans hin.2 hused⟩

theorem read_eq (hin : h.InBounds a n) : h.read a n = .ok (h.span a n) := by
  unfold read
  rw [if_pos hin]
  dsimp only
  rw [extract_toList]
  rfl

theorem getElem?_span (h : Heap) (a n j : Nat) :
    (h.span a n)[j]? = if j < n then h.bytes[a - heapBase + j]? else none :=
  getElem?_bytesFrom h.bytes _ n j

theorem length_span (hin : h.InBounds a n) : (h.span a n).length = n := length_bytesFrom hin.2

/-- A part of the bytes of a block. -/
theorem span_part (hbase : heapBase ≤ a) {length : Nat} (hfit : offset + length ≤ n) :
    h.span (a + offset) length = ((h.span a n).drop offset).take length := by
  refine ext_getElem? fun j => ?_
  rw [getElem?_span, List.getElem?_take, List.getElem?_drop, getElem?_span]
  by_cases hj : j < length
  · rw [if_pos hj, if_pos hj, if_pos (by omega),
      show a + offset - heapBase + j = a - heapBase + (offset + j) by omega]
  · rw [if_neg hj, if_neg hj]

/-- Memory with bytes put at an address. -/
def put (h : Heap) (a : Nat) (data : List UInt8) : Heap :=
  { h with bytes := overwrite h.bytes (a - heapBase) data }

theorem write_eq (hin : h.InBounds a data.length) : h.write a data = .ok (h.put a data) := by
  unfold write put
  rw [if_pos hin]

theorem put_extent (h : Heap) (a : Nat) (data : List UInt8) : h.SameExtent (h.put a data) :=
  ⟨rfl, size_overwrite _ _ _, rfl⟩

theorem getElem?_put (hin : h.InBounds a data.length) (j : Nat) :
    (h.put a data).bytes[j]? =
      if a - heapBase ≤ j ∧ j < a - heapBase + data.length then data[j - (a - heapBase)]?
      else h.bytes[j]? :=
  getElem?_overwrite hin.2 j

/-- A copy into a block. -/
theorem span_put_inside (hin : h.InBounds a n) (hfit : offset + data.length ≤ n) :
    (h.put (a + offset) data).span a n = splice (h.span a n) offset data := by
  obtain ⟨hbase, hbound⟩ := hin
  have hpart : h.InBounds (a + offset) data.length := ⟨by omega, by omega⟩
  have hlength : offset + data.length ≤ (h.span a n).length := by
    rw [length_span ⟨hbase, hbound⟩]
    exact hfit
  refine ext_getElem? fun j => ?_
  rw [getElem?_splice hlength, getElem?_span, getElem?_span, getElem?_put hpart]
  by_cases hj : offset ≤ j ∧ j < offset + data.length
  · have hindex : a - heapBase + j - (a + offset - heapBase) = j - offset := by omega
    rw [if_pos (by omega), if_pos (by omega), if_pos hj, hindex]
  · split
    · rw [if_neg (by omega)]
    · rfl

/-- A copy into another block. -/
theorem span_put_apart (hin : h.InBounds b data.length) (hbase : heapBase ≤ a)
    (hapart : a + n ≤ b ∨ b + data.length ≤ a) : (h.put b data).span a n = h.span a n := by
  have hbase' := hin.1
  refine ext_getElem? fun j => ?_
  rw [getElem?_span, getElem?_span, getElem?_put hin]
  split
  · rw [if_neg (by omega)]
  · rfl

/-! ## Growth -/

/-- Memory with zeros at its end. -/
structure Grows (h h' : Heap) : Prop where
  used : h.used ≤ h'.used
  kept : ∀ j < h.used, h'.bytes[j]? = h.bytes[j]?
  zero : ∀ j, h.used ≤ j → j < h'.used → h'.bytes[j]? = some 0

theorem Grows.put (hg : h.Grows h') (hin : h.InBounds a data.length) :
    (h.put a data).Grows (h'.put a data) := by
  have hused : (h.put a data).used = h.used := (put_extent h a data).used
  have hused' : (h'.put a data).used = h'.used := (put_extent h' a data).used
  have hin' : h'.InBounds a data.length := hin.mono hg.used
  have hbound : a - heapBase + data.length ≤ h.used := hin.2
  refine ⟨by rw [hused, hused']; exact hg.used, fun j hj => ?_, fun j hj hj' => ?_⟩
  · rw [getElem?_put hin, getElem?_put hin']
    split
    · rfl
    · exact hg.kept j (hused ▸ hj)
  · rw [hused] at hj
    rw [getElem?_put hin', if_neg (by omega)]
    exact hg.zero j hj (hused' ▸ hj')

theorem Grows.span_old (hg : h.Grows h') (hin : h.InBounds a n) : h'.span a n = h.span a n := by
  have hbound : a - heapBase + n ≤ h.used := hin.2
  refine ext_getElem? fun j => ?_
  rw [getElem?_span, getElem?_span]
  split
  · exact hg.kept _ (by omega)
  · rfl

theorem Grows.span_new (hg : h.Grows h') (hin : h'.InBounds a n) (hnew : heapBase + h.used ≤ a) :
    h'.span a n = List.replicate n 0 := by
  have hbound : a - heapBase + n ≤ h'.used := hin.2
  refine ext_getElem? fun j => ?_
  rw [getElem?_span, List.getElem?_replicate]
  split
  · exact hg.zero _ (by omega) (by omega)
  · rfl

theorem grows_resize (hsize : h.used < size) :
    h.Grows { h' with bytes := resize h.bytes size } := by
  have hlt : h.bytes.size < size := hsize
  have hresize : resize h.bytes size = h.bytes ++ Array.replicate (size - h.bytes.size) 0 :=
    if_neg (by omega)
  have hused : ({ h' with bytes := resize h.bytes size } : Heap).used = size := size_resize _ _
  refine ⟨by omega, fun j hj => ?_, fun j hj hj' => ?_⟩
  · rw [hresize, Array.getElem?_append_left hj]
  · have hle : h.bytes.size ≤ j := hj
    rw [hresize, Array.getElem?_append_right hle, Array.getElem?_replicate, if_pos (by omega)]

/-- A request that is granted adds zeros to the memory. -/
theorem allocate_grows (halloc : h.allocate size = .ok (a, h')) :
    h.Grows h' ∧ h.HasRoom size ∧ a = heapBase + h.nextOffset ∧ h.used ≤ h.nextOffset ∧
      h'.used = h.nextOffset + max size 1 ∧ h'.capacity = h.capacity := by
  obtain ⟨hroom, haddress, hsize, hcapacity, -, hbytes⟩ := allocate_ok halloc
  have hnext := h.nextOffset_bounds.1
  have hstop : h.nextStop size = h.nextOffset + max size 1 := rfl
  have hgrows : h.Grows { h' with bytes := resize h.bytes (h.nextStop size) } :=
    grows_resize (by omega)
  rw [← hbytes] at hgrows
  exact ⟨hgrows, hroom, haddress, hnext, hsize, hcapacity⟩

/-! ## Replay -/

/-- Memory once a command was run. -/
def done (h : Heap) : Command → Heap
  | .write a data => h.put a data
  | _ => h

/-- Memory once commands were run in turn. -/
def replay (h : Heap) (cs : List Command) : Heap := cs.foldl done h

theorem replay_append (h : Heap) (cs cs' : List Command) :
    h.replay (cs ++ cs') = (h.replay cs).replay cs' :=
  foldl_append

theorem done_extent (h : Heap) (x : Command) : h.SameExtent (h.done x) := by
  cases x with
  | write a data => exact put_extent h a data
  | _ => exact .refl h

theorem replay_extent (h : Heap) (cs : List Command) : h.SameExtent (h.replay cs) := by
  induction cs generalizing h with
  | nil => exact .refl h
  | cons x cs ih => exact (done_extent h x).trans (ih _)

theorem InBounds.replay (hin : h.InBounds a n) (cs : List Command) : (h.replay cs).InBounds a n :=
  hin.mono (h.replay_extent cs).used.ge

end Heap

/-- A copy that stays inside the memory handed out, or no work at all. -/
def Command.Sound (h : Heap) : Command → Prop
  | .write a data => h.InBounds a data.length
  | .read a n _ => h.InBounds a n
  | .launch _ _ _ _ => False
  | _ => True

theorem Command.Sound.mono {h h' : Heap} (hx : x.Sound h) (hused : h.used ≤ h'.used) :
    x.Sound h' := by
  cases x with
  | write | read => exact Heap.InBounds.mono hx hused
  | launch => exact hx
  | stamp | barrier => trivial

theorem Heap.Grows.replay {h h' : Heap} {cs : List Command} (hg : h.Grows h')
    (hcs : ∀ x ∈ cs, x.Sound h) : (h.replay cs).Grows (h'.replay cs) := by
  induction cs generalizing h h' with
  | nil => exact hg
  | cons x cs ih =>
    have hx := hcs x mem_cons_self
    have hnext : (h.done x).Grows (h'.done x) := by
      cases x with
      | write => exact hg.put hx
      | _ => exact hg
    refine ih hnext fun y hy => (hcs y (mem_cons_of_mem _ hy)).mono ?_
    exact Nat.le_of_eq (h.done_extent x).used.symm

/-! ## Runs -/

/-- The cells of a device once a command was run. -/
def Simulator.sunk (d : Simulator) : Command → Array (List UInt8)
  | .read a n sink => d.sinks.setIfInBounds sink (d.heap.span a n)
  | _ => d.sinks

namespace Operate

variable {d : Simulator} {cs : List Command}

theorem execute_sound (hx : x.Sound d.heap) :
    ∃ d', execute x d = .ok () d' ∧ d'.heap = d.heap.done x ∧ d'.sinks = d.sunk x := by
  cases x with
  | write a data =>
    have hrun := onHeap_run (fun h => (h.write a data).map ((), ·)) d
    rw [Heap.write_eq hx] at hrun
    exact ⟨_, hrun, rfl, rfl⟩
  | read a n sink =>
    have hrun := onHeap_run (fun h => (h.read a n).map (·, h)) d
    rw [Heap.read_eq hx] at hrun
    refine ⟨{ d with sinks := d.sinks.setIfInBounds sink (d.heap.span a n) }, ?_, rfl, rfl⟩
    exact bind_of_ok hrun
  | launch => exact absurd hx id
  | stamp cell => exact ⟨_, execute_stamp cell d, rfl, rfl⟩
  | barrier => exact ⟨d, rfl, rfl, rfl⟩

/-- A cell that no command reads into keeps its bytes. -/
theorem sinkAt_sunk {cell : Nat} (hx : ∀ a n, x ≠ .read a n cell) :
    (d.sunk x).getD cell [] = d.sinkAt cell := by
  cases x with
  | read a n sink =>
    have hne : sink ≠ cell := fun heq => hx a n (heq ▸ rfl)
    show (d.sinks.setIfInBounds sink _).getD cell [] = d.sinks.getD cell []
    rw [Array.getD_eq_getD_getElem?, Array.getD_eq_getD_getElem?,
      Array.getElem?_setIfInBounds_ne hne]
  | _ => rfl

/-- Commands that are sound are run to their end. -/
theorem executeAll_sound (hcs : ∀ x ∈ cs, x.Sound d.heap) :
    ∃ d', cs.forM execute d = .ok () d' ∧ d'.heap = d.heap.replay cs ∧
      ∀ cell, (∀ a n, .read a n cell ∉ cs) → d'.sinkAt cell = d.sinkAt cell := by
  induction cs generalizing d with
  | nil => exact ⟨d, rfl, rfl, fun _ _ => rfl⟩
  | cons x cs ih =>
    obtain ⟨d₁, hfirst, hheap, hsinks⟩ := execute_sound (hcs x mem_cons_self)
    have hrest : ∀ y ∈ cs, y.Sound d₁.heap := by
      intro y hy
      refine (hcs y (mem_cons_of_mem _ hy)).mono ?_
      rw [hheap]
      exact Nat.le_of_eq (d.heap.done_extent x).used.symm
    obtain ⟨d', hrun, hheap', hsinks'⟩ := ih hrest
    refine ⟨d', ?_, ?_, fun cell hcell => ?_⟩
    · exact (bind_of_ok hfirst).trans hrun
    · rw [hheap', hheap]
      rfl
    · have hx : ∀ a n, x ≠ .read a n cell := fun a n heq => hcell a n (heq ▸ mem_cons_self)
      rw [hsinks' cell fun a n hmem => hcell a n (mem_cons_of_mem _ hmem)]
      show d₁.sinks.getD cell [] = _
      rw [hsinks]
      exact sinkAt_sunk hx

/-- A cell holds what stood in memory when the last read into it was reached. -/
theorem executeAll_sink {pre post : List Command} {a n sink : Nat} {d' : Simulator}
    (hcs : ∀ x ∈ pre ++ .read a n sink :: post, x.Sound d.heap) (hsink : sink < d.sinks.size)
    (hlast : ∀ a n, .read a n sink ∉ post)
    (hrun : (pre ++ .read a n sink :: post).forM execute d = .ok () d') :
    d'.sinkAt sink = (d.heap.replay pre).span a n := by
  have hpre : ∀ x ∈ pre, x.Sound d.heap := fun x hx => hcs x (mem_append_left _ hx)
  obtain ⟨d₁, hfirst, hheap, -⟩ := executeAll_sound hpre
  have hrunning : d.Running d₁ := after_of_ok hfirst ▸ executeAll_running pre d
  have hmono : ∀ x ∈ pre ++ .read a n sink :: post, x.Sound d₁.heap := fun x hx =>
    (hcs x hx).mono (Nat.le_of_eq hrunning.heap.used.symm)
  -- the read itself, and what comes after it
  obtain ⟨d₂, hread, hheap₂, hsinks₂⟩ := execute_sound (hmono _ (mem_append_right _ mem_cons_self))
  have hpost : ∀ x ∈ post, x.Sound d₂.heap := fun x hx =>
    hheap₂ ▸ hmono x (mem_append_right _ (mem_cons_of_mem _ hx))
  obtain ⟨d₃, hrest, -, hsinks₃⟩ := executeAll_sound hpost
  have hall : (pre ++ .read a n sink :: post).forM execute d = .ok () d₃ := by
    rw [forM_eq_forM, forM_append]
    exact (bind_of_ok hfirst).trans ((bind_of_ok hread).trans hrest)
  cases hall.symm.trans hrun
  rw [hsinks₃ sink hlast]
  show d₂.sinks.getD sink [] = _
  have hlt : sink < d₁.sinks.size := hrunning.sinks.symm ▸ hsink
  rw [hsinks₂]
  show (d₁.sinks.setIfInBounds sink (d₁.heap.span a n)).getD sink [] = _
  rw [Array.getD_eq_getD_getElem?, Array.getElem?_setIfInBounds_self_of_lt hlt, hheap,
    Option.getD_some]

end Operate

end KernelForge.Device
