import KernelForge.Proofs.Queues.Replay

/-!
# The allocator of a device

Blocks are handed out at rising addresses and never twice, and the bytes behind the last of them are
still to come. `Heap.History` tells the calls that a heap has answered, with the addresses it handed
out and the byte last written at each address; `Heap.Kept` is what every call keeps of them.
Requests whose end is a number of 64 bits are all that it takes (`Heap.history_kept`); one that does
not fit is refused, and where its end is no such number the device stops (`Heap.allocate_refused`).
-/

namespace KernelForge.Device

open List

namespace Heap

/-- What is at each address once bytes were written. -/
def noting (last : Nat → UInt8) (a : Nat) (data : List UInt8) : Nat → UInt8 := fun j =>
  if a ≤ j ∧ j < a + data.length then data.getD (j - a) 0 else last j

/-- A heap of a capacity after calls: the addresses it handed out, and the byte last written at each
address. Reads and calls that fail leave it. -/
inductive History (capacity : Nat) : Heap → List Nat → (Nat → UInt8) → Prop
  | empty : History capacity (.empty capacity) [] fun _ => 0
  | allocate {h h' issued last size a} (hh : History capacity h issued last)
    (hfit : h.nextOffset + size < Nat.pow 2 64) (hrun : h.allocate size = .ok (a, h')) :
    History capacity h' (a :: issued) last
  | free {h h' issued last a} (hh : History capacity h issued last) (hrun : h.free? a = some h') :
    History capacity h' issued last
  | write {h h' issued last a data} (hh : History capacity h issued last)
    (hrun : h.write a data = .ok h') : History capacity h' issued (noting last a data)

variable {h h' : Heap} {capacity size a n : Nat} {data : List UInt8} {issued : List Nat}
  {last : Nat → UInt8}

/-- Blocks that do not overlap, each of at least one byte. -/
def Apart (e e' : Nat × Nat) : Prop := e.1 + max e.2 1 ≤ e'.1 ∨ e'.1 + max e'.2 1 ≤ e.1

instance : Std.Symm Apart := ⟨fun _ _ => Or.symm⟩

/-- Blocks stand apart, and memory holds the bytes last written. -/
structure Kept (limit : Nat) (h : Heap) (issued : List Nat) (last : Nat → UInt8) : Prop where
  capacity : h.capacity = limit
  room : h.used ≤ limit
  placed : ∀ e ∈ h.blocks.entries,
    ∃ offset, e.1 = heapBase + offset ∧ alignment ∣ offset ∧ offset + max e.2 1 ≤ h.used
  apart : h.blocks.entries.Pairwise Apart
  issued : ∀ b ∈ issued, b < heapBase + h.used
  holds : ∀ j < h.used, h.bytes[j]? = some (last (heapBase + j))
  blank : ∀ j, heapBase + h.used ≤ j → last j = 0

theorem write_cases (hrun : h.write a data = .ok h') :
    h.InBounds a data.length ∧ h' = h.put a data := by
  unfold Heap.write at hrun
  split at hrun
  · next hin =>
    cases hrun
    exact ⟨hin, rfl⟩
  · cases hrun

namespace Kept

variable (hk : Kept capacity h issued last)

include hk

theorem allocate (hrun : h.allocate size = .ok (a, h')) : Kept capacity h' (a :: issued) last := by
  obtain ⟨hgrows, hroom, rfl, hbefore, hused, hcapacity⟩ := allocate_grows hrun
  obtain ⟨-, -, -, -, hblocks, -⟩ := allocate_ok hrun
  have hbelow : ∀ e ∈ h.blocks.entries, e.1 + max e.2 1 ≤ heapBase + h.nextOffset := by
    intro e he
    obtain ⟨offset, ha, -, hend⟩ := hk.placed e he
    omega
  have hnew : h.blocks.get? (heapBase + h.nextOffset) = none := by
    refine Table.get?_eq_none_of_not_mem_keys fun hmem => ?_
    obtain ⟨e, he, heq⟩ := mem_map.1 hmem
    have := hbelow e he
    omega
  have hentries : h'.blocks.entries = h.blocks.entries ++ [(heapBase + h.nextOffset, size)] := by
    rw [hblocks, Table.entries_insert_of_none hnew]
  refine ⟨hcapacity.trans hk.capacity, hk.capacity ▸ hused.trans_le hroom.1, ?_, ?_, ?_, ?_, ?_⟩
  · rw [hentries, forall_mem_append, forall_mem_singleton]
    refine ⟨fun e he => ?_, _, rfl, ⟨_, Nat.mul_comm _ _⟩, Nat.le_of_eq hused.symm⟩
    obtain ⟨offset, ha, halign, hend⟩ := hk.placed e he
    exact ⟨offset, ha, halign, by omega⟩
  · rw [hentries, pairwise_append]
    exact ⟨hk.apart, pairwise_singleton _ _,
      fun e he e' he' => .inl (mem_singleton.1 he' ▸ hbelow e he)⟩
  · rw [forall_mem_cons]
    exact ⟨by omega, fun b hb => by have := hk.issued b hb; omega⟩
  · intro j hj
    by_cases hold : j < h.used
    · rw [hgrows.kept j hold, hk.holds j hold]
    · rw [hgrows.zero j (by omega) hj, hk.blank _ (by omega)]
  · exact fun j hj => hk.blank j (by omega)

theorem free (hrun : h.free? a = some h') : Kept capacity h' issued last := by
  unfold free? at hrun
  split at hrun
  · cases hrun
    have hsub := Table.drop_sublist a h.blocks.entries
    exact ⟨hk.capacity, hk.room, fun e he => hk.placed e (hsub.subset he), hk.apart.sublist hsub,
      hk.issued, hk.holds, hk.blank⟩
  · cases hrun

theorem write (hrun : h.write a data = .ok h') : Kept capacity h' issued (noting last a data) := by
  obtain ⟨hin, rfl⟩ := write_cases hrun
  have hused : (h.put a data).used = h.used := (put_extent h a data).used
  obtain ⟨hbase, hend⟩ := hin
  have hend : a - heapBase + data.length ≤ h.used := hend
  refine ⟨hk.capacity, hused ▸ hk.room, hused.symm ▸ hk.placed, hk.apart,
    hused.symm ▸ hk.issued, fun j hj => ?_, fun j hj => ?_⟩
  · rw [getElem?_put ⟨hbase, hend⟩, noting]
    by_cases hj' : a - heapBase ≤ j ∧ j < a - heapBase + data.length
    · rw [if_pos hj', if_pos (by omega), getD_eq_getElem?_getD,
        show heapBase + j - a = j - (a - heapBase) by omega, List.getElem?_eq_getElem (by omega)]
      rfl
    · rw [if_neg hj', if_neg (by omega)]
      exact hk.holds j (hused ▸ hj)
  · rw [noting, if_neg (by omega)]
    exact hk.blank j (hused ▸ hj)

/-- A read gives the bytes last written. -/
theorem read (hin : h.InBounds a n) : h.read a n = .ok ((range' a n).map last) := by
  rw [read_eq hin]
  refine congrArg _ (ext_getElem? fun j => ?_)
  obtain ⟨hbase, hend⟩ := hin
  have hend : a - heapBase + n ≤ h.used := hend
  rw [getElem?_span]
  by_cases hj : j < n
  · rw [if_pos hj, hk.holds _ (by omega), List.getElem?_map, List.getElem?_range' hj]
    exact congrArg (some <| last ·) (by omega)
  · rw [if_neg hj, List.getElem?_eq_none (by simpa using hj)]

end Kept

theorem History.kept (hh : History capacity h issued last) : Kept capacity h issued last := by
  induction hh with
  | empty =>
      exact ⟨rfl, Nat.zero_le _, forall_mem_nil _, .nil, forall_mem_nil _, nofun, fun _ _ => rfl⟩
  | allocate _ _ hrun ih => exact ih.allocate hrun
  | free _ hrun ih => exact ih.free hrun
  | write _ hrun ih => exact ih.write hrun

/-- A step of a device that leaves it as it was when it fails. -/
def Unfailing {α : Type} (x : Operate α) : Prop := ∀ d d' e, x d = .error e d' → d' = d

theorem onHeap_unfailing {α : Type} (f : Heap → Except Fault (α × Heap)) :
    Unfailing (Operate.onHeap f) := by
  intro d d' e hrun
  rw [Operate.onHeap_run] at hrun
  split at hrun <;> cases hrun
  rfl

/-- **history_kept**: the live blocks of a heap are aligned, lie inside it and apart from each
other; a new block is at a higher address than all before and reads as zeros; a write changes its
own bytes alone, and a read gives the bytes last written. A call that fails leaves the device as it
was. -/
theorem history_kept (hh : History capacity h issued last) :
    (∀ b n, h.blockSize? b = some n → ∃ offset, b = heapBase + offset ∧ alignment ∣ offset ∧
      offset + n ≤ h.used ∧ h.used ≤ capacity) ∧
    (∀ b n b' n', h.blockSize? b = some n → h.blockSize? b' = some n' → b ≠ b' →
      b + n ≤ b' ∨ b' + n' ≤ b) ∧
    (∀ size a h', h.nextOffset + size < Nat.pow 2 64 → h.allocate size = .ok (a, h') →
      (∀ b ∈ issued, b < a) ∧ h'.blockSize? a = some size ∧
      h'.read a size = .ok (replicate size 0)) ∧
    (∀ a data h', h.write a data = .ok h' → h'.blocks = h.blocks ∧ h'.used = h.used ∧
      ∀ j, h'.bytes[j]? = if a - heapBase ≤ j ∧ j < a - heapBase + data.length then
        data[j - (a - heapBase)]? else h.bytes[j]?) ∧
    (∀ a n, h.read a n = if h.InBounds a n then .ok ((range' a n).map last)
      else .error (.outsideMemory n a)) ∧
    ∀ size b n sink data, Unfailing (Operate.allocate size) ∧ Unfailing (Operate.free b) ∧
      Unfailing (Operate.execute (.write b data)) ∧
        Unfailing (Operate.execute (.read b n sink)) := by
  have hk := hh.kept
  refine ⟨fun b n hb => ?_, fun b n b' n' hb hb' hne => ?_, fun size a h' _ hrun => ?_,
    fun a data h' hrun => ?_, fun a n => ?_, ?_⟩
  · obtain ⟨offset, ha, halign, hend⟩ := hk.placed _ (Table.mem_entries_of_get? hb)
    exact ⟨offset, ha, halign, by omega, hk.room⟩
  · have hapart : Apart (b, n) (b', n') := hk.apart.forall (Table.mem_entries_of_get? hb)
      (Table.mem_entries_of_get? hb') fun heq => hne (congrArg Prod.fst heq)
    unfold Apart at hapart
    omega
  · obtain ⟨hgrows, -, ha, hbefore, hused, -⟩ := allocate_grows hrun
    obtain ⟨-, -, -, -, hblocks, -⟩ := allocate_ok hrun
    have hin : h'.InBounds a size := ⟨by omega, by show a - heapBase + size ≤ h'.used; omega⟩
    refine ⟨fun b hb => ?_, ?_, ?_⟩
    · have := hk.issued b hb
      omega
    · rw [blockSize?, hblocks, Table.get?_insert_self]
    · rw [read_eq hin, hgrows.span_new hin (by omega)]
  · obtain ⟨hin, rfl⟩ := write_cases hrun
    exact ⟨rfl, (put_extent h a data).used, getElem?_put hin⟩
  · split
    · next hin => exact hk.read hin
    · next hout => exact if_neg hout
  · intro size b n sink data
    refine ⟨onHeap_unfailing _, fun d d' e hrun => ?_,
      onHeap_unfailing fun h => (h.write b data).map ((), ·), fun d d' e hrun => ?_⟩
    · rw [Operate.free_run] at hrun
      split at hrun <;> cases hrun
      rfl
    · have hread := onHeap_unfailing (fun h => (h.read b n).map (·, h)) d
      cases hheap : Operate.onHeap (fun h => (h.read b n).map (·, h)) d with
      | ok bytes d₁ => cases (bind_of_ok hheap).symm.trans hrun
      | error e₁ d₁ =>
        cases (bind_of_error hheap).symm.trans hrun
        exact hread _ _ hheap

theorem history_kept_freed : ∃ h issued last, History 256 h issued last ∧
    issued = [heapBase + 64, heapBase] ∧ h.read (heapBase + 64) 2 = .ok [0, 0] ∧
    h.read (heapBase + 1) 2 = .ok [7, 8] := by
  have h₁ :=
    History.empty.allocate (by decide) (show (Heap.empty 256).allocate 3 = .ok (_, _) from rfl)
  have h₂ := h₁.write (show Heap.write _ (heapBase + 1) [7, 8] = .ok _ from rfl)
  have h₃ := h₂.free (show Heap.free? _ heapBase = some _ from rfl)
  have h₄ := h₃.allocate (by decide) (show Heap.allocate _ 2 = .ok (_, _) from rfl)
  have hread := (history_kept h₄).2.2.2.2.1
  exact ⟨_, _, _, h₄, rfl, (hread _ _).trans (if_pos (by decide)),
    (hread _ _).trans (if_pos (by decide))⟩

/-- **allocate_refused**: a request that does not fit is out of memory where its end is a number of
64 bits, and stops the device where it is not; the device is as it was both times. The sums and the
product before the size is added are numbers of 64 bits. -/
theorem allocate_refused {d : Simulator} (hh : History capacity d.heap issued last)
    (hsmall : capacity ≤ Nat.pow 2 62) (hfull : capacity < d.heap.nextStop size) :
    d.heap.used + (alignment - 1) < Nat.pow 2 64 ∧ d.heap.nextOffset < Nat.pow 2 64 ∧
      Operate.allocate size d = .error (.execution (if d.heap.nextStop size < Nat.pow 2 64 then
        .outOfMemory size d.heap.used capacity else .trapped .sum)) d := by
  obtain ⟨hcapacity, hroom, -⟩ := hh.kept
  have hbefore : d.heap.nextOffset ≤ d.heap.used + (alignment - 1) := Nat.div_mul_le_self _ _
  have hwidth : Nat.pow 2 62 + (alignment - 1) < Nat.pow 2 64 := by decide
  refine ⟨by omega, by omega, ?_⟩
  rw [Operate.allocate, Operate.onHeap_run]
  by_cases hword : d.heap.nextStop size < Nat.pow 2 64
  · have hrun : d.heap.allocate size = .error (.outOfMemory size d.heap.used d.heap.capacity) := by
      rw [Heap.allocate, wordOr, if_pos hword]
      exact if_pos (hcapacity.symm ▸ hfull)
    rw [hrun, if_pos hword, hcapacity]
  · have hrun : d.heap.allocate size = .error (.trapped .sum) := by
      rw [Heap.allocate, wordOr, if_neg hword]
      rfl
    rw [hrun, if_neg hword]

theorem allocate_refused_twice : ∃ d : Simulator, d.heap.liveBlocks = 1 ∧
    Operate.allocate 1000 d = .error (.execution (.outOfMemory 1000 10 1024)) d ∧
      Operate.allocate (Nat.pow 2 64 - 1) d = .error (.execution (.trapped .sum)) d := by
  have hh :=
    History.empty.allocate (by decide) (show (Heap.empty 1024).allocate 10 = .ok (_, _) from rfl)
  refine ⟨{ heap := _ }, rfl, (allocate_refused hh (by decide) (by decide)).2.2.trans ?_,
    (allocate_refused hh (by decide) (by decide)).2.2.trans ?_⟩
  · rw [if_pos (by decide)]
    rfl
  · rw [if_neg (by decide)]

end Heap

end KernelForge.Device
