import KernelForge.Proofs.Queues.Launches
import KernelForge.Proofs.Calling.Convention

/-!
# Every launch reads its own arguments

All launches of a thread share one parameter frame, which is exchanged for a larger one when it is
too small. A launch is recorded behind a copy of its arguments into the frame, and a list is run
from its start, so the arguments are in the frame when the launch starts. A frame that was outgrown
is freed only once the list was run, so while a launch is recorded its frame is a live block, of a
size that holds the arguments.
-/

namespace KernelForge.Device

open List

/-! ## Blocks -/

namespace Heap

variable {h h' : Heap}

/-- Blocks have different addresses, below all that are still to come. -/
structure Laid (h : Heap) : Prop where
  keyed : h.blocks.Keyed
  below : ∀ a ∈ h.blocks.keys, a < heapBase + h.used

/-- Blocks that are live in both heaps have one size. -/
def SameSizes (h h' : Heap) : Prop :=
  ∀ a n n', h.blockSize? a = some n → h'.blockSize? a = some n' → n' = n

theorem sameSizes_of_blocks (hblocks : h'.blocks = h.blocks) : h.SameSizes h' := by
  intro a n n' hn hn'
  unfold blockSize? at hn hn'
  rw [hblocks] at hn'
  exact Option.some.inj (hn'.symm.trans hn)

theorem SameSizes.refl (h : Heap) : h.SameSizes h := sameSizes_of_blocks rfl

theorem Forgets.sameSizes (hf : h.Forgets h') (hk : h.blocks.Keyed) : h.SameSizes h' := by
  intro a n n' hn hn'
  have hmem : (a, n') ∈ h.blocks.entries := hf.blocks.subset (Table.mem_entries_of_get? hn')
  exact Option.some.inj ((Table.get?_of_mem hk hmem).symm.trans hn)

variable {a size : Nat}

/-- What a request leaves of the blocks, whatever its size. -/
theorem allocate_blocks (halloc : h.allocate size = .ok (a, h')) :
    a = heapBase + h.nextOffset ∧ h'.blocks = h.blocks.insert a size := by
  obtain ⟨-, haddress, -, -, hblocks, -⟩ := allocate_ok halloc
  exact ⟨haddress, hblocks⟩

/-- A new block is none of those that are live. -/
theorem Laid.new (hl : h.Laid) (halloc : h.allocate size = .ok (a, h')) : a ∉ h.blocks.keys := by
  intro hmem
  have hlt := hl.below a hmem
  rw [(allocate_blocks halloc).1] at hlt
  unfold nextOffset alignment at hlt
  omega

theorem Laid.sameSizes (hl : h.Laid) (halloc : h.allocate size = .ok (a, h')) : h.SameSizes h' := by
  intro b n n' hn hn'
  unfold blockSize? at hn hn'
  rw [(allocate_blocks halloc).2, Table.get?_insert] at hn'
  split at hn'
  · next heq =>
    subst heq
    exact absurd (Table.mem_keys_iff.2 ⟨n, hn⟩) (hl.new halloc)
  · exact Option.some.inj (hn'.symm.trans hn)

end Heap

/-- Commands run one part after another. -/
theorem Operate.executeAll_append {cs cs' : List Command} {d d' : Simulator}
    (h : (cs ++ cs').forM execute d = .ok () d') :
    ∃ d₁, cs.forM execute d = .ok () d₁ ∧ cs'.forM execute d₁ = .ok () d' := by
  rw [forM_eq_forM, forM_append] at h
  obtain ⟨_, d₁, hfirst, hrest⟩ := bind_ok.1 h
  exact ⟨d₁, hfirst, hrest⟩

end KernelForge.Device

namespace KernelForge.Host

open List
open Device (Info Simulator Command Operate Heap heapBase)

variable {info : Nat → Info} {c : Context} {plan device thread : Nat} {heap : Heap}

namespace Scene

variable {s s' : Scene} {r : Option Error}

theorem setHeap_sameSizes (h : (s.heap device).SameSizes heap) (i : Nat) :
    (s.heap i).SameSizes ((s.setHeap device heap).heap i) := by
  show (s.heap i).SameSizes (if device = i then heap else s.heap i)
  split
  · next heq => exact heq ▸ h
  · exact .refl _

theorem Framed.sameSizes {t bytes a : Nat} (h : Framed plan device t bytes s a s')
    (hl : ∀ i, (s.heap i).Laid) (i : Nat) : (s.heap i).SameSizes (s'.heap i) := by
  rcases h.shape with ⟨f, -, -, -, rfl⟩ | ⟨size, heap, retired, halloc, -, -, rfl⟩
  · exact .refl _
  · exact setHeap_sameSizes ((hl device).sameSizes halloc) i

theorem Ran.blocks {t : Nat} (h : Ran plan device t s r s') (i : Nat) :
    (s'.heap i).blocks = (s.heap i).blocks := by
  obtain ⟨d, hd, rfl⟩ := h.shape
  show (if device = i then (after _ d).heap else s.heap i).blocks = (s.heap i).blocks
  split
  · next heq => rw [(Operate.executeAll_running _ d).heap.blocks, ← heq, hd.heap]
  · rfl

theorem Flushed.sameSizes {t : Nat} (h : Flushed plan device t s r s')
    (hl : ∀ i, (s.heap i).Laid) (i : Nat) : (s.heap i).SameSizes (s'.heap i) := by
  cases h with
  | stopped hran | unframed hran => exact Heap.sameSizes_of_blocks (hran.blocks i)
  | @freed s₁ f heap _ hran hf hheap =>
    have hblocks := hran.blocks i
    show (s.heap i).SameSizes (if device = i then heap else s₁.heap i)
    split
    · next heq =>
      subst heq
      have hkeyed : (s₁.heap device).blocks.Keyed := hblocks ▸ (hl device).keyed
      intro a n n' hn hn'
      have hn₁ : (s₁.heap device).blockSize? a = some n := by
        unfold Heap.blockSize? at hn ⊢
        rwa [hblocks]
      exact hheap.sameSizes hkeyed a n n' hn₁ hn'
    · exact Heap.sameSizes_of_blocks hblocks

end Scene

/-- No step gives a live block another size. -/
theorem Effect.sameSizes {x : Step} {r : Option Error} {s s' : Scene} (h : Effect x r s s')
    (hl : ∀ i, (s.heap i).Laid) (i : Nat) : (s.heap i).SameSizes (s'.heap i) := by
  cases h with
  | barrier he | written he => exact he.heap_eq ▸ .refl _
  | allocated halloc => exact Scene.setHeap_sameSizes ((hl _).sameSizes halloc) i
  | freed hheap => exact Scene.setHeap_sameSizes (hheap.sameSizes (hl _).keyed) i
  | read he =>
    rw [he.heap_eq]
    exact .refl _
  | framed hframed => exact hframed.sameSizes hl i
  | launched hkernel hframed he =>
    rw [he.heap_eq]
    exact hframed.sameSizes hl i
  | flushed hflushed => exact hflushed.sameSizes hl i
  | reset hreset =>
    cases hreset with
    | stopped hshed | done hshed => exact (hshed.heap i).sameSizes (hl i).keyed
  | _ => exact .refl _

/-! ## Frames -/

namespace Scene

variable {s s' : Scene} {a : Nat} {held : Share}

/-- A block is the frame of a thread, or one the thread has outgrown. -/
def InFrame (s : Scene) (plan device thread a : Nat) : Prop :=
  ∃ f, (s.share plan device).frames.get? thread = some f ∧ a ∈ f.address :: f.retired

/-- Frames are blocks of the size they are thought to have. -/
def Sized (s : Scene) : Prop :=
  ∀ p i t f, i < s.size → (s.share p i).frames.get? t = some f →
    (s.heap i).blockSize? f.address = some f.capacity

theorem frames_setShare (h : held.frames = (s.share plan device).frames) (p i : Nat) :
    ((s.setShare plan device held).share p i).frames = (s.share p i).frames := by
  show (if plan = p ∧ device = i then held else s.share p i).frames = _
  split
  · next heq => rw [h, heq.1, heq.2]
  · rfl

variable {i p t bytes b : Nat} {f : Frame} {r : Option Error}

/-- Giving a thread a frame leaves those of the others. -/
theorem get?_frames_insert
    (h : held.frames = (s.share plan device).frames.insert thread f) :
    ((s.setShare plan device held).share p i).frames.get? t =
      if plan = p ∧ device = i ∧ thread = t then some f else (s.share p i).frames.get? t := by
  show (if plan = p ∧ device = i then held else s.share p i).frames.get? t = _
  by_cases hhere : plan = p ∧ device = i
  · obtain ⟨rfl, rfl⟩ := hhere
    rw [if_pos ⟨rfl, rfl⟩, h, Table.get?_insert]
    by_cases ht : thread = t
    · rw [if_pos ht, if_pos ⟨rfl, rfl, ht⟩]
    · rw [if_neg ht, if_neg fun heq => ht heq.2.2]
  · rw [if_neg hhere, if_neg fun heq => hhere ⟨heq.1, heq.2.1⟩]

theorem Entered.frames {index : Nat} {desc : Descriptor} {cs : List Command} {b : Brackets}
    {w : EventWindow Brackets} (h : Entered p i t desc cs index b w s s') (p' i' : Nat) :
    (s'.share p' i').frames = (s.share p' i').frames := by
  rw [h.after]
  refine frames_setShare ?_ p' i'
  rfl

theorem setHeap_blockSize? {size : Nat}
    (h : (s.heap i).allocate size = .ok (a, heap)) :
    ((s.setHeap i heap).heap i).blockSize? a = some size := by
  show (if i = i then heap else s.heap i).blockSize? a = some size
  rw [if_pos rfl, Heap.blockSize?, (Heap.allocate_blocks h).2, Table.get?_insert_self]

/-- What a thread is given for its arguments is its frame, of a size that holds them. -/
theorem Framed.inFrame (h : Framed plan device thread bytes s a s') (hs : s.Sized)
    (hdevice : device < s.size) :
    s'.InFrame plan device thread a ∧ ∃ n, (s'.heap device).blockSize? a = some n ∧ bytes ≤ n := by
  rcases h.shape with ⟨f, hf, hfits, rfl, rfl⟩ | ⟨size, heap, retired, halloc, hle, -, rfl⟩
  · exact ⟨⟨f, hf, mem_cons_self⟩, f.capacity, hs _ _ _ f hdevice hf, hfits⟩
  · refine ⟨⟨⟨a, size, retired⟩, ?_, mem_cons_self⟩, size, setHeap_blockSize? halloc, hle⟩
    rw [get?_frames_insert (s := s.setHeap device heap) rfl, if_pos ⟨rfl, rfl, rfl⟩]

/-- A thread that is given a larger frame keeps the one it has outgrown. -/
theorem Framed.keeps (h : Framed p i t bytes s b s') (ha : s.InFrame plan device thread a) :
    s'.InFrame plan device thread a := by
  obtain ⟨f, hf, hmem⟩ := ha
  rcases h.shape with ⟨-, -, -, -, rfl⟩ | ⟨size, heap, retired, -, -, hretired, rfl⟩
  · exact ⟨f, hf, hmem⟩
  · unfold InFrame
    rw [get?_frames_insert (s := s.setHeap i heap) rfl]
    split
    · next heq =>
      obtain ⟨rfl, rfl, rfl⟩ := heq
      exact ⟨_, rfl, mem_cons_of_mem _ (hretired f hf hmem)⟩
    · exact ⟨f, hf, hmem⟩

/-- A frame after a thread was given one is an old frame, or has the size it is thought to have. -/
theorem Framed.origin (h : Framed p i t bytes s b s')
    (hf : (s'.share plan device).frames.get? thread = some f) :
    (s.share plan device).frames.get? thread = some f ∨
      (s'.heap device).blockSize? f.address = some f.capacity := by
  rcases h.shape with ⟨-, -, -, -, rfl⟩ | ⟨size, heap, retired, halloc, -, -, rfl⟩
  · exact .inl hf
  · rw [get?_frames_insert (s := s.setHeap i heap) rfl] at hf
    split at hf
    · next heq =>
      obtain ⟨rfl, rfl, rfl⟩ := heq
      cases hf
      exact .inr (setHeap_blockSize? halloc)
    · exact .inl hf

theorem Ran.share (h : Ran p i t s r s') : s'.share = s.share := by
  obtain ⟨d, -, rfl⟩ := h.shape
  rfl

/-- A flush leaves the frames of other threads, and of its own thread the last. -/
theorem Flushed.keeps (h : Flushed p i t s r s')
    (ha : s.InFrame plan device thread a) :
    s'.InFrame plan device thread a ∨ s'.pending plan device thread = [] := by
  have hran : ∀ {s₁ : Scene} {r : Option Error}, Ran p i t s r s₁ →
      s₁.InFrame plan device thread a := by
    intro s₁ r hran
    unfold InFrame
    rw [hran.share]
    exact ha
  cases h with
  | stopped hstop => exact .inl (hran hstop)
  | unframed hdone => exact .inl (hran hdone)
  | @freed s₁ f heap _ hdone =>
    by_cases hhere : p = plan ∧ i = device ∧ t = thread
    · obtain ⟨rfl, rfl, rfl⟩ := hhere
      exact .inr ((hdone.pending_if p i t).trans (if_pos ⟨rfl, rfl, rfl⟩))
    · obtain ⟨f', hf', hmem⟩ := hran hdone
      refine .inl ⟨f', ?_, hmem⟩
      have hget : ((s₁.setShare p i { s₁.share p i with
          frames := (s₁.share p i).frames.insert t { f with retired := [] } }).share plan
          device).frames.get? thread = some f' := by
        rw [get?_frames_insert rfl, if_neg hhere]
        exact hf'
      exact hget

theorem Flushed.origin (h : Flushed p i t s r s')
    (hf : (s'.share plan device).frames.get? thread = some f) :
    ∃ f', (s.share plan device).frames.get? thread = some f' ∧ f'.address = f.address ∧
      f'.capacity = f.capacity := by
  cases h with
  | stopped hstop => exact ⟨f, hstop.share ▸ hf, rfl, rfl⟩
  | unframed hdone => exact ⟨f, hdone.share ▸ hf, rfl, rfl⟩
  | @freed s₁ f₀ heap _ hdone hf₀ =>
    have hget : ((s₁.setShare p i { s₁.share p i with
        frames := (s₁.share p i).frames.insert t { f₀ with retired := [] } }).share plan
        device).frames.get? thread = some f := hf
    rw [get?_frames_insert rfl] at hget
    rw [hdone.share] at hget hf₀
    split at hget
    · next heq =>
      obtain ⟨rfl, rfl, rfl⟩ := heq
      cases hget
      exact ⟨f₀, hf₀, rfl, rfl⟩
    · exact ⟨f, hget, rfl, rfl⟩

end Scene

def Step.AltersFrames : Step → Prop
  | .launch _ _ _ _ _ _ => True
  | .flush _ _ _ => True
  | .reset _ => True
  | _ => False

namespace Effect

variable {x : Step} {r : Option Error} {s s' : Scene} {a : Nat}

theorem frames (h : Effect x r s s') (hx : ¬x.AltersFrames) (p i : Nat) :
    (s'.share p i).frames = (s.share p i).frames := by
  cases h with
  | idle | notInstalled | sunk | taken | closed => rfl
  | retained | released | freed =>
    refine Scene.frames_setShare ?_ p i
    rfl
  | barrier he | written he | read he => exact he.frames p i
  | @installed p' i' _ _ _ _ _ _ kernels =>
    refine Scene.frames_setShare (s := s.setKernels i' kernels) ?_ p i
    rfl
  | @allocated p' i' size b heap =>
    refine Scene.frames_setShare (s := s.setHeap i' heap) ?_ p i
    rfl
  | framed | launched | flushed | reset => exact absurd trivial hx

theorem size (h : Effect x r s s') : s'.size = s.size := by
  have hran : ∀ {p i t : Nat} {s₁ : Scene} {r : Option Error}, Scene.Ran p i t s r s₁ →
      s₁.size = s.size := by
    intro p i t s₁ r hran
    obtain ⟨d, -, rfl⟩ := hran.shape
    rfl
  have hframed : ∀ {p i t bytes b : Nat} {s₁ : Scene}, Scene.Framed p i t bytes s b s₁ →
      s₁.size = s.size := by
    intro p i t bytes b s₁ hframed
    cases hframed with
    | kept | grown | first => rfl
  cases h with
  | barrier he | written he => exact he.size_eq
  | read he =>
    have hsize := he.size_eq
    exact hsize
  | framed hf => exact hframed hf
  | launched hkernel hf he => exact he.size_eq.trans (hframed hf)
  | flushed hflushed =>
    cases hflushed with
    | stopped hstop => exact hran hstop
    | unframed hdone => exact hran hdone
    | freed hdone =>
      have hsize := hran hdone
      exact hsize
  | reset hreset =>
    cases hreset with
    | stopped hshed | done hshed => exact hshed.size
  | _ => rfl

/-- A thread keeps its frames for as long as it has something recorded. -/
theorem inFrame (h : Effect x r s s') (hx : x = .reset plan → r = none)
    (ha : s.InFrame plan device thread a) :
    s'.InFrame plan device thread a ∨ s'.pending plan device thread = [] := by
  by_cases halters : x.AltersFrames
  · cases h with
    | idle => exact .inl ha
    | framed hframed => exact .inl (hframed.keeps ha)
    | launched hkernel hframed he =>
      obtain ⟨f, hf, hmem⟩ := hframed.keeps ha
      exact .inl ⟨f, (he.frames plan device).symm ▸ hf, hmem⟩
    | flushed hflushed => exact hflushed.keeps ha
    | @reset p _ _ _ hreset =>
      cases hreset with
      | @stopped e _ hshed =>
        have hp : plan ≠ p := fun heq => absurd (hx (congrArg _ heq.symm)) nofun
        unfold Scene.InFrame
        rw [hshed.others plan device hp]
        exact .inl ha
      | @done s₁ held hshed =>
        by_cases hp : p = plan
        · exact .inr (if_pos hp)
        · refine .inl ?_
          show ∃ f,
            (if p = plan then held else s₁.share plan device).frames.get? thread = some f ∧ _
          rw [if_neg hp, hshed.others plan device fun heq => hp heq.symm]
          exact ha
    | _ => exact halters.elim
  · unfold Scene.InFrame
    rw [h.frames halters]
    exact .inl ha

/-- Steps that keep frames live keep them sized. -/
theorem sized (h : Effect x r s s') (hx : ∀ p, x = .reset p → r = none) (hs : s.Sized)
    (hl : ∀ i, (s.heap i).Laid)
    (hlive : ∀ p i t f, i < s'.size → (s'.share p i).frames.get? t = some f →
      f.address ∈ (s'.heap i).blocks.keys) : s'.Sized := by
  have hsizes := h.sameSizes hl
  have hcount := h.size
  -- a frame that was there before still has its size
  have hold : ∀ p i t f f', i < s'.size → (s'.share p i).frames.get? t = some f →
      (s.share p i).frames.get? t = some f' → f'.address = f.address → f'.capacity = f.capacity →
      (s'.heap i).blockSize? f.address = some f.capacity := by
    intro p i t f f' hi hf hf' haddress hcapacity
    obtain ⟨n, hn⟩ := Table.mem_keys_iff.1 (hlive p i t f hi hf)
    have hbefore := hs p i t f' (hcount ▸ hi) hf'
    rw [haddress, hcapacity] at hbefore
    have heq := hsizes i f.address f.capacity n hbefore hn
    exact heq ▸ hn
  intro p i t f hi hf
  by_cases halters : x.AltersFrames
  · cases h with
    | idle => exact hs p i t f hi hf
    | framed hframed =>
      rcases hframed.origin hf with hf' | hsize
      · exact hold p i t f f hi hf hf' rfl rfl
      · exact hsize
    | launched hkernel hframed he =>
      have hf₁ := he.frames p i ▸ hf
      have hheap : s'.heap = _ := congrArg Scene.heap he.after
      rcases hframed.origin hf₁ with hf' | hsize
      · exact hold p i t f f hi hf hf' rfl rfl
      · rw [hheap]
        exact hsize
    | flushed hflushed =>
      obtain ⟨f', hf', haddress, hcapacity⟩ := hflushed.origin hf
      exact hold p i t f f' hi hf hf' haddress hcapacity
    | @reset q _ _ _ hreset =>
      cases hreset with
      | stopped => exact absurd (hx q rfl) nofun
      | @done s₁ held hshed hheld =>
        have hf₁ : (if q = p then held else s₁.share p i).frames.get? t = some f := hf
        by_cases hq : q = p
        · rw [if_pos hq, hheld.frames] at hf₁
          cases hf₁
        · rw [if_neg hq, hshed.others p i fun heq => hq heq.symm] at hf₁
          exact hold p i t f f hi hf hf₁ rfl rfl
    | _ => exact halters.elim
  · exact hold p i t f f hi hf (h.frames halters p i ▸ hf) rfl rfl

end Effect

/-! ## Balance -/

/-- The blocks of a balanced device. -/
theorem Balanced.laid (h : Balanced info c) (i : Nat) : (c.scene.heap i).Laid := by
  cases hd : c.devices[i]? with
  | none =>
    have hheap : c.scene.heap i = ({} : Simulator).heap := by
      show (c.devices.getD i {}).heap = _
      rw [Array.getD_eq_getD_getElem?, hd]
      rfl
    rw [hheap]
    exact ⟨nodup_nil, nofun⟩
  | some d =>
    have hgives := h.devices i d hd
    rw [(Context.scene_shows hd).heap]
    refine ⟨?_, fun a ha => ?_⟩
    · have hnodup : d.resources.Nodup := hgives.resources.nodup_iff.2 hgives.nodup
      exact .of_map _ (nodup_append.1 hnodup).1
    · exact hgives.blocks a ((Operate.mem_resources_iff hgives).1 (Operate.block_mem_iff.2 ha))

/-- Blocks that are held in a balanced context are live. -/
theorem Balanced.block_live (h : Balanced info c) {i a : Nat} (hi : i < c.devices.size)
    (ha : .block a ∈ c.holds i) : a ∈ (c.scene.heap i).blocks.keys := by
  have hd : c.devices[i]? = some c.devices[i] := Array.getElem?_eq_getElem hi
  rw [(Context.scene_shows hd).heap]
  exact Operate.block_mem_iff.1 ((Operate.mem_resources_iff (h.devices i _ hd)).2 ha)

theorem Balanced.frame_live (h : Balanced info c) {i a : Nat} (hi : i < c.devices.size)
    (ha : c.scene.InFrame plan i thread a) : a ∈ (c.scene.heap i).blocks.keys := by
  obtain ⟨f, hf, hmem⟩ := ha
  have hframe : .block a ∈ f.holds := by
    rcases mem_cons.1 hmem with rfl | hmem
    · exact mem_cons_self
    · exact mem_cons_of_mem _ (mem_map.2 ⟨a, hmem, rfl⟩)
  have hshare : .block a ∈ (c.share plan i).holds := by
    have hvalue : f ∈ (c.share plan i).frames.values :=
      mem_map.2 ⟨_, Table.mem_entries_of_get? hf, rfl⟩
    refine mem_append_right _ (mem_append_left _ ?_)
    exact mem_flatMap.2 ⟨f, hvalue, hframe⟩
  obtain ⟨rest, hall, -⟩ := c.setShare_holds plan i
  exact h.block_live hi (hall.mem_iff.2 (mem_append_left _ hshare))

variable {op : Operation}

/-- Plans and devices are in balance, and frames have their sizes. -/
structure Ordered (info : Nat → Info) (c : Context) : Prop where
  own : OwnLists info c
  balanced : Balanced info c
  sized : c.scene.Sized

namespace Ordered

theorem reset_ok (h : Ordered info c) (plan : Nat) : failure (Step.reset plan).run c = none := by
  obtain ⟨c', hrun, -⟩ := Control.reset_balanced plan h.balanced
  exact failure_of_ok (x := (Step.reset plan).run) hrun

theorem step (h : Ordered info c) (x : Step) : Ordered info (after x.run c) := by
  obtain ⟨hown, heffect⟩ := x.effect c h.own
  have hbalanced : Balanced info (after x.run c) := x.keeps c h.balanced
  refine ⟨hown, hbalanced, heffect.sized ?_ h.sized h.balanced.laid fun p i t f hi hf => ?_⟩
  · rintro p rfl
    exact h.reset_ok p
  · exact hbalanced.frame_live hi ⟨f, hf, mem_cons_self⟩

/-- A block in a frame keeps its size for as long as its thread has something recorded. -/
theorem step_inFrame (h : Ordered info c) (x : Step) {a n : Nat}
    (hdevice : device < c.devices.size) (ha : c.scene.InFrame plan device thread a)
    (hn : (c.scene.heap device).blockSize? a = some n) :
    (after x.run c).scene.InFrame plan device thread a ∧
        ((after x.run c).scene.heap device).blockSize? a = some n ∨
      (after x.run c).scene.pending plan device thread = [] := by
  obtain ⟨-, heffect⟩ := x.effect c h.own
  have hreset : x = .reset plan → failure x.run c = none := by
    rintro rfl
    exact h.reset_ok plan
  rcases heffect.inFrame hreset ha with hkept | hempty
  · refine .inl ⟨hkept, ?_⟩
    have hcount : device < (after x.run c).devices.size := by
      have hsize : (after x.run c).devices.size = c.devices.size := heffect.size
      rwa [hsize]
    have hlive := (h.step x).balanced.frame_live hcount hkept
    obtain ⟨m, hm⟩ := Table.mem_keys_iff.1 hlive
    have heq := heffect.sameSizes h.balanced.laid device a n m hn hm
    exact heq ▸ hm
  · exact .inr hempty

end Ordered

/-! ## Recorded launches -/

variable {range : Device.Range} {args : List Argument}

/-- A launch in a list to which others were added is in the list. -/
theorem Quiet.split {cs new pre post : List Command} {kernel base frame : Nat} (hnew : Quiet new)
    (h : cs ++ new = pre ++ .launch kernel range base frame :: post) :
    ∃ post', cs = pre ++ .launch kernel range base frame :: post' := by
  rcases append_eq_append_iff.1 h with ⟨mid, -, hmid⟩ | ⟨mid, hcs, hmid⟩
  · exact absurd (hmid ▸ by simp) (hnew kernel range base frame)
  · cases mid with
    | nil =>
      have hnew' : .launch kernel range base frame :: post = new := hmid
      exact absurd (hnew' ▸ mem_cons_self) (hnew kernel range base frame)
    | cons x mid =>
      cases hmid
      exact ⟨mid, hcs⟩

def launchEntry (b : Brackets) (kernel : Nat) (range : Device.Range) (a : Nat)
    (bytes : List UInt8) :
    List Command :=
  .stamp b.start :: (Control.launchCommands kernel range a bytes ++ [.stamp b.stop])

/-- A launch in a list to which a launch was added is in the list, or the new one. -/
theorem launchEntry_split {cs pre post : List Command} {b : Brackets} {k kernel a base frame : Nat}
    {r : Device.Range} {bytes : List UInt8}
    (h : cs ++ launchEntry b k r a bytes = pre ++ .launch kernel range base frame :: post) :
    (∃ post', cs = pre ++ .launch kernel range base frame :: post') ∨
      pre = cs ++ [.stamp b.start] ++ [.write a bytes, .barrier] ∧ k = kernel ∧ r = range ∧
        heapBase = base ∧ a - heapBase = frame ∧ post = [.stamp b.stop] := by
  rcases append_eq_append_iff.1 h with ⟨mid, hpre, hmid⟩ | ⟨mid, hcs, hmid⟩
  · -- the new commands, one after another
    match mid, hmid with
    | [], hmid | [_], hmid | [_, _], hmid => cases hmid
    | [_, _, _], hmid =>
      cases hmid
      refine .inr ⟨?_, rfl, rfl, rfl, rfl, rfl⟩
      rw [hpre, append_assoc]
      rfl
    | [_, _, _, _], hmid => cases hmid
    | _ :: _ :: _ :: _ :: _ :: mid, hmid =>
      simp [launchEntry, Control.launchCommands] at hmid
  · cases mid with
    | nil => cases hmid
    | cons x mid =>
      cases hmid
      exact .inl ⟨mid, hcs⟩

namespace Effect

variable {x : Step} {r : Option Error} {s s' : Scene}

/-- A step adds commands to the list of a thread or empties it, and adds a launch only
if it is one. -/
theorem recorded (h : Effect x r s s') (plan device thread : Nat) :
    (∃ new, Quiet new ∧ s'.pending plan device thread = s.pending plan device thread ++ new) ∨
    s'.pending plan device thread = [] ∨
    ∃ key range args kernel a index b w desc s₁, x = .launch plan device thread key range args ∧
      r = none ∧ Scene.Framed plan device thread (frameBytes args).length s a s₁ ∧
      Scene.Entered plan device thread desc
        (Control.launchCommands kernel range a (frameBytes args))
        index b w s₁ s' ∧
      s'.pending plan device thread =
        s.pending plan device thread ++ launchEntry b kernel range a (frameBytes args) := by
  rcases h.pending_cases plan device thread with hsame | hempty |
    ⟨desc, cs, index, b, w, s₁, he, hbefore, hcs⟩
  · exact .inl ⟨[], fun _ _ _ _ => not_mem_nil, by rw [hsame, append_nil]⟩
  · exact .inr (.inl hempty)
  · have hafter := he.pending_eq
    rw [hbefore] at hafter
    rcases hcs with hquiet | ⟨key, range, args, a, k, hx, hr, -, hframed, rfl⟩
    · refine .inl ⟨_, fun kernel range base frame hmem => hquiet kernel range base frame ?_, hafter⟩
      simpa using hmem
    · exact .inr (.inr ⟨key, range, args, k.handle, a, index, b, w, desc, s₁, hx, hr, hframed, he,
        hafter⟩)

end Effect

/-! ## Live frames -/

/-- Each launch of a thread has its arguments copied to one of the thread's frames, which
holds them. -/
def Scene.Covered (s : Scene) (plan device thread : Nat) : Prop :=
  ∀ pre a bytes kernel range base frame post,
    s.pending plan device thread =
      pre ++ [.write a bytes, .barrier] ++ .launch kernel range base frame :: post →
    s.InFrame plan device thread a ∧
      ∃ n, (s.heap device).blockSize? a = some n ∧ bytes.length ≤ n

theorem Ordered.step_covered (h : Ordered info c) (x : Step)
    (hdevice : device < c.devices.size) (hs : c.scene.Covered plan device thread) :
    (after x.run c).scene.Covered plan device thread := by
  intro pre a bytes kernel range base frame post hpending
  obtain ⟨-, heffect⟩ := x.effect c h.own
  have hnonempty : (after x.run c).scene.pending plan device thread ≠ [] := by
    rw [hpending]
    simp
  -- a launch that was there before
  have hold : ∀ post', c.scene.pending plan device thread =
      pre ++ [.write a bytes, .barrier] ++ .launch kernel range base frame :: post' →
      (after x.run c).scene.InFrame plan device thread a ∧
        ∃ n, ((after x.run c).scene.heap device).blockSize? a = some n ∧ bytes.length ≤ n := by
    intro post' hbefore
    obtain ⟨hin, n, hn, hle⟩ := hs pre a bytes kernel range base frame post' hbefore
    rcases h.step_inFrame x hdevice hin hn with ⟨hin', hn'⟩ | hempty
    · exact ⟨hin', n, hn', hle⟩
    · exact absurd hempty hnonempty
  rcases heffect.recorded plan device thread with ⟨new, hnew, hafter⟩ | hempty |
    ⟨key, range', args, k, a', index, b, w, desc, s₁, -, -, hframed, hentered, hafter⟩
  · obtain ⟨post', hbefore⟩ := hnew.split (hafter.symm.trans hpending)
    exact hold post' hbefore
  · exact absurd hempty hnonempty
  · rcases launchEntry_split (hafter.symm.trans hpending) with
      ⟨post', hbefore⟩ | ⟨hpre, -, -, -, -, -⟩
    · exact hold post' hbefore
    · -- the launch that was recorded now
      obtain ⟨-, hcopy⟩ := append_inj' hpre rfl
      cases hcopy
      obtain ⟨⟨f, hf, hmem⟩, n, hn, hle⟩ := hframed.inFrame h.sized hdevice
      refine ⟨⟨f, (hentered.frames plan device).symm ▸ hf, hmem⟩, n, ?_, hle⟩
      rw [hentered.heap_eq]
      exact hn

namespace Context

theorem Fresh.ordered (h : c.Fresh info) : Ordered info c := by
  refine ⟨h.own, h.balanced, fun p i t f _ hf => ?_⟩
  have hf' : (c.share p i).frames.get? t = some f := hf
  rw [h.share] at hf'
  cases hf'

variable {ops : List Operation}

/-- Operations keep the order, the number of devices and the frames. -/
theorem history_covered (hc : Ordered info c) (hs : c.scene.Covered plan device thread)
    (hdevice : device < c.devices.size) : (c.history ops).scene.Covered plan device thread := by
  let P c := Ordered info c ∧ device < c.devices.size ∧ c.scene.Covered plan device thread
  refine (history_invariant (P := P) (fun op _ c => ?_) ⟨hc, hdevice, hs⟩).2.2
  refine Operation.perform_invariant (P := P) fun x _ c ⟨hc, hdevice, hs⟩ => ?_
  have hsize : (after x.run c).devices.size = c.devices.size := (x.effect c hc.own).2.size
  exact ⟨hc.step x, hsize ▸ hdevice, hc.step_covered x hdevice hs⟩

theorem history_size (hc : OwnLists info c) (ops : List Operation) :
    (c.history ops).devices.size = c.devices.size :=
  history_scene (Q := fun s => s.size = c.scene.size)
    (fun _ _ _ _ heffect hs => heffect.size.trans hs)
    hc rfl ops

/-! ## Where a launch comes from -/

/-- The commands at the start of a thread's list, up to a launch, were in it when an
operation of a history had recorded the launch with these arguments, and ever since. -/
def Sent (c : Context) (ops : List Operation) (plan device thread : Nat) (range : Device.Range)
    (args : List Argument) (cs : List Command) : Prop :=
  ∃ before key rest stop, ops = before ++ .launch plan device thread key range args :: rest ∧
    failure (Control.launch plan device thread key range args) (c.history before) = none ∧
    (c.history (before ++ [.launch plan device thread key range args])).pending plan device thread =
      cs ++ [.stamp stop] ∧
    ∀ since, since <+: rest → cs ++ [.stamp stop] <+:
      (c.history (before ++ .launch plan device thread key range args :: since)).pending plan device
        thread

/-- What was sent stays so while its list grows. -/
theorem Sent.extend {cs new : List Command} (h : c.Sent ops plan device thread range args cs)
    (hafter : (c.history (ops ++ [op])).pending plan device thread =
      (c.history ops).pending plan device thread ++ new) :
    c.Sent (ops ++ [op]) plan device thread range args cs := by
  obtain ⟨before, key, rest, stop, rfl, hok, hpending, hsince⟩ := h
  refine ⟨before, key, rest ++ [op], stop, by simp, hok, hpending, fun since hpre => ?_⟩
  rcases prefix_concat_iff.1 hpre with rfl | hpre
  · have hall : before ++ .launch plan device thread key range args :: (rest ++ [op]) =
        before ++ .launch plan device thread key range args :: rest ++ [op] := by simp
    rw [hall, hafter]
    exact (hsince rest (prefix_refl _)).trans (prefix_append _ _)
  · exact hsince since hpre

end Context

theorem Operation.uses_launch {key : String}
    (h : op.Uses (.launch plan device thread key range args)) :
    op = .launch plan device thread key range args := by
  cases op with
  | launch => cases h; rfl
  | _ => simp [Uses] at h

/-- An operation that is no launch of a thread adds none to its list. -/
theorem Operation.perform_recorded (hc : OwnLists info c)
    (hop : ∀ key range args, op ≠ .launch plan device thread key range args) :
    (∃ new, Quiet new ∧ (after op.perform c).pending plan device thread =
      c.pending plan device thread ++ new) ∨
        Quiet ((after op.perform c).pending plan device thread) := by
  refine perform_scene (Q := fun s => (∃ new, Quiet new ∧ s.pending plan device thread =
    c.pending plan device thread ++ new) ∨ Quiet (s.pending plan device thread))
    (fun x r s s' hx heffect hlist => ?_) hc (.inl ⟨[], fun _ _ _ _ => not_mem_nil,
      (append_nil _).symm⟩)
  rcases heffect.recorded plan device thread with ⟨new, hnew, hadded⟩ | hempty |
    ⟨key, range, args, k, a, index, b, w, desc, s₁, rfl, -⟩
  · rw [hadded]
    rcases hlist with ⟨old, hold, heq⟩ | hquiet
    · refine .inl ⟨old ++ new, fun k r b f hmem => ?_, by rw [heq, append_assoc]⟩
      exact (mem_append.1 hmem).elim (hold k r b f) (hnew k r b f)
    · exact .inr fun k r b f hmem => (mem_append.1 hmem).elim (hquiet k r b f) (hnew k r b f)
  · rw [hempty]
    exact .inr fun _ _ _ _ => not_mem_nil
  · exact absurd (uses_launch hx) (hop key range args)

namespace Context

/-- Each launch in a list was recorded by an operation, right behind a copy of that
operation's arguments. -/
theorem history_sent (hc : c.Fresh info) (ops : List Operation) :
    ∀ pre kernel range base frame post, (c.history ops).pending plan device thread =
      pre ++ .launch kernel range base frame :: post →
    ∃ args a pre',
      c.Sent ops plan device thread range args (pre ++ [.launch kernel range base frame]) ∧
      pre = pre' ++ [.write a (frameBytes args), .barrier] ∧ base = heapBase ∧
      frame = a - heapBase := by
  induction ops using List.reverseRecOn with
  | nil =>
    intro pre kernel range base frame post hpending
    have hempty : c.pending plan device thread = [] := hc.pending plan device thread
    exact absurd (hempty.symm.trans hpending) (by simp)
  | append_singleton ops op ih =>
    intro pre kernel range base frame post hpending
    have hown := history_own hc.own ops
    have hstep : c.history (ops ++ [op]) = after op.perform (c.history ops) :=
      c.history_append ops [op]
    -- a launch that was in the list before the last operation
    have hold : ∀ post' new, (c.history ops).pending plan device thread =
        pre ++ .launch kernel range base frame :: post' →
        (c.history (ops ++ [op])).pending plan device thread =
          (c.history ops).pending plan device thread ++ new →
        ∃ args a pre', c.Sent (ops ++ [op]) plan device thread range args
          (pre ++ [.launch kernel range base frame]) ∧
          pre = pre' ++ [.write a (frameBytes args), .barrier] ∧ base = heapBase ∧
          frame = a - heapBase := by
      intro post' new hbefore hafter
      obtain ⟨args, a, pre', hsent, hrest⟩ := ih pre kernel range base frame post' hbefore
      exact ⟨args, a, pre', hsent.extend hafter, hrest⟩
    by_cases hop : ∃ key range' args, op = .launch plan device thread key range' args
    · obtain ⟨key, range', args, rfl⟩ := hop
      have hafter : c.history (ops ++ [.launch plan device thread key range' args]) =
          after (Step.launch plan device thread key range' args).run (c.history ops) := hstep
      obtain ⟨-, heffect⟩ := Step.effect (.launch plan device thread key range' args) _ hown
      rw [hafter] at hpending hold
      rcases heffect.recorded plan device thread with ⟨new, hnew, hadded⟩ | hempty |
        ⟨_, _, _, k, a, index, b, w, desc, s₁, hx, hok, -, -, hadded⟩
      · obtain ⟨post', hbefore⟩ := hnew.split (hadded.symm.trans hpending)
        exact hold post' new hbefore hadded
      · exact absurd (hempty.symm.trans hpending) (by simp)
      · cases hx
        rcases launchEntry_split (hadded.symm.trans hpending) with
          ⟨post', hbefore⟩ | ⟨hpre, rfl, rfl, hbase, hframe, hpost⟩
        · exact hold post' _ hbefore hadded
        · refine ⟨args, a, _, ⟨ops, key, [], b.stop, rfl, ?_, ?_, fun since hsince => ?_⟩, hpre,
            hbase.symm, hframe.symm⟩
          · exact (Step.failure_discard _ _).symm.trans hok
          · rw [hafter, hpending, hpost]
            simp
          · cases prefix_nil.1 hsince
            rw [hafter, hpending, hpost]
            simp
    · have hother : ∀ key range' args, op ≠ .launch plan device thread key range' args :=
        fun key range' args heq => hop ⟨key, range', args, heq⟩
      rw [hstep] at hpending hold
      rcases Operation.perform_recorded hown hother with ⟨new, hnew, hadded⟩ | hquiet
      · obtain ⟨post', hbefore⟩ := hnew.split (hadded.symm.trans hpending)
        exact hold post' new hbefore hadded
      · exact absurd (hpending ▸ by simp) (hquiet kernel range base frame)

/-- **launch_reads_arguments**: when the commands before a launch in a thread's list were run, the
frame the launch is given holds the arguments of the operation that recorded it, and it is a live
block that has room for them. -/
theorem launch_reads_arguments (info : Nat → Info) (c : Context) (hc : c.Fresh info)
    (ops : List Operation) (plan device thread kernel base frame : Nat) (range : Device.Range)
    (pre post : List Command) (d d' : Simulator) (lists : Table Nat (List Command))
    (hd : (c.history ops).devices[device]? = some d)
    (hpending : (c.history ops).pending plan device thread =
      pre ++ .launch kernel range base frame :: post)
    (hrun : pre.forM Operate.execute { d with lists } = .ok () d') :
    ∃ args, c.Sent ops plan device thread range args (pre ++ [.launch kernel range base frame]) ∧
      d'.heap.Holds (base + frame) (frameBytes args) ∧
      ∃ size, d'.heap.blockSize? (base + frame) = some size ∧ (frameBytes args).length ≤ size := by
  obtain ⟨args, a, pre', hsent, rfl, hbase, hframe⟩ :=
    history_sent hc ops pre kernel range base frame post hpending
  -- the copy is the last that runs before the launch
  obtain ⟨d₁, hfirst, hcopy⟩ := Operate.executeAll_append hrun
  have hholds : d'.heap.Holds a (frameBytes args) := Codegen.copied_holds hcopy
  have hle : heapBase ≤ a := (Heap.holds_iff.1 hholds).1.1
  have haddress : base + frame = a := by omega
  rw [haddress]
  refine ⟨args, hsent, hholds, ?_⟩
  have hcount : device < c.devices.size := by
    rw [← history_size hc.own ops]
    exact (Array.getElem?_eq_some_iff.1 hd).1
  have hstart : c.scene.Covered plan device thread := by
    intro pre a bytes kernel range base frame post hpre
    have hempty : c.scene.pending plan device thread = [] := hc.pending plan device thread
    exact absurd (hempty.symm.trans hpre) (by simp)
  obtain ⟨-, n, hn, hle⟩ := history_covered hc.ordered hstart hcount pre' a (frameBytes args)
    kernel range _ _ post hpending
  have hrunning : ({ d with lists } : Simulator).Running d' :=
    after_of_ok hrun ▸ Operate.executeAll_running _ _
  refine ⟨n, ?_, hle⟩
  rw [(scene_shows hd).heap] at hn
  unfold Heap.blockSize? at hn ⊢
  rw [hrunning.heap.blocks]
  exact hn

/-- A launch, and another of the thread that outgrows its frame. -/
def outgrownFrame : List Operation :=
  [.install 0 0 "m" "k" (kernelEnding 0x000100FD), .launch 0 0 3 "m-k" {} [.bool true],
    .launch 0 0 3 "m-k" {} (List.replicate 17 (.int 5))]

theorem launch_reads_arguments_outgrown :
    ∃ d d' : Simulator, (({} : Context).history outgrownFrame).devices[0]? = some d ∧
      [.stamp 0, .write heapBase (frameBytes [.bool true]), .barrier].forM
        Operate.execute d =
        .ok () d' ∧
      ∃ args, ({} : Context).Sent outgrownFrame 0 0 3 {} args
          [.stamp 0, .write heapBase (frameBytes [.bool true]), .barrier,
            .launch 1 {} heapBase 0] ∧
        d'.heap.Holds heapBase (frameBytes args) ∧
        ∃ size, d'.heap.blockSize? heapBase = some size ∧
          (frameBytes args).length ≤ size := by
  have hruns : ∀ d ∈ (({} : Context).history outgrownFrame).devices[0]?,
      failure ([.stamp 0, .write heapBase (frameBytes [.bool true]), .barrier].forM
        Operate.execute) d = none := by
    decide +kernel
  have hpending : (({} : Context).history outgrownFrame).pending 0 0 3 =
      [.stamp 0, .write heapBase (frameBytes [.bool true]), .barrier] ++
        .launch 1 {} heapBase 0 :: [.stamp 1, .stamp 2,
          .write (heapBase + 128) (frameBytes (List.replicate 17 (.int 5))), .barrier,
          .launch 1 {} heapBase 128, .stamp 3] := by
    decide +kernel
  obtain ⟨d, hd⟩ : ∃ d, (({} : Context).history outgrownFrame).devices[0]? = some d :=
    Option.isSome_iff_exists.1 (by decide +kernel)
  obtain ⟨u, hok⟩ := ok_of_failure (hruns d hd)
  obtain ⟨args, hsent, hholds, hlive⟩ := launch_reads_arguments (fun _ => {}) {} fresh_default
    outgrownFrame 0 0 3 1 heapBase 0 {} _ _ d _ d.lists hd hpending hok
  exact ⟨d, _, hd, hok, args, hsent, hholds, hlive⟩

end Context

end KernelForge.Host
