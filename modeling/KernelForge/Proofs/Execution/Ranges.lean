import KernelForge.Device.Machine
import Mathlib.Data.List.Nodup

/-!
# Coverage of a range

A launch runs the workgroups of its range in turn, and each of them its work-items in turn
(`Program.launch_eq`, `Program.runGroup_eq`). Where the workgroups divide the range evenly, every
point of the range is the global id of exactly one work-item, and the work-items of a workgroup
stand side by side (`Range.items_cover`).

A device measures a workgroup by a product of 64 bits. It accepts exactly the even ranges with small
workgroups, and an even range whose workgroups are beyond 64 bits is not refused: it stops the
device (`Range.check_accepts`).
-/

namespace KernelForge.Device

open List Extent WorkItem

/-! ## Boxes -/

namespace Extent

/-- A relation in each dimension. -/
def Each (R : Nat → Nat → Prop) (a b : Extent) : Prop := R a.x b.x ∧ R a.y b.y ∧ R a.z b.z

/-- A point of a box. -/
def Holds (e p : Extent) : Prop := p.Each (· < ·) e

/-- Where a point stands among the points of a box. -/
def position (e p : Extent) : Nat := p.x + e.x * (p.y + e.y * p.z)

theorem position_point (e : Extent) (n : Nat) : e.position (e.point n) = n := by
  simp only [position, point, ← Nat.div_div_eq_div_mul, Nat.mod_add_div]

variable {e p : Extent}

theorem point_lt {n : Nat} (h : n < e.volume) : e.Holds (e.point n) := by
  obtain ⟨x, y, z⟩ := e
  have h : n < x * y * z := h
  have hxy : 0 < x * y := Nat.pos_of_ne_zero fun h0 => by simp [h0] at h
  exact ⟨Nat.mod_lt _ (Nat.pos_of_mul_pos_right hxy), Nat.mod_lt _ (Nat.pos_of_mul_pos_left hxy),
    Nat.div_lt_of_lt_mul h⟩

theorem point_position (h : e.Holds p) : e.point (e.position p) = p := by
  obtain ⟨hx, hy, -⟩ := h
  have hdiv : e.position p / e.x = p.y + e.y * p.z := by
    rw [position, Nat.add_mul_div_left _ _ (by omega), Nat.div_eq_of_lt hx, Nat.zero_add]
  rw [point, ← Nat.div_div_eq_div_mul, hdiv, position, Nat.add_mul_mod_self_left,
    Nat.add_mul_mod_self_left, Nat.add_mul_div_left _ _ (by omega), Nat.div_eq_of_lt hy,
    Nat.mod_eq_of_lt hx, Nat.mod_eq_of_lt hy, Nat.zero_add]

theorem position_lt (h : e.Holds p) : e.position p < e.volume := by
  have hstep : ∀ {a b c d : Nat}, a < b → c < d → a + b * c < b * d := fun {a b c d} ha hc => by
    have := Nat.mul_le_mul_left b hc
    rw [Nat.mul_succ] at this
    omega
  rw [volume, Nat.mul_assoc]
  exact hstep h.1 (hstep h.2.1 h.2.2)

theorem nodup_points (e : Extent) : e.points.Nodup :=
  nodup_range.map (Function.LeftInverse.injective e.position_point)

theorem mem_points : p ∈ e.points ↔ e.Holds p := by
  constructor
  · intro h
    obtain ⟨n, hn, rfl⟩ := mem_map.1 h
    exact point_lt (mem_range.1 hn)
  · exact fun h => mem_map.2 ⟨_, mem_range.2 (position_lt h), point_position h⟩

end Extent

/-! ## Launches -/

/-- Take steps in turn up to the first fault. -/
def inTurn {ι σ : Type} (step : ι → σ → σ × Option Fault) : List ι → σ → σ × Option Fault
  | [], s => (s, none)
  | i :: rest, s =>
    match step i s with
    | (s, none) => inTurn step rest s
    | (s, some fault) => (s, some fault)

/-- A fault that no step meets is not met in turn. -/
theorem inTurn_free {ι σ : Type} {step : ι → σ → σ × Option Fault} {is : List ι} {fault : Fault}
    (h : ∀ i ∈ is, ∀ s, (step i s).2 ≠ some fault) (s : σ) : (inTurn step is s).2 ≠ some fault := by
  induction is generalizing s with
  | nil => exact nofun
  | cons i rest ih =>
    obtain ⟨hi, hrest⟩ := forall_mem_cons.1 h
    have hi := hi s
    unfold inTurn
    split
    · exact ih hrest _
    · next heq =>
      rw [heq] at hi
      exact hi

namespace Program

variable (p : Program) (entry : Spirv.Id) (args : List Value) (range : Range)

theorem runItems_eq (group : Extent) (count position : Nat) (store : Store) :
    p.runItems entry args range group count position store = inTurn (p.runItem entry args)
      ((range' position count).map (range.item group <| range.perGroup.point ·)) store := by
  induction count generalizing position store with
  | zero => rfl
  | succ count ih =>
    simp only [runItems, range'_succ, map_cons, inTurn, ih]
    rcases p.runItem entry args _ store with ⟨_, _ | _⟩ <;> rfl

theorem runGroups_eq (count position : Nat) (heap : Heap) :
    p.runGroups entry args range count position heap = inTurn (p.runGroup entry args range)
      ((range' position count).map range.groups.point) heap := by
  induction count generalizing position heap with
  | zero => rfl
  | succ count ih =>
    simp only [runGroups, range'_succ, map_cons, inTurn, ih]
    rcases p.runGroup entry args range _ heap with ⟨_, _ | _⟩ <;> rfl

/-- A workgroup runs its work-items in turn, with variables of its own. -/
theorem runGroup_eq (group : Extent) (heap : Heap) : p.runGroup entry args range group heap =
    match p.groupStorage with
    | .error fault => (heap, some fault)
    | .ok vars =>
      let (store, fault) := inTurn (p.runItem entry args) (range.groupItems group) ⟨heap, vars, #[]⟩
      (store.heap, fault) := by
  simp only [runGroup, runItems_eq, Range.groupItems, points, range_eq_range', map_map]
  rfl

/-- A launch runs the workgroups of its range in turn. -/
theorem launch_eq (base frame : Nat) (heap : Heap) : p.launch entry range base frame heap =
    match p.entryArgs entry base frame with
    | .error fault => (heap, some fault)
    | .ok args => inTurn (p.runGroup entry args range) range.groups.points heap := by
  cases h : p.entryArgs entry base frame with
  | error | ok => simp only [launch, h, runGroups_eq, points, range_eq_range']

end Program

/-! ## Work-items -/

namespace Range

variable {r : Range}

/-- Workgroups that cut each dimension of a range without rest. -/
def Even (r : Range) : Prop := r.perGroup.Each (fun l g => l ≠ 0 ∧ l ∣ g) r.global

instance : Decidable r.Even := inferInstanceAs (Decidable (_ ∧ _ ∧ _))

theorem mem_items {i : WorkItem} : i ∈ r.items ↔
    ∃ group position, r.groups.Holds group ∧ r.perGroup.Holds position ∧
      r.item group position = i := by
  simp [items, groupItems, mem_points]

/-- A coordinate below a multiple of a size lies in one of its parts, at one place. -/
theorem coordinate_iff {l g n : Nat} (h : l ≠ 0 ∧ l ∣ g) :
    n < g ↔ n / l < g / max l 1 ∧ n % l < l := by
  obtain ⟨hl, k, rfl⟩ := h
  have hpos : 0 < l := Nat.pos_of_ne_zero hl
  rw [Nat.max_eq_left hpos, Nat.mul_div_cancel_left _ hpos, Nat.div_lt_iff_lt_mul hpos,
    Nat.mul_comm]
  exact ⟨fun h => ⟨h, Nat.mod_lt _ hpos⟩, And.left⟩

/-- The workgroup of a point, and its place there. -/
def split (r : Range) (p : Extent) : Extent × Extent :=
  (p.map₂ (· / ·) r.perGroup, p.map₂ (· % ·) r.perGroup)

theorem split_globalId {group position : Extent} (h : r.perGroup.Holds position) :
    r.split (r.item group position).globalId = (group, position) := by
  obtain ⟨hx, hy, hz⟩ := h
  have hdiv : ∀ {a b l : Nat}, b < l → (a * l + b) / l = a := fun {a b l} hb => by
    rw [Nat.mul_comm, Nat.mul_add_div (by omega), Nat.div_eq_of_lt hb, Nat.add_zero]
  have hmod : ∀ {a b l : Nat}, b < l → (a * l + b) % l = b := fun {a b l} hb => by
    rw [Nat.mul_comm, Nat.mul_add_mod, Nat.mod_eq_of_lt hb]
  simp only [split, item, map₂, hdiv hx, hdiv hy, hdiv hz, hmod hx, hmod hy, hmod hz]

theorem globalId_split (r : Range) (p : Extent) :
    (r.item (r.split p).1 (r.split p).2).globalId = p := by
  simp only [split, item, map₂, Nat.div_add_mod']

theorem holds_split (h : r.Even) {p : Extent} : r.global.Holds p ↔
    r.groups.Holds (r.split p).1 ∧ r.perGroup.Holds (r.split p).2 := by
  obtain ⟨hx, hy, hz⟩ := h
  simp only [Holds, Each, split, groups, map₂, coordinate_iff hx,
    coordinate_iff hy, coordinate_iff hz]
  grind

/-- Workgroups and places are paired in order. -/
theorem split_items (r : Range) : (r.items.map globalId).map r.split =
    r.groups.points ×ˢ r.perGroup.points := by
  simp only [items, groupItems, map_flatMap, map_map]
  refine flatMap_congr fun group _ => map_congr_left fun position hp => ?_
  exact split_globalId (mem_points.1 hp)

theorem mem_globalIds (h : r.Even) {p : Extent} :
    p ∈ r.items.map globalId ↔ r.global.Holds p := by
  rw [mem_map, holds_split h]
  constructor
  · rintro ⟨i, hi, rfl⟩
    obtain ⟨group, position, hg, hp, rfl⟩ := mem_items.1 hi
    rw [split_globalId hp]
    exact ⟨hg, hp⟩
  · exact fun ⟨hg, hp⟩ => ⟨_, mem_items.2 ⟨_, _, hg, hp, rfl⟩, r.globalId_split p⟩

/-- The work-items of a workgroup stand side by side. -/
theorem groupItems_consecutive {group : Extent} (h : r.groups.Holds group) :
    ∃ before after, r.items = before ++ r.groupItems group ++ after ∧
      ∀ i ∈ before ++ after, i.groupId ≠ group := by
  obtain ⟨gs, gs', hsplit⟩ := mem_iff_append.1 (mem_points.2 h)
  have hnodup := hsplit ▸ r.groups.nodup_points
  refine ⟨gs.flatMap r.groupItems, gs'.flatMap r.groupItems, by simp [items, hsplit], ?_⟩
  rw [← flatMap_append]
  rintro i hi rfl
  obtain ⟨g, hg, hi⟩ := mem_flatMap.1 hi
  obtain ⟨_, -, rfl⟩ := mem_map.1 hi
  exact (nodup_middle.1 hnodup).notMem hg

/-- **items_cover**: where workgroups divide a range evenly, its points are the global ids of its
work-items, each of one; an item knows its place in its workgroup, and those of a workgroup follow
each other. These are the work-items that a launch runs. -/
theorem items_cover (r : Range) (h : r.Even) :
    (r.items.map globalId).Nodup ∧
    (∀ p, p ∈ r.items.map globalId ↔ r.global.Holds p) ∧
    (∀ i ∈ r.items, i.globalId = (i.groupId.map₂ (· * ·) r.perGroup).map₂ (· + ·) i.localId ∧
      r.perGroup.Holds i.localId ∧ r.groups.Holds i.groupId) ∧
    (∀ group, r.groups.Holds group → ∃ before after,
      r.items = before ++ r.groupItems group ++ after ∧
        (∀ i ∈ r.groupItems group, i.groupId = group) ∧
      ∀ i ∈ before ++ after, i.groupId ≠ group) ∧
    ∀ (p : Program) entry base frame heap, p.launch entry r base frame heap =
      match p.entryArgs entry base frame with
      | .error fault => (heap, some fault)
      | .ok args => inTurn (fun group heap =>
          match p.groupStorage with
          | .error fault => (heap, some fault)
          | .ok vars =>
            let (store, fault) :=
              inTurn (p.runItem entry args) (r.groupItems group) ⟨heap, vars, #[]⟩
            (store.heap, fault)) r.groups.points heap := by
  refine ⟨?_, fun p => mem_globalIds h, ?_, ?_, ?_⟩
  · refine Nodup.of_map r.split ?_
    rw [split_items]
    exact r.groups.nodup_points.product r.perGroup.nodup_points
  · intro i hi
    obtain ⟨group, position, hg, hp, rfl⟩ := mem_items.1 hi
    exact ⟨rfl, hp, hg⟩
  · intro group hg
    obtain ⟨before, after, hitems, hothers⟩ := groupItems_consecutive hg
    refine ⟨before, after, hitems, fun i hi => ?_, hothers⟩
    obtain ⟨_, -, rfl⟩ := mem_map.1 hi
    rfl
  · intro p entry base frame heap
    simp only [p.launch_eq, ← p.runGroup_eq]

theorem items_cover_plane : (plane (4, 6) (2, 3)).Even ∧
    ((plane (4, 6) (2, 3)).items.map globalId).Nodup :=
  have heven : (plane (4, 6) (2, 3)).Even := by decide
  ⟨heven, (items_cover _ heven).1⟩

/-! ## Admission -/

theorem checkDimension_iff {dimension g l : Nat} :
    checkDimension dimension g l = .ok () ↔ l ≠ 0 ∧ l ∣ g := by
  unfold checkDimension
  grind [Nat.dvd_iff_mod_eq_zero]

theorem wordOr_trapped_iff {trap : Trap} {n : Nat} :
    wordOr trap n = .error (.trapped trap) ↔ Nat.pow 2 64 ≤ n := by
  unfold wordOr
  split
  · next hlt => exact ⟨nofun, fun hle => absurd hle (Nat.not_le.2 hlt)⟩
  · next hle => exact ⟨fun _ => Nat.not_lt.1 hle, fun _ => rfl⟩

/-- Uneven ranges are refused for a dimension, whatever else is wrong with them. -/
theorem check_of_not_even {r : Range} (h : ¬r.Even) (info : Info) :
    ∃ g l d, r.check info = .error (.unevenRange g l d) := by
  have hrefused : ∀ {g l d : Nat}, ¬(l ≠ 0 ∧ l ∣ g) →
      checkDimension d g l = .error (.unevenRange g l d) := by
    intro g l d hnot
    unfold checkDimension
    grind [Nat.dvd_iff_mod_eq_zero]
  have hgo : ∀ {x : Except Fault Unit} {y : Except Fault Unit}, x = .ok () →
    (x >>= fun _ => y) = y := by
    rintro _ y rfl
    rfl
  have hstop : ∀ {x y : Except Fault Unit} {fault : Fault}, x = .error fault →
      (x >>= fun _ => y) = .error fault := by
    rintro _ y fault rfl
    rfl
  unfold check
  by_cases hx : r.perGroup.x ≠ 0 ∧ r.perGroup.x ∣ r.global.x
  · rw [hgo (checkDimension_iff.2 hx)]
    by_cases hy : r.perGroup.y ≠ 0 ∧ r.perGroup.y ∣ r.global.y
    · rw [hgo (checkDimension_iff.2 hy)]
      exact ⟨_, _, _, hstop (hrefused fun hz => h ⟨hx, hy, hz⟩)⟩
    · exact ⟨_, _, _, hstop (hrefused hy)⟩
  · exact ⟨_, _, _, hstop (hrefused hx)⟩

/-- An even range is measured. -/
theorem check_of_even {r : Range} (h : r.Even) (info : Info) :
    r.check info =
      if r.perGroup.volume < Nat.pow 2 64 then
        if info.maxWorkgroup < r.perGroup.volume then
          .error (.groupTooLarge r.perGroup.volume info.maxWorkgroup)
        else .ok ()
      else .error (.trapped .product) := by
  obtain ⟨hx, hy, hz⟩ := h
  unfold check groupSize wordOr
  rw [checkDimension_iff.2 hx, checkDimension_iff.2 hy, checkDimension_iff.2 hz]
  split <;> rfl

/-- **check_accepts**: a device whose greatest workgroup is a 64-bit word accepts exactly the even
ranges whose workgroups are no greater. The numbers of work-items, of a workgroup and in all, are
words too: an even range with more work-items in a workgroup stops the device, and so does every
range with more work-items in all once they are counted. -/
theorem check_accepts (r : Range) (info : Info) (hword : info.maxWorkgroup < Nat.pow 2 64) :
    (r.check info = .ok () ↔ r.Even ∧ r.perGroup.volume ≤ info.maxWorkgroup) ∧
    (r.check info = .error (.trapped .product) ↔ r.Even ∧ Nat.pow 2 64 ≤ r.perGroup.volume) ∧
    (r.total = .error (.trapped .product) ↔ Nat.pow 2 64 ≤ r.global.volume) := by
  rw [total, wordOr_trapped_iff]
  by_cases heven : r.Even
  · rw [check_of_even heven]
    split
    · next hlt =>
      split
      · next hlarge => simp [heven, hlt, hlarge]
      · next hsmall => simpa [heven, hlt] using hsmall
    · next hbeyond =>
      have hlarge : ¬r.perGroup.volume ≤ info.maxWorkgroup := by omega
      simpa [heven, hlarge] using hbeyond
  · obtain ⟨g, l, d, herr⟩ := check_of_not_even heven info
    simp [herr, heven]

theorem check_accepts_cube : ({} : Info).maxWorkgroup < Nat.pow 2 64 ∧
    (⟨⟨20, 10, 10⟩, ⟨10, 10, 10⟩⟩ : Range).check {} = .ok () := by
  have hword : ({} : Info).maxWorkgroup < Nat.pow 2 64 := by decide
  exact ⟨hword, (check_accepts _ _ hword).1.2 (by decide)⟩

/-- Sizes of 32 bits with a product of 65 bits: the device has no answer. -/
theorem overlong_workgroup_stops :
    (⟨⟨4194304, 2097152, 2097152⟩, ⟨4194304, 2097152, 2097152⟩⟩ : Range).check {} =
      .error (.trapped .product) :=
  rfl

end Range

end KernelForge.Device
