import KernelForge.Host.EventWindow
import Mathlib.Data.List.Rotate

/-!
# The slots that events take

The free slots of a window stand in a queue, and a new event takes the first of them. In a circular
window the slot then goes to the end of the queue; in a linear one it leaves the queue until it is
released. What is free is told by the requests and their replies alone: `note` keeps the record.
-/

namespace KernelForge.Host

open List
open Function (update update_apply update_of_ne update_self)

/-- A slot that a linear window may give out. -/
def Slot.free {τ : Type} (s : Slot τ) : Bool := !s.live && !s.retained

namespace EventWindow

variable {τ : Type} {w w' : EventWindow τ} {desc : Descriptor} {b : τ} {index : Nat} {c i n : Nat}
  {p : Nat → Bool} {e : Error}

/-- What is asked of a window. -/
inductive Request (τ : Type) where
  | register (d : Descriptor) (times : τ)
  | retain (index : Nat)
  | release (index : Nat)
  | reset

/-- Requests that do not give a slot free. -/
def Request.Spares (i : Nat) : Request τ → Prop
  | .release j => j ≠ i
  | .reset => False
  | _ => True

/-- The slot an event was put in, or nothing to tell. -/
abbrev Reply := Except Error (Option Nat)

/-- What is known of the slots after one more request and its reply. -/
def note (s : Nat → Slot τ) : Request τ × Reply → Nat → Slot τ
  | (.register d times, .ok (some i)) =>
    update s i { s i with event := some (d, times), live := true }
  | (.retain i, .ok _) => update s i { s i with retained := true }
  | (.release i, .ok _) => update s i { s i with retained := false, live := false }
  | (.reset, .ok _) => fun _ => {}
  | _ => s

/-! ## Slots -/

def slot (w : EventWindow τ) (i : Nat) : Slot τ := w.slots.getD i {}

theorem slot_of_le (h : w.capacity ≤ i) : w.slot i = {} := by
  unfold slot
  rw [Array.getD_eq_getD_getElem?, Array.getElem?_eq_none h]
  rfl

theorem slot_new (capacity : Nat) (circular : Bool) :
    (new capacity circular : EventWindow τ).slot = fun _ => {} := by
  funext i
  unfold slot new
  rw [Array.getD_eq_getD_getElem?, Array.getElem?_replicate]
  split <;> rfl

/-- A slot is changed in a window that has it. -/
theorem slot_modify (f : Slot τ → Slot τ) (cursor : Nat) (h : i < w.capacity) :
    { w with slots := w.slots.modify i f, cursor }.slot = update w.slot i (f (w.slot i)) := by
  funext j
  unfold slot
  rw [Array.getD_eq_getD_getElem?, Array.getElem?_modify]
  by_cases hj : i = j
  · subst hj
    rw [if_pos rfl, update_self, Array.getD_eq_getD_getElem?,
      Array.getElem?_eq_getElem (show i < w.slots.size from h)]
    rfl
  · rw [if_neg hj, update_of_ne (Ne.symm hj), Array.getD_eq_getD_getElem?]

theorem event_eq (w : EventWindow τ) (i : Nat) : w.event i =
    match (w.slot i).event with
    | some e => .ok e
    | none => .error (.undefinedEvent i) := rfl

theorem event_of_slot {e : Descriptor × τ} (h : (w.slots.getD index {}).event = some e) :
    w.event index = .ok e := by
  unfold event
  rw [h]

theorem event_congr (h : (w'.slot i).event = (w.slot i).event) : w'.event i = w.event i := by
  rw [event_eq, event_eq, h]

/-- Keeping a slot, or giving it free, leaves its event. -/
theorem event_modify (cursor j : Nat) (f : Slot τ → Slot τ) (hf : ∀ s, (f s).event = s.event) :
    { w with slots := w.slots.modify index f, cursor }.event j = w.event j := by
  refine event_congr ?_
  unfold slot
  rw [Array.getD_eq_getD_getElem?, Array.getD_eq_getD_getElem?, Array.getElem?_modify]
  split
  · cases w.slots[j]? with
    | none => rfl
    | some s => exact hf s
  · rfl

/-- Only a slot with an event is kept or given free, and every event stays. -/
theorem marked_ok (h : w.retain index = .ok w' ∨ w.release index = .ok w') :
    (∃ e, w.event index = .ok e) ∧ ∀ j, w'.event j = w.event j := by
  unfold retain release at h
  cases he : w.event index with
  | error =>
    rw [he] at h
    rcases h with h | h <;> cases h
  | ok e =>
    rw [he] at h
    rcases h with h | h
    all_goals
      cases h
      exact ⟨⟨e, rfl⟩, fun j => event_modify _ j _ fun _ => rfl⟩

theorem event_new (capacity : Nat) (circular : Bool) (j : Nat) (e : Descriptor × τ) :
    (new capacity circular : EventWindow τ).event j ≠ .ok e := by
  rw [event_eq, slot_new]
  exact nofun

theorem lt_of_event {e : Descriptor × τ} (h : w.event i = .ok e) : i < w.capacity := by
  refine Nat.lt_of_not_le fun hle => ?_
  rw [event_eq, slot_of_le hle] at h
  cases h

theorem retainedCount_eq (w : EventWindow τ) :
    w.retainedCount = (range w.capacity).countP fun i => (w.slot i).retained := by
  have hslots : w.slots.toList = (range w.capacity).map w.slot := by
    refine ext_getElem (by simp [capacity]) fun i hi _ => ?_
    have hlt : i < w.slots.size := by simpa using hi
    simp [slot, hlt]
  rw [retainedCount, ← Array.countP_toList, hslots, countP_map]
  rfl

/-! ## The queue of free slots -/

/-- The slots that can be given out, in the order in which they are. -/
def freeSlots (w : EventWindow τ) : List Nat :=
  if w.circular then
    ((range w.capacity).rotate w.cursor).filter fun i => !(w.slot i).retained
  else (range w.capacity).filter fun i => (w.slot i).free

/-- Why no slot can be given out. -/
def refusal (w : EventWindow τ) : Error :=
  if w.circular then .eventSlotsRetained w.retainedCount w.capacity else .eventWindowFull w.capacity

/-- The slots that a linear window has passed are taken. -/
def Settled (w : EventWindow τ) : Prop :=
  w.circular = false → w.cursor ≤ w.capacity ∧ ∀ i < w.cursor, (w.slot i).free = false

/-- The scan of a circular window. -/
theorem range_rotate (n c : Nat) : (range n).rotate c = (range n).map fun k => (c + k) % n := by
  refine ext_getElem (by simp) fun k hk _ => ?_
  rw [getElem_rotate, getElem_map, getElem_range, getElem_range, length_range, Nat.add_comm]

theorem range_split (hc : c ≤ n) : range n = range c ++ range' c (n - c) := by
  have happend := List.range'_append_1 (s := 0) (m := c) (n := n - c)
  rwa [Nat.zero_add, Nat.add_sub_cancel' hc, ← range_eq_range', ← range_eq_range',
    eq_comm] at happend

/-- What a linear window has passed need not be looked at. -/
theorem find?_passed (hc : c ≤ n) (h : ∀ i < c, p i = false) :
    (range' c (n - c)).find? p = (range n).find? p := by
  have hnone : (range c).find? p = none := by
    simpa using h
  rw [range_split hc, List.find?_append, hnone, Option.none_or]

theorem nextFree_eq (hw : w.Settled) : w.nextFree =
    match w.freeSlots.head? with
    | some i => .ok i
    | none => .error w.refusal := by
  unfold nextFree freeSlots refusal
  cases hcircular : w.circular with
  | true =>
    simp only [if_true, List.head?_filter, range_rotate, List.find?_map]
    show (match (range w.capacity).find? ((fun i => !(w.slot i).retained) ∘ _) with
      | some k => _
      | none => _) = _
    cases (range w.capacity).find? ((fun i => !(w.slot i).retained) ∘ _) <;> rfl
  | false =>
    obtain ⟨hle, hpassed⟩ := hw hcircular
    simp only [Bool.false_eq_true, if_false, List.head?_filter]
    rw [← find?_passed hle hpassed]
    rfl

/-! ## Taking a slot -/

/-- What an event does to a window. -/
theorem register_eq (h : w.register desc b = .ok (index, w')) : w.nextFree = .ok index ∧ w' =
    ⟨w.circular, if w.circular then (index + 1) % w.capacity else index + 1,
      w.slots.modify index fun s => { s with event := some (desc, b), live := true }⟩ := by
  unfold register at h
  cases hfree : w.nextFree with
  | error =>
    rw [hfree] at h
    cases h
  | ok =>
    rw [hfree] at h
    cases h
    exact ⟨rfl, rfl⟩

theorem register_error_iff : w.register desc b = .error e ↔ w.nextFree = .error e := by
  unfold register
  cases w.nextFree with
  | error =>
    constructor
    · intro h
      cases h
      rfl
    · intro h
      cases h
      rfl
  | ok => exact ⟨nofun, nofun⟩

theorem register_ok_iff : (∃ w', w.register desc b = .ok (index, w')) ↔ w.nextFree = .ok index := by
  constructor
  · rintro ⟨w', h⟩
    exact (register_eq h).1
  · intro h
    unfold register
    rw [h]
    exact ⟨_, rfl⟩

theorem nextFree_lt (h : w.nextFree = .ok index) : index < w.capacity := by
  unfold nextFree at h
  split at h
  · split at h
    · next k hk =>
      cases h
      have hlt := mem_range.1 (mem_of_find?_eq_some hk)
      exact Nat.mod_lt _ (by omega)
    · cases h
  · split at h
    · next i hi =>
      cases h
      have hmem := mem_range'_1.1 (mem_of_find?_eq_some hi)
      omega
    · cases h

theorem slot_register (h : w.register desc b = .ok (index, w')) :
    w'.slot = update w.slot index
      { w.slot index with event := some (desc, b), live := true } := by
  obtain ⟨hfree, rfl⟩ := register_eq h
  exact slot_modify _ _ (nextFree_lt hfree)

/-- A new event takes the place of the one in its slot. -/
theorem event_register (h : w.register desc b = .ok (index, w')) (i : Nat) :
    w'.event i = if index = i then .ok (desc, b) else w.event i := by
  rw [event_eq, slot_register h]
  split_ifs with hi
  · subst hi
    rw [update_self]
  · rw [update_of_ne (Ne.symm hi), event_eq]

/-- The first free slot of a list goes to its end when the list is turned past it. -/
theorem filter_rotate (h : ((range n).rotate c).find? p = some i) :
    ∃ rest, ((range n).rotate c).filter p = i :: rest ∧
      ((range n).rotate ((i + 1) % n)).filter p = rest ++ [i] := by
  obtain ⟨hi, before, rest, hscan, hbefore⟩ := List.find?_eq_some_iff_append.1 h
  have hpassed : before.filter p = [] := by simpa using hbefore
  have hindex : i = (before.length + c) % n := by
    have hat : ((range n).rotate c)[before.length]? = some i := by simp [hscan]
    have hlt : before.length < (range n).length := by
      rw [← length_rotate (range n) c, hscan]
      simp
    rw [List.getElem?_rotate hlt] at hat
    have hmod : (before.length + c) % n < n := Nat.mod_lt _ (by simp at hlt; omega)
    simpa [hmod] using hat.symm
  have hcursor : (i + 1) % n = (c + (before.length + 1)) % n := by
    rw [hindex, Nat.mod_add_mod, Nat.add_comm before.length, Nat.add_assoc]
  have hturned : (range n).rotate ((i + 1) % n) = rest ++ (before ++ [i]) := by
    have hmod := rotate_mod (range n) (c + (before.length + 1))
    rw [length_range] at hmod
    rw [hcursor, hmod, ← rotate_rotate, hscan, append_cons,
      show before.length + 1 = (before ++ [i]).length by simp, rotate_append_length_eq]
  refine ⟨rest.filter p, ?_, ?_⟩
  · rw [hscan, filter_append, hpassed, filter_cons_of_pos hi, nil_append]
  · rw [hturned, filter_append, filter_append, hpassed]
    simp [hi]

/-- The first free slot of a list leaves the free ones when it is taken. -/
theorem filter_taken {q : Nat → Bool} {l : List Nat} (hl : l.Nodup)
    (h : l.find? p = some i) (hi : q i = false) (hother : ∀ j, j ≠ i → q j = p j) :
    ∃ rest, l.filter p = i :: rest ∧ l.filter q = rest := by
  obtain ⟨rest, hrest⟩ := head?_eq_some_iff.1 (head?_filter.trans h)
  refine ⟨rest, hrest, ?_⟩
  have hq : l.filter q = (l.filter p).filter (· ≠ i) := by
    rw [filter_filter]
    refine filter_congr fun j _ => ?_
    by_cases hj : j = i
    · simp [hj, hi]
    · simp [hj, hother j hj]
  have hnodup := hl.filter p
  rw [hrest] at hq hnodup
  rw [hq, filter_cons_of_neg (by simp), filter_eq_self]
  exact fun j hj => by simpa using ne_of_mem_of_not_mem hj (nodup_cons.1 hnodup).1

theorem mem_freeSlots_iff : i ∈ w.freeSlots ↔ i < w.capacity ∧
    (if w.circular then !(w.slot i).retained else (w.slot i).free) = true := by
  unfold freeSlots
  split <;> simp

theorem freeSlots_nodup (w : EventWindow τ) : w.freeSlots.Nodup := by
  unfold freeSlots
  split
  · exact (nodup_rotate.2 nodup_range).filter _
  · exact nodup_range.filter _

theorem length_freeSlots (hw : w.circular = true) :
    w.freeSlots.length = (range w.capacity).countP fun i => !(w.slot i).retained := by
  unfold freeSlots
  rw [if_pos hw, ← countP_eq_length_filter, (rotate_perm _ _).countP_eq]

theorem nextFree_ok_iff (hw : w.Settled) :
    w.nextFree = .ok index ↔ w.freeSlots.head? = some index := by
  rw [nextFree_eq hw]
  cases w.freeSlots.head? with
  | none => exact ⟨nofun, nofun⟩
  | some => simp

theorem nextFree_error_iff (hw : w.Settled) :
    w.nextFree = .error e ↔ w.freeSlots = [] ∧ e = w.refusal := by
  rw [nextFree_eq hw]
  cases w.freeSlots with
  | nil => simp [eq_comm]
  | cons => exact ⟨nofun, nofun⟩

/-- An event takes the first free slot, which a circular window puts at the
end of the queue and a linear one takes out of it. -/
theorem freeSlots_register (hw : w.Settled) (h : w.register desc b = .ok (index, w')) :
    ∃ rest, w.freeSlots = index :: rest ∧
      w'.freeSlots = if w.circular then rest ++ [index] else rest := by
  have hself : w'.slot index = { w.slot index with event := some (desc, b), live := true } := by
    rw [slot_register h, update_self]
  have hother : ∀ i, i ≠ index → w'.slot i = w.slot i := fun i hi => by
    rw [slot_register h, update_of_ne hi]
  obtain ⟨hfree, hw'⟩ := register_eq h
  have hcapacity : w'.capacity = w.capacity := by
    rw [hw']
    exact Array.size_modify
  have hhead := (nextFree_ok_iff hw).1 hfree
  unfold freeSlots at hhead ⊢
  rw [hcapacity, show w'.circular = w.circular by rw [hw']]
  cases hcircular : w.circular with
  | true =>
    simp only [hcircular, if_true, List.head?_filter] at hhead ⊢
    -- registering does not change what is retained
    have hretained : ∀ i, (w'.slot i).retained = (w.slot i).retained := fun i => by
      by_cases hi : i = index
      · rw [hi, hself]
      · rw [hother i hi]
    simp only [hretained, show w'.cursor = (index + 1) % w.capacity by rw [hw', hcircular]; rfl]
    exact filter_rotate hhead
  | false =>
    simp only [hcircular, Bool.false_eq_true, if_false, List.head?_filter] at hhead ⊢
    refine filter_taken nodup_range hhead ?_ fun i hi => by rw [hother i hi]
    rw [hself]
    rfl

/-! ## Requests -/

/-- The reply to a request, and the window after it. -/
def serve (w : EventWindow τ) : Request τ → Reply × EventWindow τ
  | .register d times =>
    match w.register d times with
    | .ok (i, w') => (.ok (some i), w')
    | .error e => (.error e, w)
  | .retain i =>
    match w.retain i with
    | .ok w' => (.ok none, w')
    | .error e => (.error e, w)
  | .release i =>
    match w.release i with
    | .ok w' => (.ok none, w')
    | .error e => (.error e, w)
  | .reset => (.ok none, w.reset)

inductive Serves (w : EventWindow τ) : Request τ → Reply → EventWindow τ → Prop
  | refused {r : Request τ} (e : Error) (hr : r ≠ .reset) : Serves w r (.error e) w
  | registered {d : Descriptor} {times : τ} {i : Nat} {w' : EventWindow τ}
      (h : w.register d times = .ok (i, w')) : Serves w (.register d times) (.ok (some i)) w'
  | retained {i : Nat} (h : i < w.capacity) :
      Serves w (.retain i) (.ok none)
        { w with slots := w.slots.modify i fun s => { s with retained := true } }
  | released {i : Nat} (h : i < w.capacity) :
      Serves w (.release i) (.ok none)
        { w with
          slots := w.slots.modify i fun s => { s with retained := false, live := false }
          cursor := if !w.circular && i < w.cursor then i else w.cursor }
  | reset : Serves w .reset (.ok none) w.reset

theorem serves (w : EventWindow τ) (r : Request τ) : w.Serves r (w.serve r).1 (w.serve r).2 := by
  cases r with
  | register d times =>
    cases h : w.register d times with
    | error e => simpa only [serve, h] using .refused e (by simp)
    | ok => simpa only [serve, h] using .registered h
  | retain i =>
    cases h : w.event i with
    | error e => simpa only [serve, retain, h] using .refused e (by simp)
    | ok => simpa only [serve, retain, h] using .retained (lt_of_event h)
  | release i =>
    cases h : w.event i with
    | error e => simpa only [serve, release, h] using .refused e (by simp)
    | ok => simpa only [serve, release, h] using .released (lt_of_event h)
  | reset => exact .reset

namespace Serves

variable {r : Request τ} {reply : Reply}

theorem shape (h : w.Serves r reply w') : w'.capacity = w.capacity ∧ w'.circular = w.circular := by
  cases h with
  | refused => exact ⟨rfl, rfl⟩
  | registered h =>
    obtain ⟨-, rfl⟩ := register_eq h
    exact ⟨Array.size_modify, rfl⟩
  | retained | released => exact ⟨Array.size_modify, rfl⟩
  | reset => exact ⟨Array.size_replicate, rfl⟩

/-- The record of requests and replies is right about every slot. -/
theorem slot (h : w.Serves r reply w') : w'.slot = note w.slot (r, reply) := by
  cases h with
  | refused e hr =>
    cases r with
    | reset => exact absurd rfl hr
    | _ => rfl
  | registered h => exact slot_register h
  | retained h | released h => exact slot_modify _ _ h
  | reset => exact slot_new _ _

/-- Every request keeps what a linear window has passed taken. -/
theorem settled (h : w.Serves r reply w') (hw : w.Settled) : w'.Settled := by
  cases h with
  | refused => exact hw
  | @registered d times i w' h =>
    have hslot := slot_register h
    obtain ⟨hfree, rfl⟩ := register_eq h
    intro hcircular
    have hfirst := (nextFree_ok_iff hw).1 hfree
    simp only [freeSlots, show w.circular = false from hcircular, Bool.false_eq_true, if_false,
      List.head?_filter, List.find?_range_eq_some] at hfirst
    obtain ⟨-, hmem, hpassed⟩ := hfirst
    have hcursor : (if w.circular then (i + 1) % w.capacity else i + 1) = i + 1 := by
      rw [show w.circular = false from hcircular]
      rfl
    refine ⟨?_, fun j hj => ?_⟩
    · show (if w.circular then _ else _) ≤ (Array.modify _ _ _).size
      rw [hcursor, Array.size_modify]
      exact mem_range.1 hmem
    · rw [hslot]
      rcases Nat.lt_succ_iff_lt_or_eq.1 (hcursor ▸ hj) with hlt | rfl
      · rw [update_of_ne (Nat.ne_of_lt hlt)]
        simpa using hpassed j hlt
      · rw [update_self]
        rfl
  | retained h =>
    intro hcircular
    obtain ⟨hle, hpassed⟩ := hw hcircular
    refine ⟨Nat.le_trans hle (Nat.le_of_eq Array.size_modify.symm), fun j hj => ?_⟩
    rw [slot_modify _ _ h, update_apply]
    split_ifs
    · simp [Slot.free]
    · exact hpassed j hj
  | @released i h =>
    intro hcircular
    obtain ⟨hle, hpassed⟩ := hw hcircular
    -- the cursor goes back to the slot, so it is not one of those passed
    have hcursor : (if !w.circular && i < w.cursor then i else w.cursor) = min i w.cursor := by
      rw [show w.circular = false from hcircular]
      by_cases hlt : i < w.cursor <;> simp [hlt] <;> omega
    refine ⟨?_, fun j hj => ?_⟩
    · show (if _ then _ else _) ≤ (Array.modify _ _ _).size
      rw [hcursor, Array.size_modify]
      exact Nat.le_trans (Nat.min_le_right _ _) hle
    · have hlt : j < min i w.cursor := hcursor ▸ hj
      rw [slot_modify _ _ h, update_of_ne (by omega)]
      exact hpassed j (by omega)
  | reset => exact fun _ => ⟨Nat.zero_le _, nofun⟩

/-- A slot that is not free keeps its event, and is not given out, until it is given
free. -/
theorem kept (h : w.Serves r reply w') (hw : w.Settled) (hi : i ∉ w.freeSlots)
    (hr : r.Spares i) : i ∉ w'.freeSlots ∧ w'.event i = w.event i := by
  have hslot : w'.slot i = w.slot i ∨ w'.slot i = { w.slot i with retained := true } := by
    cases h with
    | refused => exact .inl rfl
    | registered h =>
      obtain ⟨rest, hfree, -⟩ := freeSlots_register hw h
      rw [slot_register h, update_of_ne]
      · exact .inl rfl
      · rintro rfl
        exact hi (hfree ▸ mem_cons_self)
    | retained h =>
      rw [slot_modify _ _ h, update_apply]
      split_ifs with heq
      · exact .inr (heq ▸ rfl)
      · exact .inl rfl
    | released h =>
      rw [slot_modify _ _ h, update_of_ne (Ne.symm hr)]
      exact .inl rfl
    | reset => exact hr.elim
  obtain ⟨hcapacity, hcircular⟩ := h.shape
  constructor
  · rw [mem_freeSlots_iff, hcapacity, hcircular]
    rw [mem_freeSlots_iff] at hi
    rcases hslot with hslot | hslot
    · rwa [hslot]
    · rw [hslot]
      simp [Slot.free]
  · refine event_congr ?_
    rcases hslot with hslot | hslot <;> rw [hslot]

end Serves

/-! ## Histories -/

def run (w : EventWindow τ) (rs : List (Request τ)) : EventWindow τ :=
  rs.foldl (fun w r => (w.serve r).2) w

def replies (w : EventWindow τ) : List (Request τ) → List Reply
  | [] => []
  | r :: rs => (w.serve r).1 :: (w.serve r).2.replies rs

theorem run_append (w : EventWindow τ) (rs rs' : List (Request τ)) :
    w.run (rs ++ rs') = (w.run rs).run rs' := foldl_append

theorem run_settled (hw : w.Settled) (rs : List (Request τ)) : (w.run rs).Settled := by
  induction rs generalizing w with
  | nil => exact hw
  | cons r rs ih => exact ih ((w.serves r).settled hw)

theorem run_shape (w : EventWindow τ) (rs : List (Request τ)) :
    (w.run rs).capacity = w.capacity ∧ (w.run rs).circular = w.circular := by
  induction rs generalizing w with
  | nil => exact ⟨rfl, rfl⟩
  | cons r rs ih =>
    obtain ⟨hcapacity, hcircular⟩ := (w.serves r).shape
    exact ⟨(ih _).1.trans hcapacity, (ih _).2.trans hcircular⟩

theorem run_slot (w : EventWindow τ) (rs : List (Request τ)) :
    (w.run rs).slot = (rs.zip (w.replies rs)).foldl note w.slot := by
  induction rs generalizing w with
  | nil => rfl
  | cons r rs ih =>
    rw [replies, zip_cons_cons, foldl_cons, ← (w.serves r).slot]
    exact ih _

theorem run_kept {rs : List (Request τ)} (hw : w.Settled) (hi : i ∉ w.freeSlots)
    (hrs : ∀ r ∈ rs, r.Spares i) : i ∉ (w.run rs).freeSlots ∧ (w.run rs).event i = w.event i := by
  induction rs generalizing w with
  | nil => exact ⟨hi, rfl⟩
  | cons r rs ih =>
    obtain ⟨hi', hevent⟩ := (w.serves r).kept hw hi (hrs r mem_cons_self)
    obtain ⟨hlast, hlater⟩ := ih ((w.serves r).settled hw) hi' fun r hr =>
      hrs r (mem_cons_of_mem _ hr)
    exact ⟨hlast, hlater.trans hevent⟩

def registration (e : Descriptor × τ) : Request τ := .register e.1 e.2

theorem serve_registration {rest : List Nat} (hw : w.Settled)
    (hfree : w.freeSlots = i :: rest) (e : Descriptor × τ) :
    (w.serve (registration e)).1 = .ok (some i) ∧ (w.serve (registration e)).2.freeSlots =
      if w.circular then rest ++ [i] else rest := by
  cases h : w.register e.1 e.2 with
  | error =>
    rw [register_error_iff, nextFree_error_iff hw, hfree] at h
    exact absurd h.1 (cons_ne_nil _ _)
  | ok r =>
    obtain ⟨j, w'⟩ := r
    obtain ⟨rest', hfree', hafter⟩ := freeSlots_register hw h
    rw [hfree] at hfree'
    cases hfree'
    constructor
    · simp only [serve, registration, h]
    · simpa only [serve, registration, h] using hafter

/-- Events registered one after another take the free slots in turn. -/
theorem replies_circular (hw : w.circular = true) (hpos : w.freeSlots ≠ [])
    (events : List (Descriptor × τ)) : w.replies (events.map registration) =
      (range events.length).map fun k => .ok w.freeSlots[k % w.freeSlots.length]? := by
  induction events generalizing w with
  | nil => rfl
  | cons e events ih =>
    have hsettled : w.Settled := fun h => absurd (hw.symm.trans h) nofun
    obtain ⟨i, rest, hfree⟩ := exists_cons_of_ne_nil hpos
    obtain ⟨hreply, hafter⟩ := serve_registration hsettled hfree e
    rw [if_pos hw] at hafter
    have hcircular := (w.serves (registration e)).shape.2.trans hw
    rw [map_cons, replies, ih hcircular (by simp [hafter]), hafter, hfree, length_cons, length_cons,
      range_succ_eq_map, map_cons, map_map]
    congr 1
    refine map_congr_left fun k _ => ?_
    -- the queue turned by one, read one place later
    have hturn := List.getElem?_rotate (l := i :: rest) (n := 1) (m := k % (rest.length + 1))
      (Nat.mod_lt _ (Nat.succ_pos _))
    rw [rotate_cons_succ, rotate_zero, length_cons] at hturn
    simp [hturn]

/-- As many events as there are free slots take different ones; then the slots
come again in the same order. -/
theorem replies_in_turn (hw : w.circular = true) (hpos : 0 < w.freeSlots.length)
    (events : List (Descriptor × τ)) :
    (∀ r ∈ w.replies (events.map registration), ∃ i, r = .ok (some i)) ∧
    ((w.replies (events.map registration)).take w.freeSlots.length).Nodup ∧
    ∀ k, k + w.freeSlots.length < events.length →
      (w.replies (events.map registration))[k + w.freeSlots.length]? =
        (w.replies (events.map registration))[k]? := by
  rw [replies_circular hw (ne_nil_of_length_pos hpos)]
  refine ⟨fun r hr => ?_, ?_, fun k hk => ?_⟩
  · obtain ⟨k, -, rfl⟩ := mem_map.1 hr
    exact ⟨_, congrArg Except.ok (List.getElem?_eq_getElem (Nat.mod_lt k hpos))⟩
  · rw [← map_take, take_range]
    refine nodup_range.map_on fun k hk k' hk' heq => ?_
    have hlt := mem_range.1 hk
    have hlt' := mem_range.1 hk'
    rw [Nat.mod_eq_of_lt (by omega), Nat.mod_eq_of_lt (by omega)] at heq
    exact (List.getElem?_inj (by omega) w.freeSlots_nodup).1 (Except.ok.inj heq)
  · rw [List.getElem?_map, List.getElem?_map, List.getElem?_range hk,
      List.getElem?_range (by omega), Option.map_some, Option.map_some, Nat.add_mod_right]

/-- The first free slots of a linear window are taken by events registered one after another. -/
theorem mem_replies_linear (hw : w.Settled) (hlinear : w.circular = false)
    {events : List (Descriptor × τ)} (hi : i ∈ w.freeSlots.take events.length) :
    .ok (some i) ∈ w.replies (events.map registration) := by
  induction events generalizing w with
  | nil => simp at hi
  | cons e events ih =>
    cases hfree : w.freeSlots with
    | nil => simp [hfree] at hi
    | cons =>
      obtain ⟨hreply, hafter⟩ := serve_registration hw hfree e
      rw [hlinear] at hafter
      rw [map_cons, replies, hreply]
      rw [hfree, length_cons] at hi
      rcases mem_cons.1 hi with rfl | hi
      · exact mem_cons_self
      · have hserves := w.serves (registration e)
        exact mem_cons_of_mem _ (ih (hserves.settled hw) (hserves.shape.2.trans hlinear)
          (by rwa [hafter]))

/-- Few slots stand before a free slot in the queue of a linear window. -/
theorem mem_take_freeSlots (hlinear : w.circular = false) (hi : i ∈ w.freeSlots)
    (hn : i < n) : i ∈ w.freeSlots.take n := by
  have hlt := (mem_freeSlots_iff.1 hi).1
  rw [freeSlots, if_neg (by simp [hlinear])] at hi ⊢
  rw [range_split (Nat.succ_le_of_lt hlt), filter_append]
  have hfew : ((range (i + 1)).filter fun j => (w.slot j).free).length ≤ n :=
    Nat.le_trans (length_filter_le _ _) (by rw [length_range]; exact hn)
  rw [take_append, take_of_length_le hfew]
  exact mem_append_left _ (mem_filter.2 ⟨by simp, (mem_filter.1 hi).2⟩)

/-! ## Windows from the start -/

/-- A window after requests. -/
def reached (capacity : Nat) (circular : Bool) (rs : List (Request τ)) : EventWindow τ :=
  (new capacity circular).run rs

/-- What requests and their replies tell of each slot. -/
def told (capacity : Nat) (circular : Bool) (rs : List (Request τ)) : Nat → Slot τ :=
  (rs.zip ((new capacity circular).replies rs)).foldl note fun _ => {}

section

variable (capacity : Nat) (circular : Bool) (rs : List (Request τ))

theorem slot_reached : (reached capacity circular rs).slot = told capacity circular rs := by
  rw [reached, run_slot, slot_new]
  rfl

theorem reached_settled : (reached capacity circular rs).Settled :=
  run_settled (fun _ => ⟨Nat.zero_le _, fun _ hi => absurd hi (Nat.not_lt_zero _)⟩) rs

theorem reached_shape : (reached capacity circular rs).capacity = capacity ∧
    (reached capacity circular rs).circular = circular := by
  obtain ⟨hcapacity, hcircular⟩ := run_shape (new capacity circular) rs
  exact ⟨hcapacity.trans Array.size_replicate, hcircular⟩

theorem mem_freeSlots_reached : i ∈ (reached capacity circular rs).freeSlots ↔
    i < capacity ∧ (if circular then !(told capacity circular rs i).retained
      else (told capacity circular rs i).free) = true := by
  obtain ⟨hcapacity, hcircular⟩ := reached_shape capacity circular rs
  rw [mem_freeSlots_iff, hcapacity, hcircular, slot_reached]

theorem mem_freeSlots_circular : i ∈ (reached capacity true rs).freeSlots ↔
    i < capacity ∧ (told capacity true rs i).retained = false := by
  simp [mem_freeSlots_reached]

theorem mem_freeSlots_linear : i ∈ (reached capacity false rs).freeSlots ↔
    i < capacity ∧ (told capacity false rs i).free = true := by
  simp [mem_freeSlots_reached]

theorem told_of_le (h : capacity ≤ i) : told capacity circular rs i = {} := by
  rw [← slot_reached, slot_of_le]
  rwa [(reached_shape capacity circular rs).1]

/-- A request for a slot that is refused leaves the window as it was. -/
theorem reached_refused {d : Descriptor} {times : τ}
    (h : (reached capacity circular rs).register d times = .error e) :
    reached capacity circular (rs ++ [.register d times]) = reached capacity circular rs := by
  have hserve : ((reached capacity circular rs).serve (.register d times)).2 =
      reached capacity circular rs := by
    simp only [serve, h]
  rw [reached, run_append]
  exact hserve

theorem reached_kept {later : List (Request τ)}
    (hi : i ∉ (reached capacity circular rs).freeSlots) (hlater : ∀ r ∈ later, r.Spares i) :
    i ∉ (reached capacity circular (rs ++ later)).freeSlots ∧
      (reached capacity circular (rs ++ later)).event i =
      (reached capacity circular rs).event i := by
  have happend : reached capacity circular (rs ++ later) =
    (reached capacity circular rs).run later :=
    run_append _ _ _
  rw [happend]
  exact run_kept (reached_settled capacity circular rs) hi hlater

end

/-- **circular_window**: in a circular window, whatever was asked of it before, an event never takes
a retained slot, so what is retained keeps its event until it is released or the window reset. No
slot is found exactly when all are retained, which the error says; the window is then as it was.
Events registered one after another take the slots that are not retained in turn. -/
theorem circular_window (capacity : Nat) (rs : List (Request τ)) :
    (∀ d times i w, (reached capacity true rs).register d times = .ok (i, w) →
      i < capacity ∧ (told capacity true rs i).retained = false) ∧
    (∀ i later, (told capacity true rs i).retained = true → (∀ r ∈ later, r.Spares i) →
      (told capacity true (rs ++ later) i).retained = true ∧
      (reached capacity true (rs ++ later)).event i = (reached capacity true rs).event i) ∧
    (∀ d times e, (reached capacity true rs).register d times = .error e ↔
      (∀ i < capacity, (told capacity true rs i).retained = true) ∧
      e = .eventSlotsRetained
        ((List.range capacity).countP fun i => (told capacity true rs i).retained) capacity) ∧
    (∀ d times e, (reached capacity true rs).register d times = .error e →
      reached capacity true (rs ++ [.register d times]) = reached capacity true rs) ∧
    ∀ (u : Nat) (events : List (Descriptor × τ)),
      ((List.range capacity).countP fun i => !(told capacity true rs i).retained) = u → 0 < u →
      let replies := (reached capacity true rs).replies (events.map registration)
      (∀ r ∈ replies, ∃ i, r = .ok (some i)) ∧ (replies.take u).Nodup ∧
      ∀ k, k + u < events.length → replies[k + u]? = replies[k]? := by
  have hw := reached_settled capacity true rs
  have hslot := slot_reached capacity true rs
  obtain ⟨hcapacity, hcircular⟩ := reached_shape capacity true rs
  refine ⟨fun d times i w h => ?_, fun i later hi hlater => ?_, fun d times e => ?_,
    fun d times e h => reached_refused capacity true rs h, fun u events hu hpos => ?_⟩
  · obtain ⟨rest, hqueue, -⟩ := freeSlots_register hw h
    exact (mem_freeSlots_circular capacity rs).1 (hqueue ▸ mem_cons_self)
  · have hlt : i < capacity := Nat.lt_of_not_le fun hle => by
      rw [told_of_le capacity true rs hle] at hi
      cases hi
    obtain ⟨hkept, hevent⟩ :=
      reached_kept capacity true rs (by simp [mem_freeSlots_circular, hi]) hlater
    exact ⟨by simpa [mem_freeSlots_circular, hlt] using hkept, hevent⟩
  · rw [register_error_iff, nextFree_error_iff hw, eq_nil_iff_forall_not_mem, refusal, hcircular,
      retainedCount_eq, hcapacity, hslot]
    simp [mem_freeSlots_circular]
  · have hlength := length_freeSlots hcircular
    rw [hcapacity, hslot, hu] at hlength
    have hturn := replies_in_turn hcircular (hlength ▸ hpos) events
    rwa [hlength] at hturn

/-- **linear_window**: in a linear window, whatever was asked of it before, an event takes the first
slot that is neither live nor retained; without one it is refused and the window is as it was. A
slot that is live or retained keeps its event until it is released or the window reset, and a free
one is taken after as many events as there are slots before it. -/
theorem linear_window (capacity : Nat) (rs : List (Request τ)) :
    (∀ d times i, (∃ w, (reached capacity false rs).register d times = .ok (i, w)) ↔
      i < capacity ∧ (told capacity false rs i).free = true ∧
      ∀ j < i, (told capacity false rs j).free = false) ∧
    (∀ d times e, (reached capacity false rs).register d times = .error e ↔
      (∀ i < capacity, (told capacity false rs i).free = false) ∧ e = .eventWindowFull capacity) ∧
    (∀ d times e, (reached capacity false rs).register d times = .error e →
      reached capacity false (rs ++ [.register d times]) = reached capacity false rs) ∧
    (∀ i later, (told capacity false rs i).free = false → (∀ r ∈ later, r.Spares i) →
      (told capacity false (rs ++ later) i).free = false ∧
      (reached capacity false (rs ++ later)).event i = (reached capacity false rs).event i) ∧
    ∀ i (events : List (Descriptor × τ)), i < capacity → (told capacity false rs i).free = true →
      i < events.length →
      .ok (some i) ∈ (reached capacity false rs).replies (events.map registration) := by
  have hw := reached_settled capacity false rs
  obtain ⟨hcapacity, hlinear⟩ := reached_shape capacity false rs
  refine ⟨fun d times i => ?_, fun d times e => ?_,
    fun d times e h => reached_refused capacity false rs h, fun i later hi hlater => ?_,
    fun i events hlt hi hmany => ?_⟩
  · have hhead : (reached capacity false rs).freeSlots.head? =
        (List.range capacity).find? fun i => (told capacity false rs i).free := by
      rw [freeSlots, hlinear, hcapacity, slot_reached]
      exact List.head?_filter
    rw [register_ok_iff, nextFree_ok_iff hw, hhead, List.find?_range_eq_some]
    simp [and_left_comm]
  · rw [register_error_iff, nextFree_error_iff hw, eq_nil_iff_forall_not_mem, refusal, hlinear,
      hcapacity]
    simp [mem_freeSlots_linear]
  · have hlt : i < capacity := Nat.lt_of_not_le fun hle => by
      rw [told_of_le capacity false rs hle] at hi
      cases hi
    obtain ⟨hkept, hevent⟩ :=
      reached_kept capacity false rs (by simp [mem_freeSlots_linear, hi]) hlater
    exact ⟨by simpa [mem_freeSlots_linear, hlt] using hkept, hevent⟩
  · have hmem := (mem_freeSlots_linear capacity rs).2 ⟨hlt, hi⟩
    exact mem_replies_linear hw hlinear (mem_take_freeSlots hlinear hmem hmany)

end EventWindow

end KernelForge.Host
