import KernelForge.Proofs.Calling.Frame
import KernelForge.Proofs.Calling.Storage

/-!
# What recipes compute

A recipe is followed line by line with what is known of its values (`Facts`). `Running.Takes K x Q`
says that the lines which `x` selects become code that runs to its end wherever `K` is known, in
spill mode or not, and that `Q` is true of what is known then. A line that has a value adds a fact
about it (`Running.Adds`), a definition one about its variable.
-/

namespace KernelForge.Codegen

open List
open Lir (Kind ValueId)
open Spirv
open Device (Env Locals Store Value Ty Heap)

/-! ## Lines -/

section Lines

variable {n : Names} {ids ids' : List Id} {c : List Instruction} {ls : List Line}

theorem LinesCode.split {ls' : List Line} (h : LinesCode n ids (ls ++ ls') c ids') :
    ∃ c₁ ids₁ c₂, c = c₁ ++ c₂ ∧ LinesCode n ids ls c₁ ids₁ ∧ LinesCode n ids₁ ls' c₂ ids' := by
  induction ls generalizing ids c with
  | nil => exact ⟨[], ids, c, rfl, .nil, h⟩
  | cons line ls ih =>
    cases h with
    | value he hls =>
      obtain ⟨c₁, ids₁, c₂, rfl, hfirst, hrest⟩ := ih hls
      exact ⟨_, ids₁, c₂, (append_assoc _ _ _).symm, .value he hfirst, hrest⟩
    | effect he hls =>
      obtain ⟨c₁, ids₁, c₂, rfl, hfirst, hrest⟩ := ih hls
      exact ⟨_, ids₁, c₂, (append_assoc _ _ _).symm, .effect he hfirst, hrest⟩

theorem LinesCode.nothing (h : LinesCode n ids [] c ids') : c = [] ∧ ids' = ids := by
  cases h
  exact ⟨rfl, rfl⟩

/-- Code without extended instructions is read back as it is. -/
theorem asRead_eq (h : ∀ i ∈ c, i.opcode ≠ .extInst) : c.map Instruction.asRead = c :=
  (map_congr_left fun i hi => Instruction.asRead_of_ne (h i hi)).trans (map_id c)

end Lines

/-! ## Variables -/

section Variables

variable {n : Names} {env : Env} {locals locals' : Locals} {store store' : Store}
  {place : ValueId → Nat} {v : ValueId} {x : Value} {k : Kind} {image : List UInt8}

/-- A variable of a function has a value, under its id and in its slot if it has one. -/
structure Names.Holds (n : Names) (locals : Locals) (store : Store) (v : ValueId) (x : Value) :
    Prop where
  bound : ∃ id, n.symbols.resolve? v = some id ∧ locals[id]? = some x
  stored : ∀ slot, n.slot? v = some slot → ∃ q image, locals[slot]? = some (.pointer q) ∧
    Device.encode x = .ok image ∧ store.read q image.length = .ok image

theorem Slotted.keeps (h : Slotted n place locals store)
    (hslot : ∀ v slot, n.slot? v = some slot → locals'[slot]? = locals[slot]?) :
    Slotted n place locals' store where
  pointer v slot hv := (hslot v slot hv).symm ▸ h.pointer v slot hv
  room := h.room
  apart := h.apart

theorem Names.Holds.keeps (h : n.Holds locals store v x)
    (hvalue : ∀ id, n.symbols.resolve? v = some id → locals'[id]? = locals[id]?)
    (hslot : ∀ slot, n.slot? v = some slot → locals'[slot]? = locals[slot]?) :
    n.Holds locals' store v x where
  bound := by
    obtain ⟨id, hid, hx⟩ := h.bound
    exact ⟨id, hid, (hvalue id hid).trans hx⟩
  stored slot hs := (hslot slot hs).symm ▸ h.stored slot hs

/-- The bytes of a variable after its value was stored. -/
theorem readVar_overwrite {bytes : Array UInt8} (h : image.length = bytes.size) :
    Device.readVar (Heap.overwrite bytes 0 image) 0 image.length = .ok image := by
  have hfit : 0 + image.length ≤ bytes.size := by omega
  unfold Device.readVar
  rw [Heap.size_overwrite, if_pos hfit]
  exact congrArg Except.ok (Heap.extract_overwrite hfit)

/-- What defining one variable does to the others: nothing. -/
structure Defined (n : Names) (place : ValueId → Nat) (v : ValueId) (x : Value)
    (locals : Locals) (store store' : Store) : Prop where
  heap : store'.heap = store.heap
  slots : Slotted n place locals store'
  holds : n.Holds locals store' v x
  others : ∀ w y, w ≠ v → n.Holds locals store w y → n.Holds locals store' w y

/-- A value that is stored after its definition. -/
theorem stored_runs (env : Env) {id : Id} (hslots : Slotted n place locals store)
    (hv : n.symbols.resolve? v = some id) (hx : locals[id]? = some x)
    (hk : n.scope.function.kindOf? v = some k) (himage : Device.encode x = .ok image)
    (hlen : image.length = k.size) :
    ∃ store', env.Runs (n.stored v id) locals store locals store' ∧
      Defined n place v x locals store store' := by
  unfold Names.stored
  cases hslot : n.slot? v with
  | none =>
    refine ⟨store, .nil, rfl, hslots, ⟨⟨id, hv, hx⟩, fun slot hs => ?_⟩, fun _ _ _ h => h⟩
    rw [hslot] at hs
    cases hs
  | some slot =>
    obtain ⟨pointee, hpointer⟩ := hslots.pointer v slot hslot
    obtain ⟨bytes, hbytes, hsize⟩ := hslots.room v slot k hslot hk
    have hin : place v < store.itemVars.size := (Array.getElem?_eq_some_iff.1 hbytes).1
    have hrun : env.execute locals store ⟨.store, none, none, [.ref slot, .ref id]⟩ = _ :=
      Env.execute_storeVar (Env.value_of_get hpointer) (Env.value_of_get hx) himage hbytes
        (by omega)
    refine ⟨_, .perform rfl hrun, rfl, ⟨hslots.pointer, fun w slot' k' hw hk' => ?_, hslots.apart⟩,
      ⟨⟨id, hv, hx⟩, fun slot' hs => ?_⟩, fun w y hne hw => ⟨hw.bound, fun slot' hs => ?_⟩⟩
    · obtain ⟨bytes', hbytes', hsize'⟩ := hslots.room w slot' k' hw hk'
      by_cases hplace : place v = place w
      · rw [← hplace, hbytes] at hbytes'
        cases hbytes'
        rw [← hplace, Array.getElem?_setIfInBounds_self_of_lt hin]
        exact ⟨_, rfl, (Heap.size_overwrite _ _ _).trans hsize'⟩
      · rw [Array.getElem?_setIfInBounds_ne hplace]
        exact ⟨bytes', hbytes', hsize'⟩
    · rw [hslot] at hs
      cases hs
      refine ⟨_, image, hpointer, himage, ?_⟩
      unfold Store.read
      dsimp only
      rw [Array.getElem?_setIfInBounds_self_of_lt hin]
      exact readVar_overwrite (by omega)
    · -- the slot of another variable is another variable
      obtain ⟨q, image', hq, himage', hread⟩ := hw.stored slot' hs
      obtain ⟨pointee', hpointer'⟩ := hslots.pointer w slot' hs
      rw [hpointer'] at hq
      cases hq
      refine ⟨_, image', hpointer', himage', ?_⟩
      have hplace : place v ≠ place w := fun heq =>
        hne (hslots.apart v w slot slot' hslot hs heq).symm
      unfold Store.read at hread ⊢
      dsimp only at hread ⊢
      rw [Array.getElem?_setIfInBounds_ne hplace]
      exact hread

end Variables

/-! ## What is known -/

/-- What is known of the value of a line. -/
inductive Fact where
  | type (k : Kind)
  | pointer (k : Kind) (storage : StorageClass)
  | constant (x : Value)
  | result (x : Value)

/-- What is known of the values of a recipe so far and of the variables of its function. -/
structure Facts where
  temps : List Fact
  vars : ValueId → Option Value

namespace Facts

def add (K : Facts) (fact : Fact) : Facts := { K with temps := K.temps ++ [fact] }

def define (K : Facts) (v : ValueId) (x : Value) : Facts :=
  { K with vars := fun w => if w = v then some x else K.vars w }

/-- A value of the recipe is known. -/
def Has (K : Facts) (t : Temp) (x : Value) : Prop :=
  K.temps[t]? = some (.constant x) ∨ K.temps[t]? = some (.result x)

/-- Later lines add facts about their own values. -/
structure Grows (K K' : Facts) : Prop where
  temps : K.temps <+: K'.temps
  vars : K'.vars = K.vars

variable {K K' K'' : Facts} {fact : Fact} {t : Temp} {x : Value}

theorem Grows.refl (K : Facts) : K.Grows K := ⟨prefix_refl _, rfl⟩

theorem Grows.trans (h : K.Grows K') (h' : K'.Grows K'') : K.Grows K'' :=
  ⟨h.temps.trans h'.temps, h'.vars.trans h.vars⟩

theorem grows_add (K : Facts) (fact : Fact) : K.Grows (K.add fact) := ⟨prefix_append _ _, rfl⟩

theorem Grows.lookup (h : K.Grows K')
    (ht : K.temps[t]? = some fact) : K'.temps[t]? = some fact := by
  obtain ⟨more, hmore⟩ := h.temps
  rw [← hmore, List.getElem?_append_left (List.getElem?_eq_some_iff.1 ht).1, ht]

@[simp] theorem add_last (K : Facts) (fact : Fact) :
    (K.add fact).temps[K.temps.length]? = some fact := List.getElem?_concat_length

end Facts

/-- A function that runs: the program knows its names, and its variables are at their places. -/
structure Running where
  names : Names
  env : Env
  known : names.Known env.program
  place : ValueId → Nat
  heap : Heap

namespace Running

/-- A fact is true of an id where code is still to run. -/
def Meaning (R : Running) (locals : Locals) (c : List Instruction) : Fact → Id → Prop
  | .type k, id => R.names.session.types.get? k = some id
  | .pointer k storage, id => ∃ type, R.names.session.types.get? k = some type ∧
      R.names.session.pointers.get? (type, storage) = some id
  | .constant x, id => (∃ key, R.names.session.constants.get? key = some id) ∧
      R.env.program.constants[id]? = some x
  | .result x, id => locals[id]? = some x ∧ id ∉ results c

/-- What is known is true where code is still to run, and the code gives its results
once and no value anew that is in use. -/
structure Meets (R : Running) (K : Facts) (ids : List Id) (locals : Locals) (store : Store)
    (c : List Instruction) : Prop where
  nodup : (results c).Nodup
  constants : ∀ key id, R.names.session.constants.get? key = some id →
    locals[id]? = none ∧ id ∉ results c
  slots : Slotted R.names R.place locals store
  spared : ∀ v slot, R.names.slot? v = some slot → slot ∉ results c
  heap : store.heap = R.heap
  temps : Forall₂ (R.Meaning locals c) K.temps ids
  vars : ∀ v x, K.vars v = some x → R.names.Holds locals store v x ∧
    ∀ id, R.names.symbols.resolve? v = some id → id ∉ results c

variable {R : Running} {K K' : Facts} {ids ids' : List Id} {locals locals' : Locals}
  {store : Store} {c rest : List Instruction} {id : Id} {t : Temp} {x : Value} {fact : Fact}
  {v : ValueId} {k : Kind} {op : Opcode} {args : List Arg}

namespace Meets

theorem lookup (h : R.Meets K ids locals store c) (ht : K.temps[t]? = some fact)
    (hid : ids[t]? = some id) : R.Meaning locals c fact id := by
  obtain ⟨hlt, rfl⟩ := List.getElem?_eq_some_iff.1 ht
  obtain ⟨hlt', rfl⟩ := List.getElem?_eq_some_iff.1 hid
  exact h.temps.get hlt hlt'

theorem value (h : R.Meets K ids locals store c) (hx : K.Has t x) (hid : ids[t]? = some id) :
    R.env.value locals id = .ok x := by
  rcases hx with hx | hx
  · obtain ⟨⟨key, hkey⟩, hvalue⟩ := h.lookup hx hid
    exact Env.value_of_constant (h.constants key id hkey).1 hvalue
  · exact Env.value_of_get (h.lookup hx hid).1

/-- An operand that is a value of the recipe. -/
theorem arg (h : R.Meets K ids locals store c) (hx : K.Has t x) {operands : List Operand}
    (ho : (.value t :: args).mapM (argOf ids) = some operands) :
    ∃ id others, operands = .ref id :: others ∧ R.env.value locals id = .ok x ∧
      args.mapM (argOf ids) = some others := by
  rw [mapM_cons] at ho
  obtain ⟨o, ha, ho⟩ := Option.bind_eq_some_iff.1 ho
  obtain ⟨others, hargs, ho⟩ := Option.bind_eq_some_iff.1 ho
  obtain ⟨id, hid, rfl⟩ := Option.map_eq_some_iff.1 ha
  cases ho
  exact ⟨id, others, rfl, h.value hx hid, hargs⟩

/-- Code that has run leaves what is known. -/
theorem keeps (h : R.Meets K ids locals store (c ++ rest))
    (hr : R.env.Runs c locals store locals' store) : R.Meets K ids locals' store rest := by
  have hout : ∀ {id}, id ∉ results (c ++ rest) → locals'[id]? = locals[id]? ∧
    id ∉ results rest := by
    intro id hid
    rw [results_append, mem_append, not_or] at hid
    exact ⟨hr.locals_eq hid.1, hid.2⟩
  have hslot : ∀ v slot, R.names.slot? v = some slot → locals'[slot]? = locals[slot]? :=
    fun v slot hv => (hout (h.spared v slot hv)).1
  refine ⟨(nodup_append.1 (results_append c rest ▸ h.nodup)).2.1, fun key id hid => ?_,
    h.slots.keeps hslot, fun v slot hv => (hout (h.spared v slot hv)).2, h.heap,
    h.temps.imp fun fact id hfact => ?_, fun v x hv => ?_⟩
  · obtain ⟨hnone, hid⟩ := h.constants key id hid
    exact ⟨(hout hid).1.trans hnone, (hout hid).2⟩
  · cases fact with
    | type | pointer | constant => exact hfact
    | result => exact ⟨(hout hfact.2).1.trans hfact.1, (hout hfact.2).2⟩
  · obtain ⟨hx, hid⟩ := h.vars v x hv
    exact ⟨hx.keeps (fun id hv => (hout (hid id hv)).1) (hslot v),
      fun id hv => (hout (hid id hv)).2⟩

theorem add (h : R.Meets K ids locals store c) (hfact : R.Meaning locals c fact id) :
    R.Meets (K.add fact) (ids ++ [id]) locals store c :=
  { h with temps := List.rel_append h.temps (.cons hfact .nil) }

end Meets

/-- A value of a kind can be stored and read again. -/
def Stores (R : Running) (k : Kind) (x : Value) : Prop :=
  ∃ image, Device.encode x = .ok image ∧ image.length = k.size ∧
    ∀ type, R.names.session.types.get? k = some type → R.env.program.decode image type = .ok x

theorem stores_scalar {t : Ty} (hk : scalarTy k = some t) (hx : t.Has x) : R.Stores k x := by
  obtain ⟨image, himage, hsize, hdecode⟩ := hx.image
  have hlength := hsize fun _ => .ok 0
  refine ⟨image, himage, ?_, fun type htype => hdecode (R.known.type htype hk)⟩
  cases k <;> cases hk <;> first | exact (Except.ok.inj hlength).symm | cases hx

theorem Meets.define (h : R.Meets K ids locals store (R.names.stored v id ++ rest))
    (hv : R.names.symbols.resolve? v = some id) (hx : locals[id]? = some x)
    (hid : id ∉ results rest)
    (hk : R.names.scope.function.kindOf? v = some k) (hs : R.Stores k x) :
    ∃ store', R.env.Runs (R.names.stored v id) locals store locals store' ∧
      R.Meets (K.define v x) ids locals store' rest := by
  have hrest : results (R.names.stored v id ++ rest) = results rest := by
    unfold Names.stored
    split <;> rfl
  obtain ⟨nodup, constants, slots, spared, heap, temps, vars⟩ := h
  rw [hrest] at nodup
  obtain ⟨image, himage, hlen, -⟩ := hs
  obtain ⟨store', hrun, hdefined⟩ := stored_runs R.env slots hv hx hk himage hlen
  refine ⟨store', hrun, nodup, hrest ▸ constants, hdefined.slots, hrest ▸ spared,
    hdefined.heap.trans heap, ?_, fun w y hw => ?_⟩
  · unfold Meaning at temps ⊢
    rwa [hrest] at temps
  · unfold Facts.define at hw
    dsimp only at hw
    split at hw
    · next heq =>
      cases hw
      subst heq
      refine ⟨hdefined.holds, fun id' hid' => ?_⟩
      cases hv.symm.trans hid'
      exact hid
    · next hne => exact ⟨hdefined.others w y hne (vars w y hw).1, hrest ▸ (vars w y hw).2⟩

/-! ## Selections -/

/-- What is selected becomes code that runs to its end. -/
def Takes {α : Type} (R : Running) (K : Facts) (x : Select α) (Q : α → Facts → Prop) : Prop :=
  ∀ ⦃r a r'⦄, r.count = K.temps.length → x R.names.view r = .ok a r' →
    ∃ ls K', r'.lines = r.lines ++ ls ∧ r'.count = K'.temps.length ∧ Q a K' ∧
      ∀ {ids c ids' rest locals store}, LinesCode R.names ids ls c ids' →
        R.Meets K ids locals store (c ++ rest) →
        (∀ i ∈ c, i.opcode ≠ .extInst) ∧ ∃ locals' store',
          R.env.Runs c locals store locals' store' ∧ R.Meets K' ids' locals' store' rest

/-- A selection that adds one line and a fact about its value. -/
abbrev Adds (R : Running) (K : Facts) (x : Select Temp) (fact : Fact) : Prop :=
  R.Takes K x fun t K' => t = K.temps.length ∧ K' = K.add fact

/-- A selection that computes a value. -/
abbrev Computes (R : Running) (K : Facts) (e : Select Temp) (x : Value) : Prop :=
  R.Takes K e fun t K' => K.Grows K' ∧ K'.temps[t]? = some (.result x)

section Rules

variable {α β : Type} {s : Select α} {f : α → Select β} {Q : α → Facts → Prop}
  {Q' : β → Facts → Prop} {i : Instruction}

theorem Takes.bind (hs : R.Takes K s Q) (hf : ∀ a K', Q a K' → R.Takes K' (f a) Q') :
    R.Takes K (s >>= f) Q' := by
  intro r b r'' hcount h
  obtain ⟨a, r', hsa, hfa⟩ := bind_ok.1 h
  obtain ⟨ls, K', hls, hcount', hq, hrun⟩ := hs hcount hsa
  obtain ⟨ls', K'', hls', hcount'', hq', hrun'⟩ := hf a K' hq hcount' hfa
  refine ⟨ls ++ ls', K'', by rw [hls', hls, append_assoc], hcount'', hq', fun hc hm => ?_⟩
  obtain ⟨c₁, ids₁, c₂, rfl, hc₁, hc₂⟩ := hc.split
  rw [append_assoc] at hm
  obtain ⟨hplain, locals₁, store₁, hrun₁, hm₁⟩ := hrun hc₁ hm
  obtain ⟨hplain', locals₂, store₂, hrun₂, hm₂⟩ := hrun' hc₂ hm₁
  exact ⟨forall_mem_append.2 ⟨hplain, hplain'⟩, locals₂, store₂, hrun₁.append hrun₂, hm₂⟩

theorem Takes.pure {a : α} (h : Q a K) : R.Takes K (Pure.pure a : Select α) Q := by
  intro r b r' hcount hrun
  obtain ⟨rfl, rfl⟩ := pure_ok.1 hrun
  refine ⟨[], K, (append_nil _).symm, hcount, h, fun hc hm => ?_⟩
  obtain ⟨rfl, rfl⟩ := hc.nothing
  exact ⟨nofun, _, _, .nil, hm⟩

theorem takes_fail (e : Error) : R.Takes K (Select.fail e : Select α) Q :=
  fun _ _ _ _ h => absurd h throw_ok

theorem Adds.next {e : Select Temp} {f : Temp → Select β} (h : R.Adds K e fact)
    (hf : R.Takes (K.add fact) (f K.temps.length) Q') : R.Takes K (e >>= f) Q' :=
  .bind h fun _ _ ⟨ht, hK⟩ => ht ▸ hK ▸ hf

theorem Takes.imp {Q' : α → Facts → Prop} (h : R.Takes K s Q) (hq : ∀ a K', Q a K' → Q' a K') :
    R.Takes K s Q' := by
  intro r a r' hcount hrun
  obtain ⟨ls, K', hls, hcount', h, hruns⟩ := h hcount hrun
  exact ⟨ls, K', hls, hcount', hq a K' h, hruns⟩

/-- A line that has a value. -/
theorem value_adds {e : Expr} (h : ∀ {ids c id rest locals store}, ExprCode R.names ids e c id →
    R.Meets K ids locals store (c ++ rest) → (∀ i ∈ c, i.opcode ≠ .extInst) ∧
      ∃ locals', R.env.Runs c locals store locals' store ∧ R.Meaning locals' rest fact id) :
    R.Adds K (Select.value e) fact := by
  intro r t r' hcount hrun
  cases modifyGet_ok.1 hrun
  refine ⟨[.value e], K.add fact, rfl, ?_, ⟨hcount, rfl⟩, fun hc hm => ?_⟩
  · rw [Facts.add, length_append, hcount]
    rfl
  · cases hc with
    | value he hls =>
      obtain ⟨rfl, rfl⟩ := hls.nothing
      rw [append_nil] at hm ⊢
      obtain ⟨hplain, locals', hruns, hfact⟩ := h he hm
      exact ⟨hplain, locals', _, hruns, (hm.keeps hruns).add hfact⟩

theorem type_adds (k : Kind) : R.Adds K (Select.typeOf k) (.type k) :=
  value_adds fun he _ => by
    cases he with
    | type ht => exact ⟨nofun, _, .nil, ht⟩

theorem pointer_adds (k : Kind) (storage : StorageClass) :
    R.Adds K (Select.pointerTo k storage) (.pointer k storage) :=
  value_adds fun he _ => by
    cases he with
    | pointer ht hp => exact ⟨nofun, _, .nil, _, ht, hp⟩

theorem constant_adds {text : String}
    (h : ∀ id, R.names.session.constants.get? (text, k) = some id →
    R.env.program.constants[id]? = some x) : R.Adds K (Select.constant text k) (.constant x) :=
  value_adds fun he _ => by
    cases he with
    | constant hc => exact ⟨nofun, _, .nil, ⟨_, hc⟩, h _ hc⟩

/-- An instruction that computes a value of known ones. -/
structure Executes (R : Running) (K : Facts) (op : Opcode) (t : Temp) (args : List Arg)
    (x : Value) :
    Prop where
  plain : op ≠ .extInst
  runs : ∀ {ids locals store c type operands id}, R.Meets K ids locals store c →
    ids[t]? = some type → args.mapM (argOf ids) = some operands →
    R.env.execute locals store ⟨op, some type, some id, operands⟩ = .ok (.next (some x) store)

theorem Meets.new (h : R.Meets K ids locals store (i :: rest))
    (hi : i.result = some id) : id ∉ results rest := by
  have hnodup := h.nodup
  rw [results, filterMap_cons_some hi] at hnodup
  exact (nodup_cons.1 hnodup).1

theorem instr_adds (h : R.Executes K op t args x) : R.Adds K (Select.instr op t args) (.result x) :=
  value_adds fun he hm => by
    cases he with
    | instr ht ha =>
      exact ⟨fun i hi => mem_singleton.1 hi ▸ h.plain, _, .single rfl (h.runs hm ht ha),
        Std.TreeMap.getElem?_insert_self, hm.new rfl⟩

theorem Executes.computes (h : R.Executes K' op t args x) (hg : K.Grows K') :
    R.Takes K' (Select.instr op t args) fun t K'' => K.Grows K'' ∧
      K''.temps[t]? = some (.result x) :=
  Takes.imp (instr_adds h) fun _ _ ⟨ht, hK⟩ => by
    subst ht hK
    exact ⟨hg.trans (Facts.grows_add _ _), Facts.add_last _ _⟩

/-- A line that has an effect. -/
theorem effect_takes {e : Effect} (h : ∀ {ids c rest locals store}, EffectCode R.names ids e c →
    R.Meets K ids locals store (c ++ rest) → (∀ i ∈ c, i.opcode ≠ .extInst) ∧
      ∃ locals' store', R.env.Runs c locals store locals' store' ∧
        R.Meets (K.define v x) ids locals' store' rest) :
    R.Takes K (Select.effect e) fun _ K' => K' = K.define v x := by
  intro r u r' hcount hrun
  cases modify_ok.1 hrun
  refine ⟨[.effect e], K.define v x, rfl, hcount, rfl, fun hc hm => ?_⟩
  cases hc with
  | effect he hls =>
    obtain ⟨rfl, rfl⟩ := hls.nothing
    rw [append_nil] at hm ⊢
    exact h he hm

theorem stored_plain {n : Names} (h : i ∈ n.stored v id) : i.opcode ≠ .extInst := by
  unfold Names.stored at h
  split at h
  · rw [mem_singleton.1 h]
    intro hop
    cases hop
  · cases h

/-- A variable is defined by one instruction, and stored. -/
theorem Meets.defined
    (hm : R.Meets K ids locals store (i :: R.names.stored v id ++ rest))
    (hi : i.result = some id) (hplain : i.opcode ≠ .extInst)
    (hx : R.env.execute locals store i = .ok (.next (some x) store))
    (hv : R.names.symbols.resolve? v = some id) (hk : R.names.scope.function.kindOf? v = some k)
    (hs : R.Stores k x) :
    (∀ j ∈ i :: R.names.stored v id, j.opcode ≠ .extInst) ∧ ∃ locals' store',
      R.env.Runs (i :: R.names.stored v id) locals store locals' store' ∧
        R.Meets (K.define v x) ids locals' store' rest := by
  have hfirst := Device.Env.Runs.single hi hx
  obtain ⟨store', hrun, hm'⟩ := Meets.define (.keeps (c := [i]) hm hfirst) hv
    Std.TreeMap.getElem?_insert_self
    (fun hin => hm.new hi (results_append _ rest ▸ mem_append_right _ hin)) hk hs
  exact ⟨forall_mem_cons.2 ⟨hplain, fun j => stored_plain⟩, _, store', hfirst.append hrun, hm'⟩

/-- A variable is defined as a value that was computed. -/
theorem forward_takes (hx : K.temps[t]? = some (.result x))
    (hk : R.names.scope.function.kindOf? v = some k) (hs : R.Stores k x) :
    R.Takes K (Select.forward v t) fun _ K' => K' = K.define v x :=
  effect_takes fun he hm => by
    cases he with
    | shared hid hv =>
      obtain ⟨hlocal, hnew⟩ := hm.lookup hx hid
      obtain ⟨store', hrun, hm'⟩ := hm.define hv hlocal
        (fun hin => hnew (results_append _ _ ▸ mem_append_right _ hin)) hk hs
      exact ⟨fun i => stored_plain, _, store', hrun, hm'⟩
    | copy hid _ _ hv =>
      exact hm.defined rfl nofun (Env.execute_copy (hm.value (.inr hx) hid)) hv hk hs

end Rules

end Running

end KernelForge.Codegen
