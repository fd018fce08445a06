import KernelForge.Codegen.Assembler
import KernelForge.Lir.Json
import KernelForge.Proofs.Json.Text

/-!
# Modules are read back from their data format

`Faithful` says of a type that what is written is a plain tree and is read back as what was
written. Every part of the intermediate representation is faithful, because the parts it is made of
are.
-/

namespace KernelForge

open List

namespace Json

/-- A written value is a plain tree and is read back, and `null` is none of them. -/
class Faithful (α : Type) [Coded α] : Prop where
  back : ∀ a : α, read? (write a) = some a ∧ (write a).Plain
  null : read? (α := α) .null = none := by rfl

variable {α β : Type}

section Faithful

variable [Coded α] [Faithful α]

@[simp]
theorem reads (a : α) : read? (write a) = some a := (Faithful.back a).1

@[simp]
theorem plain (a : α) : (write a).Plain := (Faithful.back a).2

theorem Faithful.wrap {content : β → α} {make : α → β} (hmake : ∀ b, make (content b) = b) :
    @Faithful β (.wrap content make) := by
  refine @Faithful.mk _ (.wrap content make) (fun b => ⟨?_, plain (content b)⟩) ?_
  · show (read? (write (content b))).map make = _
    rw [reads, Option.map_some, hmake]
  · show (read? (α := α) .null).map make = none
    rw [Faithful.null, Option.map_none]

instance : Faithful (List α) where
  back as := by
    refine ⟨?_, .arr fun j hj => ?_⟩
    · show (as.map write).mapM read? = some as
      induction as with
      | nil => rfl
      | cons a as ih =>
        rw [map_cons, mapM_cons, reads a, ih]
        rfl
    · obtain ⟨a, _, rfl⟩ := mem_map.1 hj
      exact plain a

instance [Coded β] [Faithful β] : Faithful (α × β) where
  back p := by
    refine ⟨?_, .arr fun j hj => ?_⟩
    · show (do return (← read? (write p.1), ← read? (write p.2)) : Option (α × β)) = _
      simp
    · simp only [mem_cons, not_mem_nil, or_false] at hj
      rcases hj with rfl | rfl
      · exact plain _
      · exact plain _

/-- An absent value is told from every value that is there. -/
@[simp]
theorem reads_option (o : Option α) : read? (write o) = some o := by
  cases o with
  | none => rfl
  | some a =>
    have hread := reads a
    show read? (write a) = _
    generalize write a = j at hread
    cases j with
    | null =>
      rw [Faithful.null] at hread
      cases hread
    | _ => exact congrArg (Option.map some) hread

@[simp]
theorem plain_option (o : Option α) : (write o).Plain := by
  cases o with
  | none => exact .null
  | some a => exact plain a

end Faithful

theorem Faithful.number {limit : Nat} (hlimit : limit ≤ Nat.pow 2 64) {count : α → Nat}
    {make : Nat → α} (hcount : ∀ a, count a < limit) (hmake : ∀ a, make (count a) = a) :
    @Faithful α (.number limit count make) := by
  refine @Faithful.mk _ (.number limit count make) (fun a => ⟨?_, ?_⟩) rfl
  · show (if count a < limit then some (count a) else none).map make = _
    rw [if_pos (hcount a), Option.map_some, hmake]
  · have h := hcount a
    exact .int (by omega) (by omega)

theorem Faithful.named {values : List α} {name : α → String}
    (h : ∀ a, values.find? (fun b => name b == name a) = some a) :
    @Faithful α (.named values name) :=
  @Faithful.mk _ (.named values name) (fun a => ⟨h a, .str _⟩) rfl

instance : Faithful String where
  back s := ⟨rfl, .str s⟩

instance : Faithful Bool where
  back b := ⟨rfl, .bool b⟩

instance : Faithful UInt8 := .number (by decide) UInt8.toNat_lt fun _ => UInt8.ofNat_toNat

instance : Faithful UInt32 := .number (by decide) UInt32.toNat_lt fun _ => UInt32.ofNat_toNat

instance : Faithful Int64 where
  back n := by
    have hhigh : n.toInt < (Nat.pow 2 63 : Nat) := Int64.toInt_lt n
    have hpowers : Nat.pow 2 63 ≤ Nat.pow 2 64 := by decide
    refine ⟨?_, .int (Int64.le_toInt n) (by omega)⟩
    show (if _ then some (Int64.ofInt n.toInt) else none) = _
    rw [if_pos ⟨Int64.le_toInt n, Int64.toInt_lt n⟩, Int64.ofInt_toInt]

theorem plain_obj_nil : Plain (.obj []) := .obj fun _ h => nomatch h

/-- A record is plain when its fields are. -/
theorem plain_obj_cons {m : String × Json} {members : List (String × Json)} :
    Plain (.obj (m :: members)) ↔ m.2.Plain ∧ Plain (.obj members) := by
  constructor
  · rintro ⟨⟩
    next h =>
    exact ⟨h m mem_cons_self, .obj fun n hn => h n (mem_cons_of_mem _ hn)⟩
  · rintro ⟨hm, ⟨⟩⟩
    next h =>
    refine .obj fun n hn => ?_
    rcases mem_cons.1 hn with rfl | hn
    · exact hm
    · exact h n hn

end Json

namespace Lir

open Json

/-! The parts of a written record are found again by their names. -/

attribute [local simp] record? namedOnce membersNamed required? defaulted? Json.get? tagged? tag
  plain_obj_nil plain_obj_cons Plain.str

/-! ## Names and kinds -/

instance : Faithful ValueId := .wrap fun _ => rfl

instance : Faithful BlockId := .wrap fun _ => rfl

instance : Faithful ArrayId := .wrap fun _ => rfl

instance : Faithful Element := .named fun e => by cases e <;> rfl

instance : Faithful Kind where
  back k := by
    unfold Kind.coded
    cases k with
    | vector => simp
    | _ => exact ⟨rfl, .str _⟩

instance : Faithful Role := .named fun r => by cases r <;> rfl

instance : Faithful Region := .named fun r => by cases r <;> rfl

/-! ## Operands, addresses and operators -/

instance : Faithful Literal where
  back l := by
    unfold Literal.coded
    simp

instance : Faithful Operand where
  back o := by
    unfold Operand.coded
    cases o <;> simp

instance : Faithful Address where
  back a := by
    unfold Address.coded
    cases a with
    | heap | generic => simp [basedAddress?]
    | array region => cases region <;> simp [Region.text, indexedAddress?]

instance : Faithful BinaryOp := .named fun op => by cases op <;> rfl

instance : Faithful UnaryOp := .named fun op => by cases op <;> rfl

instance : Faithful ConvertOp := .named fun op => by cases op <;> rfl

instance : Faithful Intrinsic := .named fun op => by cases op <;> rfl

instance : Faithful ThreadQuery := .named fun q => by cases q <;> rfl

instance : Faithful Fence := .named fun fence => by cases fence <;> rfl

/-! ## Operations and terminators -/

instance : Faithful Op where
  back op := by
    unfold Op.coded
    cases op <;> simp [Op.ofTagged?.eq_def]

instance : Faithful LoopHint where
  back h := by
    unfold LoopHint.coded
    simp

instance : Faithful Terminator where
  back t := by
    unfold Terminator.coded
    cases t with
    | unreachable => exact ⟨rfl, .str _⟩
    | _ => simp

/-! ## Blocks, functions and modules -/

instance : Faithful Block where
  back b := by
    unfold Block.coded
    simp

instance : Faithful Param where
  back p := by
    unfold Param.coded
    simp

instance : Faithful ValueDecl where
  back d := by
    unfold ValueDecl.coded
    simp

instance : Faithful ArrayDecl where
  back d := by
    unfold ArrayDecl.coded
    simp

instance : Faithful Function where
  back f := by
    unfold Function.coded
    simp

theorem Module.back (m : Module) : ofJson? m.toJson = some m ∧ m.toJson.Plain := by
  simp [Module.toJson, Module.ofJson?]

def Module.ofText? (text : String) : Option Module := (Json.parse? text).bind Module.ofJson?

/-- **module_read_back**: a module is read back from its tree and from the text of that tree, and
what is read assembles to the same binary or the same error. -/
theorem module_read_back (m : Module) :
    Module.ofJson? m.toJson = some m ∧ Module.ofText? m.toJson.compact = some m ∧
    ∀ target settings,
      (Module.ofText? m.toJson.compact).map (fun m' => Codegen.assemble m' target settings) =
        some (Codegen.assemble m target settings) := by
  obtain ⟨hreads, hplain⟩ := m.back
  have htext : Module.ofText? m.toJson.compact = some m := by
    rw [Module.ofText?, parse?_compact hplain, Option.bind_some, hreads]
  refine ⟨hreads, htext, fun target settings => ?_⟩
  rw [htext, Option.map_some]

end Lir

end KernelForge
