import KernelForge.Proofs.Layout.Recipe
import KernelForge.Proofs.Paths

/-!
# What recipes use and define

The recipe of an operation fetches no variable but those the operation uses, defines the variable
the operation defines, once, and neither merges nor leaves its block; a device carries out every
instruction of it.
-/

namespace KernelForge.Codegen

open List
open Lir (Kind ValueId ArrayId Region Address BinaryOp Operand Param)
open Spirv (Opcode MathOp StorageClass)
open Lir.Operand (vars)

/-- Variables that lines fetch. -/
def Line.uses : Line → List ValueId
  | .value (.use v) => [v]
  | _ => []

/-- Opcodes of instructions in the middle of a block, which a device carries out. -/
def isStraight (op : Opcode) : Bool := Device.isExecutable op && op != .phi && !op.isTerminator

/-- Those of instructions that neither declare a variable nor announce a loop. -/
def isOrdinary (op : Opcode) : Bool := isStraight op && op != .variableDecl && op != .loopMerge

/-- Those of instructions that are no extended ones. -/
def isPlain (op : Opcode) : Bool := isOrdinary op && op != .extInst

def Arg.isValue : Arg → Bool
  | .value _ => true
  | _ => false

/-- Operands of an extended instruction: all of them are values, but for those that follow the
pointer of a vector load. -/
def mathArgs (op : MathOp) (args : List Arg) : Bool :=
  (if op = .vloadn then args.take 2 else args).all Arg.isValue

/-- Lines that become instructions in the middle of a block. -/
def Line.plain : Line → Bool
  | .value (.instr op _ _) | .effect (.perform op _) | .effect (.define _ op _ _) => isPlain op
  | .value (.math op _ args) | .effect (.defineMath _ op _ args) => mathArgs op args
  | _ => true

theorem mathArgs_values (op : MathOp) (temps : List Temp) :
    mathArgs op (temps.map .value) = true := by
  unfold mathArgs
  rw [all_eq_true]
  intro arg harg
  have hmem : arg ∈ temps.map .value := by
    split at harg
    · exact mem_of_mem_take harg
    · exact harg
  obtain ⟨t, -, rfl⟩ := mem_map.1 hmem
  rfl

theorem ordinary_of_plain {op : Opcode} (h : isPlain op = true) : isOrdinary op = true :=
  (Bool.and_eq_true _ _ ▸ h).1

theorem straight_of_ordinary {op : Opcode} (h : isOrdinary op = true) : isStraight op = true := by
  simp only [isOrdinary, Bool.and_eq_true] at h
  exact h.1.1

theorem straight_of_plain {op : Opcode} (h : isPlain op = true) : isStraight op = true :=
  straight_of_ordinary (ordinary_of_plain h)

namespace Select

variable {α β : Type} {uses defs : List ValueId}

/-- Selection writes lines that fetch none but the given variables and define exactly
the given ones, and its result has a property. -/
def Writes (x : Select α) (uses defs : List ValueId) (Q : α → Prop) : Prop :=
  ∀ ⦃view r a r'⦄, x view r = .ok a r' → Q a ∧ ∃ ls, r'.lines = r.lines ++ ls ∧
    ls.flatMap Line.uses ⊆ uses ∧ ls.flatMap Line.defs = defs ∧ ∀ l ∈ ls, l.plain = true

/-- Lines that define nothing. -/
abbrev Fetches (x : Select α) (uses : List ValueId) : Prop := Writes x uses [] fun _ => True

namespace Writes

variable {x : Select α} {f : α → Select β} {Q : α → Prop} {R : β → Prop} {defs' : List ValueId}

theorem bindWith (hx : Writes x uses defs Q)
    (hf : ∀ a, Q a → Writes (f a) uses defs' R) : Writes (x >>= f) uses (defs ++ defs') R := by
  intro view r b r'' h
  obtain ⟨a, r', hxa, hfa⟩ := bind_ok.1 h
  obtain ⟨hq, ls, hls, huses, hdefs, hplain⟩ := hx hxa
  obtain ⟨hr, ls', hls', huses', hdefs', hplain'⟩ := hf a hq hfa
  refine ⟨hr, ls ++ ls', by rw [hls', hls, append_assoc], ?_, by simp [hdefs, hdefs'], ?_⟩
  · rw [flatMap_append, append_subset]
    exact ⟨huses, huses'⟩
  · intro l hl
    exact (mem_append.1 hl).elim (hplain l) (hplain' l)

theorem bind (hx : Writes x uses defs Q)
    (hf : ∀ a, Writes (f a) uses defs' R) : Writes (x >>= f) uses (defs ++ defs') R :=
  hx.bindWith fun a _ => hf a

theorem pure {a : α} (h : Q a) : Writes (Pure.pure a : Select α) uses [] Q := by
  intro view r b r' hrun
  obtain ⟨rfl, rfl⟩ := pure_ok.1 hrun
  exact ⟨h, [], by simp, by simp, rfl, by simp⟩

theorem fail (e : Error) : Writes (fail e : Select α) uses defs Q :=
  fun _ _ _ _ h => absurd h throw_ok

theorem ofExcept {e : Except Error α} (h : ∀ a, e = .ok a → Q a) :
    Writes (ofExcept e : Select α) uses [] Q := by
  cases e with
  | error => exact fun _ _ _ _ h => absurd h throw_ok
  | ok a => exact pure (h a rfl)

theorem read {g : View → Select α} (h : ∀ view, Writes (g view) uses defs Q) :
    Writes (MonadReader.read >>= g) uses defs Q :=
  fun view _ _ _ hrun => h view hrun

theorem mapM {l : List β} {g : β → Select α} (h : ∀ b ∈ l, Fetches (g b) uses) :
    Fetches (l.mapM g) uses := by
  induction l with
  | nil => exact pure trivial
  | cons b l ih =>
    rw [mapM_cons]
    refine (h b mem_cons_self).bind fun a => ?_
    have hrest := ih fun b hb => h b (mem_cons_of_mem _ hb)
    exact hrest.bind fun as => pure trivial

end Writes

theorem value_fetches {e : Expr} (h : Line.uses (.value e) ⊆ uses)
    (hp : Line.plain (.value e) = true) : Fetches (value e) uses := by
  intro view r t r' hrun
  cases modifyGet_ok.1 hrun
  exact ⟨trivial, [.value e], rfl, by simpa using h, rfl, by simpa using hp⟩

theorem effect_writes {e : Effect} (hp : Line.plain (.effect e) = true) :
    Writes (effect e) uses (Line.defs (.effect e)) fun _ => True := by
  intro view r u r' hrun
  cases modify_ok.1 hrun
  exact ⟨trivial, [.effect e], rfl, by simp [Line.uses], by simp, by simpa using hp⟩

theorem typeOf_fetches (k : Kind) : Fetches (typeOf k) uses :=
  value_fetches (by simp [Line.uses]) rfl

theorem constant_fetches (text : String) (k : Kind) : Fetches (constant text k) uses :=
  value_fetches (by simp [Line.uses]) rfl

variable {op opcode : Opcode}

theorem instr_fetches (h : isPlain op = true) (type : Temp) (args : List Arg) :
    Fetches (instr op type args) uses :=
  value_fetches (by simp [Line.uses]) h

theorem pointerTo_fetches (k : Kind) (storage : StorageClass) :
    Fetches (pointerTo k storage) uses :=
  value_fetches (by simp [Line.uses]) rfl

theorem defineAs_writes (v : ValueId) (h : isPlain op = true) (type : Temp) (args : List Arg) :
    Writes (defineAs v op type args) uses [v] fun _ => True :=
  effect_writes h

theorem forward_writes (v : ValueId) (t : Temp) : Writes (forward v t) uses [v] fun _ => True :=
  effect_writes rfl

theorem kindOf_fetches (v : ValueId) : Fetches (kindOf v) uses := by
  refine .read fun view => ?_
  cases view.function.kindOf? v with
  | some k => exact .pure trivial
  | none => exact .fail _

theorem operandKind_fetches (o : Operand) : Fetches (operandKind o) uses := by
  cases o with
  | var v => exact kindOf_fetches v
  | const l => exact .pure trivial

variable {o value : Operand} {k : Kind}

theorem operand_fetches (h : o.vars ⊆ uses) : Fetches (operand o) uses := by
  cases o with
  | var => exact value_fetches h rfl
  | const => exact constant_fetches _ _

/-! ## Conversions -/

theorem conversionOpcode_plain {source target : Kind} {signed : Bool}
    (h : conversionOpcode source target signed = some op) : isPlain op = true := by
  unfold conversionOpcode at h
  split at h <;> first
    | (split at h <;> cases signed <;> cases h <;> rfl)
    | (cases h; rfl)

theorem conversion_writes (t : Temp) (source target : Kind) (op : Lir.ConvertOp) :
    Writes (conversion t source target op) uses [] fun c => isPlain c.1 = true := by
  unfold conversion
  split
  · exact .fail _
  split
  · split
    · exact .fail _
    · exact .pure rfl
  split
  · exact (constant_fetches _ _).bind fun _ => (constant_fetches _ _).bind fun _ => .pure rfl
  split
  · exact (constant_fetches _ _).bind fun _ => .pure rfl
  split
  · next opcode hop => exact .pure (conversionOpcode_plain hop)
  · exact .fail _

theorem sameType_fetches (a b : Kind) : Fetches (sameType a b) uses :=
  (typeOf_fetches a).bind fun _ => (typeOf_fetches b).bind fun _ => .pure trivial

theorem convertSigned_fetches (t : Temp) (source target : Kind) :
    Fetches (convertSigned t source target) uses := by
  refine (sameType_fetches _ _).bind fun same => ?_
  split
  · exact .pure trivial
  · refine (conversion_writes _ _ _ _).bindWith fun c hc => ?_
    exact (typeOf_fetches _).bind fun type => instr_fetches hc _ _

theorem operandAs_fetches (k : Kind) (h : o.vars ⊆ uses) : Fetches (operandAs o k) uses := by
  cases o with
  | const => exact constant_fetches _ _
  | var v =>
    refine (kindOf_fetches v).bind fun actual => (operand_fetches h).bind fun t => ?_
    split
    · exact .pure trivial
    · exact convertSigned_fetches _ _ _

/-! ## Operators -/

theorem binaryOpcode?_plain {op : BinaryOp} (h : binaryOpcode? op k = some opcode) :
    isPlain opcode = true := by
  unfold binaryOpcode? at h
  split at h
  · cases op <;> cases h <;> rfl
  split at h
  · cases op <;> cases h <;> rfl
  split at h
  · cases op <;> cases h <;> rfl
  · cases h

theorem binaryOpcode_plain {op : BinaryOp} (h : binaryOpcode op k = .ok opcode) :
    isPlain opcode = true := by
  unfold binaryOpcode at h
  split at h
  · next hop =>
    cases h
    exact binaryOpcode?_plain hop
  · cases h

theorem unaryOpcode_plain {op : Lir.UnaryOp} (h : unaryOpcode? op k = some opcode) :
    isPlain opcode = true := by
  unfold unaryOpcode? at h
  cases op <;> simp only at h <;> split at h <;> first
    | (cases h; rfl)
    | (split at h <;> cases h; rfl)

section Operands

variable {lhs rhs : Operand} (hl : lhs.vars ⊆ uses) (hr : rhs.vars ⊆ uses)

theorem secondOperand_fetches (k : Kind) (hr : rhs.vars ⊆ uses) :
    Fetches (secondOperand rhs k) uses := by
  cases rhs with
  | const => exact constant_fetches _ _
  | var => exact operand_fetches hr

include hl hr

theorem reconcile_fetches : Fetches (reconcile lhs rhs) uses := by
  refine (operandKind_fetches _).bind fun lk => (operandKind_fetches _).bind fun rk => ?_
  split
  · refine (operand_fetches hl).bind fun a => ?_
    exact (secondOperand_fetches lk hr).bind fun b => .pure trivial
  split
  · exact .fail _
  · refine (operandAs_fetches _ hl).bind fun a => ?_
    exact (operandAs_fetches _ hr).bind fun b => .pure trivial

theorem binaryOperands_fetches (op : BinaryOp) : Fetches (binaryOperands op lhs rhs) uses := by
  unfold binaryOperands
  split
  · refine (operandKind_fetches _).bind fun lk => (operand_fetches hl).bind fun a => ?_
    exact (secondOperand_fetches lk hr).bind fun b => .pure trivial
  · exact reconcile_fetches hl hr

theorem binary_writes (dst : ValueId) (op : BinaryOp) :
    Writes (binary dst op lhs rhs) uses [dst] fun _ => True := by
  refine (kindOf_fetches dst).bind fun k => (binaryOperands_fetches hl hr op).bind fun c => ?_
  refine (Writes.ofExcept fun _ => binaryOpcode_plain).bindWith fun opcode hop => ?_
  split
  · split
    · exact .fail _
    · exact (typeOf_fetches _).bind fun type => defineAs_writes dst hop _ _
  refine (typeOf_fetches _).bind fun workType => (typeOf_fetches _).bind fun dstType => ?_
  split
  · exact defineAs_writes dst hop _ _
  split
  · exact (instr_fetches hop _ _).bind fun wide => defineAs_writes dst rfl _ _
  · exact .fail _

theorem integerTest_writes (dst : ValueId) :
    Writes (integerTest dst lhs rhs) uses [dst] fun _ => True := by
  refine (reconcile_fetches hl hr).bind fun ⟨a, b, work⟩ => ?_
  dsimp only
  split
  · exact .fail _
  refine (typeOf_fetches _).bind fun type => (instr_fetches rfl _ _).bind fun masked => ?_
  refine (constant_fetches _ _).bind fun zeroTemp => (typeOf_fetches _).bind fun boolType => ?_
  exact defineAs_writes dst rfl _ _

theorem select_writes (dst : ValueId) (cmp : BinaryOp) {onTrue onFalse : Operand}
    (ht : onTrue.vars ⊆ uses) (hf : onFalse.vars ⊆ uses) :
    Writes (select dst cmp lhs rhs onTrue onFalse) uses [dst] fun _ => True := by
  unfold select
  split
  · exact .fail _
  refine (reconcile_fetches hl hr).bind fun c => (typeOf_fetches _).bind fun boolType => ?_
  refine (Writes.ofExcept fun _ => binaryOpcode_plain).bindWith fun opcode hop => ?_
  refine (instr_fetches hop _ _).bind fun condition => (kindOf_fetches dst).bind fun k => ?_
  refine (operandAs_fetches k ht).bind fun t => (operandAs_fetches k hf).bind fun f => ?_
  exact (typeOf_fetches _).bind fun type => defineAs_writes dst rfl _ _

end Operands

section Values

variable {src : Operand} (dst : ValueId) (hs : src.vars ⊆ uses)

include hs

theorem unary_writes (op : Lir.UnaryOp) : Writes (unary dst op src) uses [dst] fun _ => True := by
  refine (kindOf_fetches dst).bind fun k => (operandAs_fetches k hs).bind fun value => ?_
  split
  · exact .fail _
  · next opcode hop =>
    exact (typeOf_fetches _).bind fun type => defineAs_writes dst (unaryOpcode_plain hop) _ _

theorem convert_writes (op : Lir.ConvertOp) :
    Writes (convert dst op src) uses [dst] fun _ => True := by
  refine (kindOf_fetches dst).bind fun target => (operandKind_fetches _).bind fun source => ?_
  refine (operand_fetches hs).bind fun value => (sameType_fetches _ _).bind fun same => ?_
  split
  · exact forward_writes dst value
  refine (conversion_writes _ _ _ _).bindWith fun c hc => ?_
  exact (typeOf_fetches _).bind fun type => defineAs_writes dst hc _ _

theorem move_writes : Writes (move dst src) uses [dst] fun _ => True :=
  (kindOf_fetches dst).bind fun k => (operandAs_fetches k hs).bind fun t => forward_writes dst t

end Values

variable {args elements : List Operand}

theorem intrinsic_writes (dst : ValueId) (op : Lir.Intrinsic)
    (ha : args.flatMap vars ⊆ uses) :
    Writes (intrinsic dst op args) uses [dst] fun _ => True := by
  unfold intrinsic
  split
  · exact .fail _
  refine (kindOf_fetches dst).bind fun k => ?_
  split
  · exact .fail _
  have hargs : Fetches (args.mapM fun arg => operandAs arg k) uses := by
    refine .mapM fun arg harg => operandAs_fetches k fun v hv => ha ?_
    exact mem_flatMap.2 ⟨arg, harg, hv⟩
  exact hargs.bind fun temps => (typeOf_fetches _).bind fun type =>
    effect_writes (mathArgs_values _ temps)

/-! ## Accesses -/

theorem index64_fetches (h : o.vars ⊆ uses) : Fetches (index64 o) uses := by
  cases o with
  | const => exact constant_fetches _ _
  | var v =>
    refine (kindOf_fetches v).bind fun k => (operand_fetches h).bind fun value => ?_
    split
    · exact .pure trivial
    · exact .pure trivial
    all_goals first
      | exact (typeOf_fetches _).bind fun long => instr_fetches rfl _ _
      | exact .fail _

variable {offset : Option Operand}

theorem displaced_fetches (start : Temp) (h : offset.toList.flatMap vars ⊆ uses) :
    Fetches (displaced start offset) uses := by
  cases offset with
  | none => exact .pure trivial
  | some o =>
    have ho : o.vars ⊆ uses := by simpa using h
    refine (index64_fetches ho).bind fun offset => (typeOf_fetches _).bind fun long => ?_
    exact instr_fetches rfl _ _

theorem rawPointer_fetches {base : ValueId} (storage : StorageClass) (access : Kind)
    (h : base :: offset.toList.flatMap vars ⊆ uses) :
    Fetches (rawPointer base offset storage access) uses := by
  obtain ⟨hbase, hoffset⟩ := cons_subset.1 h
  refine (kindOf_fetches base).bind fun k => ?_
  split
  · exact .fail _
  have hstart : Fetches (operand (.var base)) uses :=
    operand_fetches (cons_subset.2 ⟨hbase, nil_subset _⟩)
  refine hstart.bind fun start => (displaced_fetches start hoffset).bind fun address => ?_
  exact (pointerTo_fetches _ _).bind fun pointer => instr_fetches rfl _ _

theorem arrayPointer_fetches (region : Region) (array : ArrayId) {index : Operand}
    (access : Kind) (h : index.vars ⊆ uses) :
    Fetches (arrayPointer region array index access) uses := by
  refine .read fun view => ?_
  split
  · exact .fail _
  split
  · exact .fail _
  refine (index64_fetches h).bind fun i => (constant_fetches _ _).bind fun zeroTemp => ?_
  refine (pointerTo_fetches _ _).bind fun elementPtr => ?_
  refine (value_fetches (by simp [Line.uses]) rfl).bind fun storageTemp => ?_
  refine (instr_fetches rfl _ _).bind fun pointer => (sameType_fetches _ _).bind fun same => ?_
  split
  · exact .pure trivial
  · exact (pointerTo_fetches _ _).bind fun accessPtr => instr_fetches rfl _ _

variable {a : Address}

theorem address_fetches (k : Kind) (h : a.vars ⊆ uses) : Fetches (address a k) uses := by
  cases a with
  | heap | generic => exact rawPointer_fetches _ _ h
  | array => exact arrayPointer_fetches _ _ _ h

theorem load_writes (dst : ValueId) (h : a.vars ⊆ uses) :
    Writes (load dst a) uses [dst] fun _ => True := by
  refine (kindOf_fetches dst).bind fun k => (address_fetches k h).bind fun pointer => ?_
  split
  · refine (typeOf_fetches _).bind fun type => (constant_fetches _ _).bind fun zeroTemp => ?_
    exact effect_writes rfl
  split
  · refine (typeOf_fetches _).bind fun byte => (instr_fetches rfl _ _).bind fun raw => ?_
    refine (constant_fetches _ _).bind fun zeroTemp => (typeOf_fetches _).bind fun type => ?_
    exact defineAs_writes dst rfl _ _
  · exact (typeOf_fetches _).bind fun type => defineAs_writes dst rfl _ _

theorem storedForm_fetches (k : Kind) (t : Temp) : Fetches (storedForm k t) uses := by
  unfold storedForm
  split
  · refine (typeOf_fetches _).bind fun byte => (constant_fetches _ _).bind fun oneTemp => ?_
    exact (constant_fetches _ _).bind fun zeroTemp => instr_fetches rfl _ _
  · exact .pure trivial

theorem store_fetches (ha : a.vars ⊆ uses) (hv : value.vars ⊆ uses) :
    Fetches (store a value) uses := by
  refine (operandKind_fetches _).bind fun k => (address_fetches k ha).bind fun pointer => ?_
  refine (operand_fetches hv).bind fun t => ?_
  split
  · refine (typeOf_fetches _).bind fun void => (constant_fetches _ _).bind fun zeroTemp => ?_
    exact (value_fetches (by simp [Line.uses]) rfl).bind fun _ => .pure trivial
  · exact (storedForm_fetches k t).bind fun stored => effect_writes rfl

/-! ## Lanes -/

theorem vectorKind_fetches (dst : ValueId) : Fetches (vectorKind dst) uses := by
  refine (kindOf_fetches dst).bind fun k => ?_
  split
  · exact .pure trivial
  · exact .fail _

theorem checkLane_fetches (k : Kind) (lane : UInt32) : Fetches (checkLane k lane) uses := by
  unfold checkLane
  split
  · exact .fail _
  · exact .pure trivial

theorem laneValue_fetches (lane : Kind) (h : o.vars ⊆ uses) : Fetches (laneValue o lane) uses := by
  cases o with
  | const => exact constant_fetches _ _
  | var v =>
    refine (kindOf_fetches v).bind fun actual => (operand_fetches h).bind fun value => ?_
    exact convertSigned_fetches _ _ _

theorem insertLanes_writes (dst : ValueId) (type : Temp) (lane : Kind) (i : Nat) (object : Temp)
    (h : elements.flatMap vars ⊆ uses) :
    Writes (insertLanes dst type lane i object elements) uses [dst] fun _ => True := by
  fun_induction insertLanes dst type lane i object elements with
  | case1 => exact forward_writes dst _
  | case2 i object last =>
    have hlast : last.vars ⊆ uses := by simpa using h
    exact (laneValue_fetches lane hlast).bind fun value => defineAs_writes dst rfl _ _
  | case3 i object element rest _ ih =>
    obtain ⟨hfirst, hrest⟩ := append_subset.1 (flatMap_cons ▸ h)
    refine (laneValue_fetches lane hfirst).bind fun value => ?_
    exact (instr_fetches rfl _ _).bind fun object => ih object hrest

theorem vectorBuild_writes (dst : ValueId) (h : elements.flatMap vars ⊆ uses) :
    Writes (vectorBuild dst elements) uses [dst] fun _ => True := by
  refine (vectorKind_fetches dst).bind fun k => ?_
  split
  · exact .fail _
  refine (typeOf_fetches _).bind fun type => (instr_fetches rfl _ _).bind fun object => ?_
  exact insertLanes_writes dst _ _ _ _ h

theorem vectorExtract_writes (dst : ValueId) {src : Operand} (lane : UInt32)
    (hs : src.vars ⊆ uses) : Writes (vectorExtract dst src lane) uses [dst] fun _ => True := by
  refine (operandKind_fetches _).bind fun k => (checkLane_fetches k lane).bind fun _ => ?_
  refine (kindOf_fetches dst).bind fun dstKind => (operand_fetches hs).bind fun source => ?_
  refine (typeOf_fetches _).bind fun laneType => (typeOf_fetches _).bind fun _ => ?_
  split
  · exact defineAs_writes dst rfl _ _
  refine (instr_fetches rfl _ _).bind fun extracted => ?_
  exact (convertSigned_fetches _ _ _).bind fun t => forward_writes dst t

theorem vectorInsert_writes (dst : ValueId) {vector : Operand} (lane : UInt32)
    (hv : vector.vars ⊆ uses) (he : value.vars ⊆ uses) :
    Writes (vectorInsert dst vector lane value) uses [dst] fun _ => True := by
  refine (vectorKind_fetches dst).bind fun k => (checkLane_fetches k lane).bind fun _ => ?_
  refine (operandAs_fetches k hv).bind fun source => (laneValue_fetches _ he).bind fun element => ?_
  exact (typeOf_fetches _).bind fun type => defineAs_writes dst rfl _ _

/-! ## Operations -/

theorem call_writes (dst : Option ValueId) (callee : String)
    (ha : args.flatMap vars ⊆ uses) :
    Writes (call dst callee args) uses dst.toList fun _ => True := by
  refine .read fun view => ?_
  split
  · exact .fail _
  next interface _ =>
  split
  · exact .fail _
  split
  · exact .fail _
  refine (value_fetches (by simp [Line.uses]) rfl).bind fun target => ?_
  refine .bind (.mapM fun p hp => operandAs_fetches p.2 fun v hv => ha
    (mem_flatMap.2 ⟨p.1, (of_mem_zip hp).1, hv⟩)) fun temps => ?_
  refine (typeOf_fetches _).bind fun ret => ?_
  cases dst with
  | some dst => exact defineAs_writes dst rfl _ _
  | none => exact (instr_fetches rfl _ _).bind fun _ => .pure trivial

theorem threadId_writes (dst : ValueId) (query : Lir.ThreadQuery) (dimension : UInt32) :
    Writes (threadId dst query dimension) uses [dst] fun _ => True := by
  unfold threadId
  split
  · exact .fail _
  refine (kindOf_fetches dst).bind fun dstKind => ?_
  split
  · exact .fail _
  refine (value_fetches (by simp [Line.uses]) rfl).bind fun source => ?_
  refine (typeOf_fetches _).bind fun vectorType => (typeOf_fetches _).bind fun long => ?_
  refine (instr_fetches rfl _ _).bind fun loaded => ?_
  split
  · exact defineAs_writes dst rfl _ _
  refine (instr_fetches rfl _ _).bind fun wide => (typeOf_fetches _).bind fun type => ?_
  exact defineAs_writes dst rfl _ _

theorem barrier_fetches (fence : Lir.Fence) : Fetches (barrier fence) uses := by
  refine (constant_fetches _ _).bind fun scope => (constant_fetches _ _).bind fun order => ?_
  exact effect_writes rfl

/-- An operation's recipe fetches only what the operation uses and defines what the
operation defines. -/
theorem op_writes (o : Lir.Op) : Writes (Select.op o) o.uses o.dst?.toList fun _ => True := by
  have left {a b : List ValueId} : a ⊆ a ++ b := subset_append_left _ _
  have right {a b : List ValueId} : b ⊆ a ++ b := subset_append_right _ _
  cases o with
  | binary dst op => exact binary_writes left right dst op
  | unary dst op => exact unary_writes dst (List.Subset.refl _) op
  | convert dst op => exact convert_writes dst (List.Subset.refl _) op
  | select dst cmp =>
    refine select_writes ?_ ?_ dst cmp ?_ ?_ <;> intro v hv <;> simp [Lir.Op.uses, hv]
  | integerTest dst => exact integerTest_writes left right dst
  | intrinsic dst op => exact intrinsic_writes dst op (List.Subset.refl _)
  | move dst => exact move_writes dst (List.Subset.refl _)
  | load dst => exact load_writes dst (List.Subset.refl _)
  | store => exact store_fetches left right
  | vectorBuild dst => exact vectorBuild_writes dst (List.Subset.refl _)
  | vectorExtract dst vector lane => exact vectorExtract_writes dst lane (List.Subset.refl _)
  | vectorInsert dst vector lane => exact vectorInsert_writes dst lane left right
  | call dst callee => exact call_writes dst callee (List.Subset.refl _)
  | phi => exact .fail _
  | threadId dst query dimension => exact threadId_writes dst query dimension
  | barrier fence => exact barrier_fetches fence

/-! ## Conditions and parameters -/

theorem condition_fetches (o : Operand) : Fetches (condition o) o.vars := by
  refine (operandKind_fetches o).bind fun k => ?_
  split
  · exact operand_fetches (List.Subset.refl _)
  split
  · exact .fail _
  refine (operand_fetches (List.Subset.refl _)).bind fun t => ?_
  refine (constant_fetches _ _).bind fun zeroTemp => (typeOf_fetches _).bind fun boolType => ?_
  exact instr_fetches rfl _ _

theorem selector_fetches (o : Operand) : Fetches (selector o) o.vars := by
  refine (operandKind_fetches o).bind fun k => ?_
  split
  · exact .fail _
  · exact (operand_fetches (List.Subset.refl _)).bind fun t => .pure trivial

theorem convertSlot_fetches (h : isPlain opcode = true) (k : Kind) (t : Temp) :
    Fetches (convertSlot opcode k t) uses :=
  (typeOf_fetches _).bind fun _ => instr_fetches h _ _

theorem slotValue_fetches (raw : Temp) (k : Kind) : Fetches (slotValue raw k) uses := by
  cases k with
  | i64 | ptr => exact .pure trivial
  | i8 | i16 | i32 | f64 => exact convertSlot_fetches rfl _ _
  | f32 | f16 => exact (convertSlot_fetches rfl _ _).bind fun t => convertSlot_fetches rfl _ _
  | bool =>
    refine (constant_fetches _ _).bind fun zeroTemp => (typeOf_fetches _).bind fun boolType => ?_
    exact instr_fetches rfl _ _
  | vector | void => exact .fail _

theorem frameParams_writes (frame slotPtr long : Temp) (slot : Nat) (params : List Param) :
    Writes (frameParams frame slotPtr long slot params) [] (params.map Lir.Param.var)
      fun _ => True := by
  induction params generalizing slot with
  | nil => exact .pure trivial
  | cons param rest ih =>
    refine (constant_fetches _ _).bind fun index => (instr_fetches rfl _ _).bind fun place => ?_
    refine (instr_fetches rfl _ _).bind fun raw => (slotValue_fetches _ _).bind fun t => ?_
    exact (forward_writes param.var t).bind fun _ => ih (slot + 1)

theorem deviceParams_writes (t : Temp) (params : List Param) :
    Writes (deviceParams t params) [] (params.map Lir.Param.var) fun _ => True := by
  induction params generalizing t with
  | nil => exact .pure trivial
  | cons param rest ih => exact (forward_writes param.var t).bind fun _ => ih (t + 1)

variable {view : View}

theorem params_run (r : Recipe) : params view r = (match view.function.role with
    | .kernel => kernelParams 0 1 view.function.params
    | .device => deviceParams 0 view.function.params : Select Unit) view r := rfl

/-- The parameters' recipe fetches nothing and defines the parameters. -/
theorem params_ok {r r' : Recipe} {u : Unit} (h : params view r = .ok u r') :
    ∃ ls, r'.lines = r.lines ++ ls ∧ ls.flatMap Line.uses = [] ∧
      ls.flatMap Line.defs = view.function.paramVars ∧ ∀ l ∈ ls, l.plain = true := by
  cases hrole : view.function.role with
  | device =>
    rw [params_run, hrole] at h
    have hwrites : Writes (deviceParams 0 view.function.params) [] view.function.paramVars
        fun _ => True := deviceParams_writes _ _
    obtain ⟨_, ls, hlines, huses, hdefs, hplain⟩ := hwrites h
    exact ⟨ls, hlines, subset_nil.1 huses, hdefs, hplain⟩
  | kernel =>
    rw [params_run, hrole] at h
    have hwrites : Writes (kernelParams 0 1 view.function.params) [] view.function.paramVars
        fun _ => True := by
      refine (pointerTo_fetches _ _).bind fun bytePtr => ?_
      refine (pointerTo_fetches _ _).bind fun slotPtr => (typeOf_fetches _).bind fun long => ?_
      refine (instr_fetches rfl _ _).bind fun bytes => (instr_fetches rfl _ _).bind fun frame => ?_
      exact frameParams_writes _ _ _ _ _
    obtain ⟨_, ls, hlines, huses, hdefs, hplain⟩ := hwrites h
    exact ⟨ls, hlines, subset_nil.1 huses, hdefs, hplain⟩

end Select

end KernelForge.Codegen
