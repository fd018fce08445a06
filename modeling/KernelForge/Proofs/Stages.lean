import KernelForge.Proofs.Declarations.Histories
import KernelForge.Proofs.Ledger.Module

/-!
# What a failed function leaves behind

Inside a function an assembler is frozen: every call of a caller fails and changes nothing. A
function that fails is either refused before anything of it is there, or it freezes the assembler,
or one of its workgroup arrays could not be declared. The last case is the odd one. The arrays come
after the signature and ahead of the stage inside the function, so that the assembler stays usable
and a later function may call one that has no body.
-/

namespace KernelForge.Codegen

open List hiding get modify
open Spirv (Id)

namespace Assembler

/-! ## Calls -/

/-- Calls that a caller may make on an assembler. -/
inductive Call where
  | header
  | declare (f : Lir.Function)
  | assemble (f : Lir.Function)
  | finish

namespace Call

def perform : Call → Assemble Unit
  | header => Assemble.header
  | declare f => discard (Assemble.declare f)
  | assemble f => Assemble.function f
  | finish => discard Assemble.finish

def succeeds (c : Call) (a : Assembler) : Bool :=
  match c.perform a with
  | .ok _ _ => true
  | .error _ _ => false

end Call

/-- The assembler after a history of calls, whichever of them succeeded. -/
def replay (a : Assembler) (calls : List Call) : Assembler :=
  calls.foldl (fun a c => left c.perform a) a

/-- No call changes anything, and none succeeds but to ask again for a signature that
is known. -/
def Frozen (a : Assembler) : Prop :=
  ∀ c : Call, left c.perform a = a ∧
    (c.succeeds a = true → ∃ f, c = .declare f ∧ (a.callees.get? f.name).isSome = true)

/-- Whether a function has been opened and not closed. -/
def Inside (a : Assembler) : Prop := a.stage ∈ [.inFunction, .inBlock]

variable {a a' : Assembler}

theorem Frozen.of_error {c : Call} {e : Error} (h : c.perform a = .error e a) :
    left c.perform a = a ∧
      (c.succeeds a = true → ∃ f, c = .declare f ∧ (a.callees.get? f.name).isSome = true) := by
  simp [left, Call.succeeds, h]

/-- A stage check looks at the stage and changes nothing. -/
theorem expectStage_run (action : Action) (allowed : List Stage) (a : Assembler) :
    Assemble.expectStage action allowed a =
      if a.stage ∈ allowed then .ok () a else .error (.invalidState action a.stage) a := by
  refine (bind_of_ok (get_ok.2 ⟨rfl, rfl⟩)).trans ?_
  by_cases h : a.stage ∈ allowed
  · simp only [h]
    rfl
  · simp only [h, not_false_eq_true, if_true, if_false]
    rfl

theorem expectStage_ends (action : Action) (allowed : List Stage) (a : Assembler) :
    Ends (Assemble.expectStage action allowed) a (fun _ a' => a' = a ∧ a.stage ∈ allowed)
      fun a' => a' = a := by
  unfold Ends
  rw [expectStage_run]
  by_cases h : a.stage ∈ allowed
  · rw [if_pos h]
    exact ⟨rfl, h⟩
  · rw [if_neg h]

/-- Inside a function no call is allowed. -/
theorem Inside.frozen (h : a.Inside) : a.Frozen := by
  have hrefuses : ∀ {action : Action} {allowed : List Stage} {α : Type} (f : Unit → Assemble α),
      .inFunction ∉ allowed → .inBlock ∉ allowed →
      (Assemble.expectStage action allowed >>= f) a = .error (.invalidState action a.stage) a := by
    intro action allowed α f hfunction hblock
    have hmem : a.stage ∉ allowed := by
      rcases mem_cons.1 h with h | h
      · rwa [h]
      · rwa [mem_singleton.1 h]
    apply bind_of_error
    rw [expectStage_run, if_neg hmem]
  intro c
  cases c with
  | header => exact Frozen.of_error (hrefuses _ (by decide) (by decide))
  | finish => exact Frozen.of_error (bind_of_error (hrefuses _ (by decide) (by decide)))
  | declare f =>
    cases hknown : a.callees.get? f.name with
    | some signature =>
      have hrun : Assemble.declare f a = .ok signature a := by
        refine (bind_of_ok (get_ok.2 ⟨rfl, rfl⟩)).trans ?_
        rw [hknown]
        rfl
      have hperform : (Call.declare f).perform a = .ok () a := bind_of_ok hrun
      simp [left, hperform, hknown]
    | none =>
      refine Frozen.of_error (bind_of_error (e := .invalidState .declare a.stage) ?_)
      refine (bind_of_ok (get_ok.2 ⟨rfl, rfl⟩)).trans ?_
      rw [hknown]
      exact hrefuses _ (by decide) (by decide)
  | assemble f =>
    cases hname : checkName f.name with
    | error e =>
      refine Frozen.of_error (bind_of_error (e := e) ?_)
      rw [hname]
      rfl
    | ok u =>
      have hchecked : (ofExcept (checkName f.name) : Assemble Unit) a = .ok u a := by
        rw [hname]
        rfl
      have hstage : a.stage ≠ .empty := by
        intro hempty
        rw [Inside, hempty] at h
        exact absurd h (by decide)
      refine Frozen.of_error (e := .invalidState .openFunction a.stage) ?_
      refine (bind_of_ok hchecked).trans ?_
      show (if a.stage = .empty then _ else _ : Assemble Unit) a = _
      rw [if_neg hstage]
      exact hrefuses _ (by decide) (by decide)

/-- A history leaves a frozen assembler as it was. -/
theorem Frozen.replay (h : a.Frozen) (calls : List Call) : a.replay calls = a := by
  induction calls with
  | nil => rfl
  | cons c calls ih =>
    show (left c.perform a).replay calls = a
    rw [(h c).1]
    exact ih

end Assembler

open Assembler

namespace Assemble

/-! ## Failures -/

variable {α β : Type} {a a' : Assembler} {f : Lir.Function} {e : Error} {signature : Signature}

theorem Framed.inside (h : Framed a a') (ha : a.Inside) : a'.Inside := by
  obtain ⟨_, _, rfl⟩ := h
  exact ha

theorem inFunction_ends {α : Type} (scope : Scope) (steps : Emit α) (ha : a.Inside) :
    Ends (inFunction scope steps) a (fun _ => Inside) Inside := by
  unfold Ends inFunction
  cases steps scope ⟨a.session, a.symbols⟩ <;> exact ha

theorem enter_ok {stage : Stage} {u : Unit} (h : enter stage a = .ok u a') : a'.stage = stage := by
  cases modify_ok.1 h
  rfl

def openStages : List Stage := [.headerEmitted, .functionClosed]

/-- A workgroup array of a function could not be declared, and the next function may be opened. -/
def ArrayFails (f : Lir.Function) (e : Error) (a' : Assembler) : Prop :=
  a'.stage ∈ openStages ∧
    ∃ array ∈ f.arrays, array.region = .perGroup ∧ ∃ a, groupArray array a = .error e a'

theorem prepare_error (ha : a.stage ∈ openStages)
    (h : prepare f signature a = .error e a') : ArrayFails f e a' ∨ a'.Inside := by
  rcases bind_error.1 h with h | ⟨_, a₁, hreset, h⟩
  · cases h
  cases modify_ok.1 hreset
  rcases bind_error.1 h with h | ⟨_, a₂, _, h⟩
  · -- the arrays: the stage is still the one before the function
    obtain ⟨array, harray, hfails⟩ := forM_error h
    obtain ⟨_, _, rfl⟩ := (Frames.forM _ groupArray_frames _).error h
    have hmem := mem_filter.1 harray
    exact .inl ⟨ha, array, hmem.1, by simpa using hmem.2, hfails⟩
  right
  rcases bind_error.1 h with h | ⟨_, a₃, henter, h⟩
  · cases h
  have ha₃ : a₃.Inside := by simp [Inside, enter_ok henter]
  rcases bind_error.1 h with h | ⟨params, a₄, hopen, h⟩
  · exact ((openFunction_frames f signature _).error h).inside ha₃
  have ha₄ := ((openFunction_frames f signature _).ok hopen).inside ha₃
  rcases bind_error.1 h with h | ⟨first, a₅, hfirst, h⟩
  · exact ((Frames.build _ _).error h).inside ha₄
  have ha₅ := ((Frames.build _ _).ok hfirst).inside ha₄
  rcases bind_error.1 h with h | ⟨_, a₆, _, h⟩
  · exact ((Frames.build _ _).error h).inside ha₅
  rcases bind_error.1 h with h | ⟨_, a₇, henter, h⟩
  · cases h
  have ha₇ : a₇.Inside := by simp [Inside, enter_ok henter]
  exact (((returnBlock_frames f).bind fun _ => .pure _) _ |>.error h).inside ha₇

/-- A prepared function is open. -/
theorem prepare_inside {r : List Id × Option Id}
    (h : prepare f signature a = .ok r a') : a'.Inside := by
  obtain ⟨_, _, rfl⟩ := prepare_frame h
  simp [Inside]

theorem define_error {entry : Lir.BlockId} (ha : a.stage ∈ openStages)
    (h : define f entry signature a = .error e a') : ArrayFails f e a' ∨ a'.Inside := by
  rcases bind_error.1 h with h | ⟨⟨params, target⟩, a₁, hprepare, h⟩
  · exact prepare_error ha h
  right
  have ha₁ := prepare_inside hprepare
  rcases bind_error.1 h with h | ⟨b, a₂, hget, h⟩
  · cases h
  obtain ⟨rfl, rfl⟩ := get_ok.1 hget
  rcases bind_error.1 h with h | ⟨_, a₂, hbody, h⟩
  · exact (inFunction_ends _ _ ha₁).error h
  have ha₂ := (inFunction_ends _ _ ha₁).ok hbody
  rcases bind_error.1 h with h | ⟨_, a₃, _, h⟩
  · exact ((Frames.build _ _).error h).inside ha₂
  · cases h

/-- A signature that cannot be declared changes nothing. -/
theorem declare_ends (f : Lir.Function) (a : Assembler) :
    Ends (declare f) a (fun _ a' => a'.stage = a.stage) fun a' => a' = a := by
  refine .get ?_
  cases a.callees.get? f.name with
  | some => exact .pure rfl
  | none =>
    refine (expectStage_ends _ _ a).bind fun _ a₁ _ h => ?_
    rw [h.1]
    exact rfl

/-- After the header a function is refused, or it fails half way. -/
theorem headed_error (ha : a.stage ≠ .empty) (h : function f a = .error e a') :
    a' = a ∨ ArrayFails f e a' ∨ a'.Inside := by
  rcases bind_error.1 h with h | ⟨_, a₁, hname, h⟩
  · cases hcheck : checkName f.name <;> rw [hcheck] at h <;> cases h
    exact .inl rfl
  obtain ⟨-, rfl⟩ := ofExcept_ok.1 hname
  rcases bind_error.1 h with h | ⟨_, a₂, hget, h⟩
  · cases h
  obtain ⟨rfl, rfl⟩ := get_ok.1 hget
  rw [if_neg ha] at h
  rcases bind_error.1 h with h | ⟨_, a₃, hstage, h⟩
  · exact .inl ((expectStage_ends _ _ _).error h)
  obtain ⟨hsame, hopen⟩ := (expectStage_ends _ _ _).ok hstage
  rw [hsame] at h
  cases hentry : f.entry? with
  | none =>
    rw [hentry] at h
    cases h
    exact .inl rfl
  | some =>
    rw [hentry] at h
    dsimp only at h
    split at h
    · cases h
      exact .inl rfl
    rcases bind_error.1 h with h | ⟨signature, a₄, hdeclare, h⟩
    · exact .inl ((declare_ends f _).error h)
    · have hstage₄ := (declare_ends f _).ok hdeclare
      exact .inr (define_error (hstage₄ ▸ hopen) h)

/-- The first function writes the header, and then is assembled as any other. -/
theorem function_headed {a₁ : Assembler} {u : Unit} (ha : a.stage = .empty)
    (hname : checkName f.name = .ok ()) (h : header a = .ok u a₁) :
    function f a = function f a₁ ∧ a₁.stage ≠ .empty ∧ a₁.settings = a.settings := by
  obtain ⟨_, -, hrun⟩ := look_ok expectStage_ok h
  obtain ⟨_, _, -, hrun⟩ := build_bind_ok hrun
  obtain ⟨_, _, -, hrun⟩ := build_bind_ok hrun
  cases modify_ok.1 hrun
  refine ⟨?_, nofun, rfl⟩
  have hchecked (a : Assembler) : (ofExcept (checkName f.name) : Assemble Unit) a = .ok () a :=
    ofExcept_ok.2 ⟨hname, rfl⟩
  refine (bind_of_ok (hchecked a)).trans (.trans ?_ (bind_of_ok (hchecked _)).symm)
  refine (bind_of_ok (get_ok.2 ⟨rfl, rfl⟩)).trans ?_
  rw [if_pos ha]
  exact bind_of_ok h

/-- A function that fails is refused, or cannot declare a workgroup array, or
fails inside. -/
theorem function_error (h : function f a = .error e a') :
    (a' = a ∨ a' = left header a) ∨ ArrayFails f e a' ∨ a'.Inside := by
  by_cases ha : a.stage = .empty
  · rcases bind_error.1 h with hname | ⟨_, a₁, hname, hrest⟩
    · cases hcheck : checkName f.name <;> rw [hcheck] at hname <;> cases hname
      exact .inl (.inl rfl)
    obtain ⟨hchecked, rfl⟩ := ofExcept_ok.1 hname
    rw [left]
    cases hheader : header a with
    | error =>
      rcases bind_error.1 hrest with hrest | ⟨_, a₂, hget, hrest⟩
      · cases hrest
      obtain ⟨rfl, rfl⟩ := get_ok.1 hget
      rw [if_pos ha, bind_of_error hheader] at hrest
      cases hrest
      exact .inl (.inr rfl)
    | ok =>
      obtain ⟨hagain, hstage, -⟩ := function_headed ha hchecked hheader
      rcases headed_error hstage (hagain ▸ h) with rfl | hlater
      · exact .inl (.inr rfl)
      · exact .inr hlater
  · exact (headed_error ha h).imp_left .inl

end Assemble

/-- **failed_function_freezes**: a function that fails is refused with nothing of it left behind, or
one of its workgroup arrays could not be declared, or the assembler is frozen for good. -/
theorem failed_function_freezes {a a' : Assembler} {f : Lir.Function} {e : Error}
    (h : Assemble.function f a = .error e a') :
    (a' = a ∨ a' = left Assemble.header a) ∨ Assemble.ArrayFails f e a' ∨
      ∀ calls, a'.replay calls = a' ∧ (a'.replay calls).Frozen := by
  refine (Assemble.function_error h).imp_right fun h => h.imp_right fun hinside calls => ?_
  rw [hinside.frozen.replay]
  exact ⟨rfl, hinside.frozen⟩

/-- A kernel that copies a value that nothing defines. -/
def copiesNothing : Lir.Function :=
  ⟨"k", .kernel, [], .void, [⟨⟨0⟩, .i32⟩, ⟨⟨1⟩, .i32⟩], [],
    [⟨⟨0⟩, [.binary ⟨0⟩ .add (.var ⟨1⟩) (.var ⟨1⟩)], .ret none⟩]⟩

theorem failed_function_freezes_copiesNothing :
    (left (Assemble.function copiesNothing) (new "m" {} {})).stage = .inBlock ∧
    ∀ calls, ((left (Assemble.function copiesNothing) (new "m" {} {})).replay calls).Frozen := by
  have hstage : (left (Assemble.function copiesNothing) (new "m" {} {})).stage = .inBlock := by
    decide +kernel
  refine ⟨hstage, fun calls => ?_⟩
  cases hrun : Assemble.function copiesNothing (new "m" {} {}) with
  | ok u a' =>
    have hfails : (Call.assemble copiesNothing).succeeds (new "m" {} {}) = false := by
      decide +kernel
    rw [Call.succeeds, Call.perform, hrun] at hfails
    cases hfails
  | error e a' =>
    rw [left, hrun] at hstage ⊢
    rcases failed_function_freezes hrun with (hsame | hheader) | harray | hfrozen
    · rw [hsame] at hstage
      cases hstage
    · have hstage' : (left Assemble.header (new "m" {} {})).stage = .headerEmitted := by
        decide +kernel
      rw [hheader, hstage'] at hstage
      cases hstage
    · obtain ⟨_, array, harray, _⟩ := harray
      cases harray
    · exact (hfrozen calls).2

def sharesDoubles : Lir.Function :=
  ⟨"f", .device, [], .void, [], [⟨⟨0⟩, .perGroup, .f64, 4⟩], [⟨⟨0⟩, [], .ret none⟩]⟩

def callsSharer : Lir.Function :=
  ⟨"g", .kernel, [], .void, [], [], [⟨⟨0⟩, [.call none "f" []], .ret none⟩]⟩

/-- Without double precision the function fails after its signature is known. The kernel that calls
it and the module are assembled all the same. -/
theorem failed_array_leaves_usable : let a := new "m" ⟨false, true⟩ {}
    let failed := a.replay [.assemble sharesDoubles]
    (Call.assemble sharesDoubles).succeeds a = false ∧
    (a.callees.get? "f").isSome = false ∧ (failed.callees.get? "f").isSome = true ∧
    (Call.assemble callsSharer).succeeds failed = true ∧
    Call.finish.succeeds (failed.replay [.assemble callsSharer]) = true := by
  decide +kernel

end KernelForge.Codegen
