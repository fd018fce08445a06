import KernelForge.Proofs.Declarations.Changes

/-!
# Requests for types and constants

Every request to a session is a chain of answers, whether it succeeds or fails, and a session
remembers the answer to a request that succeeded (`Build.Asks`). Each request is followed step by
step here and nowhere else: what an answer keeps is kept by all of them.
-/

namespace KernelForge.Codegen

open List hiding modify
open Lir (Kind)
open Spirv
open Capability (float16 float64)
open Table (get?_insert_self)

namespace Build

open Session

variable {α β : Type} {s s' : Session}

/-! ## Steps that declare nothing -/

/-- A step that declares nothing, on both outcomes. -/
def Beside (x : Build α) : Prop := ∀ s, Ends x s (fun _ => s.Aside) s.Aside

theorem aside_refl (s : Session) : s.Aside s :=
  ⟨rfl, Nat.le_refl _, rfl, rfl, rfl, rfl, rfl, rfl, rfl, rfl, rfl, rfl, rfl⟩

theorem fresh_beside : Beside fresh := fun _ =>
  ⟨rfl, Nat.le_succ _, rfl, rfl, rfl, rfl, rfl, rfl, rfl, rfl, rfl, rfl, rfl⟩

theorem onDraft_beside {g : Draft → Except StructureFault Draft}
    (h : ∀ d d', g d = .ok d' → d'.module.globals = d.module.globals ∧ d'.next = d.next ∧
      d'.module.capabilities = d.module.capabilities ∧
      d'.module.executionModes = d.module.executionModes) : Beside (onDraft g) := by
  intro s
  refine .get ?_
  cases hd : g s.draft with
  | error => exact .throw (aside_refl s)
  | ok =>
    obtain ⟨hglobals, hnext, hplaced, hmodes⟩ := h _ _ hd
    exact .note ⟨hglobals, Nat.le_of_eq hnext.symm, hplaced, hmodes, rfl, rfl, rfl, rfl, rfl,
      rfl, rfl, rfl, rfl⟩

/-- Opcodes whose place is neither among the declarations nor at the head of a module. -/
def isInner : Opcode → Bool
  | .name | .decorate | .entryPoint | .functionParameter | .function | .functionEnd | .label => true
  | op => op.isTerminator

theorem isInner_of_isTerminator {op : Opcode} (h : op.isTerminator = true) : isInner op = true := by
  cases op <;> first | rfl | exact h

theorem place_beside {i : Instruction} (hi : isInner i.opcode = true) : Beside (place i) := by
  refine onDraft_beside fun d d' hd => ?_
  obtain ⟨op, type, id, operands⟩ := i
  cases op <;> cases hi <;> simp only [Draft.place] at hd
  case name | decorate | entryPoint =>
    cases hd
    exact ⟨rfl, rfl, rfl, rfl⟩
  -- the others change the open function or the open block, or close the function
  all_goals
    simp only [Draft.openFunction, Draft.closeFunction, Draft.addParam, Draft.openBlock,
      Draft.terminate, Opcode.isDeclaration, Opcode.isTerminator, Bool.false_eq_true, if_false,
      if_true] at hd
    split at hd <;> cases hd
    exact ⟨rfl, rfl, rfl, rfl⟩

theorem append_beside (i : Instruction) : Beside (append i) := by
  refine onDraft_beside fun d d' hd => ?_
  simp only [Draft.append] at hd
  split at hd <;> cases hd
  exact ⟨rfl, rfl, rfl, rfl⟩

/-! ## Requests as parts of requests -/

/-- On both outcomes a request is a chain of answers, and a success is as `found` says of
the sessions before and after it. -/
def Asks (x : Build α) (known : Opcode → Id → Prop) (found : Session → α → Session → Prop) : Prop :=
  ∀ s, Ends x s (fun a s' => s.Answers known s' ∧ found s a s') (s.Answers known)

variable {known : Opcode → Id → Prop}

/-- A request as part of another one that began at `s₀`. -/
theorem Asks.bind {x : Build α} {f : α → Build β} {found : Session → α → Session → Prop}
    {Q : β → Session → Prop} {s₀ : Session} (hx : Asks x known found) (hbefore : s₀.Answers known s)
    (hf : ∀ a s', s₀.Answers known s' → s.Remembers s' → found s a s' →
      Ends (f a) s' Q (s₀.Answers known)) : Ends (x >>= f) s Q (s₀.Answers known) := by
  refine ((hx s).imp (fun _ _ h => h) fun _ h => hbefore.trans h).bind ?_
  rintro a s' - ⟨h, hfound⟩
  exact hf a s' (hbefore.trans h) h.remembers hfound

section Adoption

variable {op : Opcode} {operands : List Operand} {c : Capability}

theorem enable_none (s : Session) : s.enable none = s := by
  simp [enable, missing, Draft.onModule]

theorem adopt_plain (s : Session) (h64 : demand op operands ≠ some float64)
    (h16 : demand op operands ≠ some float16) :
    s.adopt op operands = { s.enable (demand op operands) with
      draft := ((s.enable (demand op operands)).draft.declareType op operands).2 } := by
  rw [← beq_eq_false_iff_ne] at h64 h16
  unfold adopt
  rw [h64, h16, Bool.or_false, Bool.or_false]
  rfl

theorem adopt_declared (s : Session) :
    (s.adopt op operands).Declared op operands (s.draft.declareType op operands).1 := by
  unfold Draft.declareType
  cases h : s.draft.declared? op operands with
  | some =>
    rw [adopt_of_some s op operands h]
    exact declared_of_declared? (s := s) h
  | none =>
    refine ⟨⟨op, none, some s.draft.next, operands⟩, ?_, rfl, rfl, rfl⟩
    rw [(adopt_of_none s op operands h).1]
    exact mem_append_right _ (mem_singleton.2 rfl)

theorem enable_declareType (s : Session) (c : Option Capability) :
    ((s.enable c).draft.declareType op operands).1 = (s.draft.declareType op operands).1 := by
  have hsame : (s.enable c).draft.declared? op operands = s.draft.declared? op operands := rfl
  unfold Draft.declareType
  rw [hsame]
  cases s.draft.declared? op operands <;> rfl

theorem adopt_float64 (s : Session) : s.adopt .typeFloat [.literal 64] =
    { s.enable (some float64) with
      draft := ((s.enable (some .float64)).draft.declareType .typeFloat [.literal 64]).2
      usesFp64 := true } := by
  show ({ s.enable (some .float64) with
    draft := _, usesFp64 := s.usesFp64 || true, usesFp16 := s.usesFp16 || false } : Session) = _
  rw [Bool.or_true, Bool.or_false]
  rfl

theorem adopt_float16 (s : Session) : s.adopt .typeFloat [.literal 16] =
    { s.enable (some float16) with
      draft := ((s.enable (some .float16)).draft.declareType .typeFloat [.literal 16]).2
      usesFp16 := true } := by
  show ({ s.enable (some .float16) with
    draft := _, usesFp64 := s.usesFp64 || false, usesFp16 := s.usesFp16 || true } : Session) = _
  rw [Bool.or_true, Bool.or_false]
  rfl

/-- Types that call for no capability. -/
theorem declareType_adopts (s : Session) (h : demand op operands = none) :
    declareType op operands s = .ok (s.draft.declareType op operands).1 (s.adopt op operands) := by
  rw [adopt_plain s (by simp [h]) (by simp [h]), h, enable_none]
  rfl

/-- Types that call for a capability other than a precision. -/
theorem require_declareType_adopts (s : Session) (h : demand op operands = some c)
    (h64 : c ≠ float64) (h16 : c ≠ float16) :
    (require c >>= fun _ => declareType op operands) s
      = .ok (s.draft.declareType op operands).1 (s.adopt op operands) := by
  refine bind_ok.2 ⟨(), s.enable (some c), require_run s c, ?_⟩
  rw [adopt_plain s (by simp [h, h64]) (by simp [h, h16]), h, ← enable_declareType s (some c)]
  rfl

variable {Q : Id → Session → Prop} {E : Session → Prop} {g : Id → Session → Session}

/-- A type that is adopted is remembered. -/
theorem Ends.adopts {x : Build Id}
    (hx : x s = .ok (s.draft.declareType op operands).1 (s.adopt op operands))
    (hQ : Q (s.draft.declareType op operands).1
      (g (s.draft.declareType op operands).1 (s.adopt op operands))) :
    Ends (x >>= fun id => modify (g id) >>= fun _ => pure id) s Q E :=
  (Ends.of_ok (Q := fun id s' => id = (s.draft.declareType op operands).1 ∧
    s' = s.adopt op operands) hx ⟨rfl, rfl⟩).bind fun _ _ _ ⟨hid, hs'⟩ => by
    rw [hid, hs']
    exact .remember hQ

end Adoption

variable {k : Kind}

/-- The target has the precision of a kind that is not a vector. -/
theorem checkPrecision_ends (k : Kind) (s : Session) :
    Ends (checkPrecision k) s (fun _ s' => s' = s ∧
      ¬((k = .f64 ∧ s.target.fp64 = false) ∨ (k = .f16 ∧ s.target.fp16 = false))) (· = s) := by
  refine .get ?_
  dsimp only
  split
  · exact .throw rfl
  · next h => exact .pure ⟨rfl, h⟩

variable {form : Opcode × List Operand} {pointee : Id}

/-- The type of a kind that is not a vector is adopted where its precision is supported. -/
theorem declareScalar_ends (hform : scalarForm k = some form) (s : Session) :
    Ends (declareScalar k) s
      (fun id s' => Supports s.target (demand form.1 form.2) ∧ s' = s.adopt form.1 form.2 ∧
        id = (s.draft.declareType form.1 form.2).1) (· = s) := by
  cases k with
  | void | bool | i32 | f32 =>
    cases hform
    exact .of_ok (declareType_adopts s rfl) ⟨⟨nofun, nofun⟩, rfl, rfl⟩
  | i8 | i16 | i64 | ptr =>
    cases hform
    exact .of_ok (require_declareType_adopts s rfl (by decide) (by decide))
      ⟨⟨fun h => absurd h (by decide), fun h => absurd h (by decide)⟩, rfl, rfl⟩
  | f16 =>
    cases hform
    refine (checkPrecision_ends .f16 s).bind fun _ s₁ _ ⟨hs₁, hk⟩ => ?_
    subst hs₁
    exact .of_ok (bind_ok.2 ⟨(), _, require_run s₁ _, rfl⟩)
      ⟨⟨fun h => absurd h (by decide), fun _ => by simpa using hk⟩, (adopt_float16 s₁).symm,
        enable_declareType s₁ _⟩
  | f64 =>
    cases hform
    refine (checkPrecision_ends .f64 s).bind fun _ s₁ _ ⟨hs₁, hk⟩ => ?_
    subst hs₁
    exact .of_ok (bind_ok.2 ⟨(), _, require_run s₁ _, rfl⟩)
      ⟨⟨fun _ => by simpa using hk, fun h => absurd h (by decide)⟩, (adopt_float64 s₁).symm,
        enable_declareType s₁ _⟩
  | vector => cases hform

theorem scalarForm_isSome (hk : k.isVector = false) : ∃ form, scalarForm k = some form := by
  cases k with
  | vector => cases hk
  | _ => exact ⟨_, rfl⟩

/-! ## Types -/

/-- A request for a type leaves arrays and constants alone. -/
structure OnTypes (s s' : Session) : Prop where
  arrays : s'.arrays = s.arrays
  constants : s'.constants = s.constants

theorem scalarType_asks (hk : k.isVector = false) : Asks (scalarType k) known fun s id s' =>
    OnTypes s s' ∧ s'.types.get? k = some id ∧ ∀ k' ≠ k, s'.types.get? k' = s.types.get? k' := by
  intro s
  refine .get ?_
  cases hfound : s.types.get? k with
  | some => exact .pure ⟨.refl, ⟨rfl, rfl⟩, hfound, fun _ _ => rfl⟩
  | none =>
    obtain ⟨form, hform⟩ := scalarForm_isSome hk
    refine ((declareScalar_ends hform s).imp (fun _ _ h => h) ?_).bind ?_
    · rintro _ rfl
      exact .refl
    · rintro id _ - ⟨hsupports, rfl, rfl⟩
      have hadopt : Answer known s (s.adopt form.1 form.2) := .adopt (.scalar hform hsupports)
      have hdeclared : (s.adopt form.1 form.2).TypeDeclared
          (s.draft.declareType form.1 form.2).1 k := by
        cases k with
        | vector => cases hk
        | _ => exact ⟨form, hform, adopt_declared s⟩
      refine .remember ⟨(Answers.add .refl hadopt).add (.rememberType hfound hdeclared),
        ⟨rfl, rfl⟩, get?_insert_self _ _ _, fun k' hne => ?_⟩
      exact (Table.get?_insert ..).trans (if_neg hne.symm)

theorem element_isVector (e : Lir.Element) : e.kind.isVector = false := by
  cases e <;> rfl

/-- A session remembers the type of a kind it was asked for. -/
theorem typeOf_asks (k : Kind) : Asks (typeOf k) known fun s id s' =>
    OnTypes s s' ∧ s'.types.get? k = some id := by
  cases k with
  | vector e n =>
    intro s
    refine Ends.get ?_
    cases hfound : s.types.get? (.vector e n) with
    | some => exact Ends.pure ⟨.refl, ⟨rfl, rfl⟩, hfound⟩
    | none =>
      by_cases hn : n ∈ Kind.lanesAllowed
      · simp only [hn]
        refine (scalarType_asks (element_isVector e)).bind .refl
          fun element s₁ hanswers _ htold => ?_
        obtain ⟨hon, hget, hothers⟩ := htold
        have hnew : s₁.types.get? (.vector e n) = none := by
          rw [hothers _ (fun heq => by cases e <;> cases heq), hfound]
        have hadopt : Answer known s₁ (s₁.adopt .typeVector [.ref element, .literal n.toNat]) :=
          .adopt (.vector hn hget)
        have hremember := (hanswers.add hadopt).add
          (.rememberType hnew ⟨element, hget, hn, adopt_declared s₁⟩)
        split
        · next hlanes =>
          have hdemand := (demand_vector hn element).trans (if_pos hlanes)
          rw [← bind_assoc]
          exact Ends.adopts (require_declareType_adopts s₁ hdemand (by decide) (by decide))
            ⟨hremember, ⟨hon.arrays, hon.constants⟩, get?_insert_self _ _ _⟩
        · next hlanes =>
          exact Ends.adopts (declareType_adopts s₁ ((demand_vector hn _).trans (if_neg hlanes)))
            ⟨hremember, ⟨hon.arrays, hon.constants⟩, get?_insert_self _ _ _⟩
      · simp only [hn]
        exact .refl
  | _ => exact fun s =>
      (scalarType_asks rfl s).imp (fun _ _ h => ⟨h.1, h.2.1, h.2.2.1⟩) fun _ h => h

/-- The type of pointers to a type is always there. -/
theorem pointerToType_ends (storage : StorageClass)
    (hpointee : (∃ k, s.types.get? k = some pointee) ∨ known .typePointer pointee) :
    Ends (pointerToType pointee storage) s
      (fun id s' => s.Answers known s' ∧ s'.pointers.get? (pointee, storage) = some id)
      (fun _ => False) := by
  refine Ends.get ?_
  cases hfound : s.pointers.get? (pointee, storage) with
  | some => exact Ends.pure ⟨.refl, hfound⟩
  | none =>
    have hdemand : demand .typePointer [.enumerant .storageClass storage, .ref pointee]
        = if storage = StorageClass.generic then some Capability.genericPointer else none := rfl
    have hadopt : Answer known s
        (s.adopt .typePointer [.enumerant .storageClass storage, .ref pointee]) :=
      .adopt (.pointer hpointee)
    have hremember := (Answers.add .refl hadopt).add (.rememberPointer hfound (adopt_declared s))
    dsimp only
    split
    · next hgeneric =>
      rw [← bind_assoc]
      exact Ends.adopts (require_declareType_adopts s (hdemand.trans (if_pos hgeneric)) (by decide)
        (by decide)) ⟨hremember, get?_insert_self _ _ _⟩
    · next hgeneric =>
      exact Ends.adopts (declareType_adopts s (hdemand.trans (if_neg hgeneric)))
        ⟨hremember, get?_insert_self _ _ _⟩

theorem pointerToType_asks (storage : StorageClass) (h : known .typePointer pointee) :
    Asks (pointerToType pointee storage) known fun _ id s' =>
      s'.pointers.get? (pointee, storage) = some id :=
  fun _ => (pointerToType_ends storage (.inr h)).imp (fun _ _ h => h) fun _ h => h.elim

/-- A session remembers the type of pointers it was asked for. -/
theorem pointerTo_asks (k : Kind) (storage : StorageClass) :
    Asks (pointerTo k storage) known fun _ id s' =>
      ∃ type, s'.types.get? k = some type ∧ s'.pointers.get? (type, storage) = some id := by
  intro s
  refine (typeOf_asks k).bind .refl fun type s₁ hanswers _ ⟨_, htype⟩ => ?_
  have hpointee : (∃ k, s₁.types.get? k = some type) ∨ known .typePointer type := .inl ⟨k, htype⟩
  refine (pointerToType_ends storage hpointee).imp ?_ fun _ h => h.elim
  rintro id s' ⟨h, hget⟩
  exact ⟨hanswers.trans h, type, h.remembers.types _ _ htype, hget⟩

/-- A session remembers the type of functions it was asked for. -/
theorem functionType_asks {ret : Id} {params : List Id}
    (hknown : ∀ id ∈ ret :: params, known .typeFunction id) :
    Asks (functionType ret params) known fun _ id s' =>
      s'.functionTypes.get? (ret, params) = some id := by
  intro s
  refine Ends.get ?_
  cases hfound : s.functionTypes.get? (ret, params) with
  | some => exact Ends.pure ⟨.refl, hfound⟩
  | none =>
    have hadopt : Answer known s (s.adopt .typeFunction (.ref ret :: params.map .ref)) :=
      .adopt (.function hknown)
    exact Ends.adopts (declareType_adopts s rfl) ⟨(Answers.add .refl hadopt).add
      (.rememberFunction hfound (adopt_declared s)), get?_insert_self _ _ _⟩

/-! ## Constants -/

/-- A request for a constant leaves arrays and the constants of other kinds alone. -/
structure OnConstants (k : Kind) (s s' : Session) : Prop where
  arrays : s'.arrays = s.arrays
  others : ∀ text k', k' ≠ k → s'.constants.get? (text, k') = s.constants.get? (text, k')

theorem scalarConstant_asks (text : String) (hk : k.isVector = false) :
    Asks (scalarConstant text k) known fun s id s' =>
      OnConstants k s s' ∧ s'.constants.get? (text, k) = some id := by
  intro s
  refine .get ?_
  cases hfound : s.constants.get? (text, k) with
  | some => exact .pure ⟨.refl, ⟨rfl, fun _ _ _ => rfl⟩, hfound⟩
  | none =>
    refine (typeOf_asks k).bind .refl fun type s₁ hanswers _ ⟨hon, htype⟩ => ?_
    have hnew : s₁.constants.get? (text, k) = none := by rw [hon.constants, hfound]
    unfold declareConstant
    rw [bind_assoc]
    refine (Ends.ofExcept (Q := fun form s' => s' = s₁ ∧ constantForm text k = .ok form)
      (fun form hform => ⟨rfl, hform⟩) fun _ _ => hanswers).bind ?_
    rintro ⟨op, operands⟩ _ - ⟨rfl, hform⟩
    refine ⟨hanswers.add (.constant hnew ⟨htype, ?_⟩), ⟨hon.arrays, fun text' k' hne => ?_⟩,
      get?_insert_self _ _ _⟩
    · cases k with
      | vector => cases hk
      | _ => exact hform
    · refine (Table.get?_insert ..).trans ((if_neg fun heq => ?_).trans (by rw [hon.constants]))
      exact hne (congrArg Prod.snd heq).symm

/-- The lanes of a vector constant, one after another. -/
theorem laneConstants_asks (parts : List String) (hk : k.isVector = false) :
    Asks (parts.mapM fun part => scalarConstant (Text.trim part) k) known fun s lanes s' =>
      OnConstants k s s' ∧
        parts.map (fun part => s'.constants.get? (Text.trim part, k)) = lanes.map some := by
  induction parts with
  | nil => exact fun s => .pure ⟨.refl, ⟨rfl, fun _ _ _ => rfl⟩, rfl⟩
  | cons part parts ih =>
    intro s
    rw [mapM_cons]
    refine (scalarConstant_asks (Text.trim part) hk).bind .refl
      fun lane s₁ hanswers _ ⟨hon, hget⟩ => ?_
    refine Asks.bind ih hanswers fun lanes s₂ hanswers' hremembers ⟨hon', hgets⟩ => ?_
    refine Ends.pure ⟨hanswers', ⟨hon'.arrays.trans hon.arrays, fun text' k' hne =>
      (hon'.others text' k' hne).trans (hon.others text' k' hne)⟩, ?_⟩
    rw [map_cons, map_cons, hgets, hremembers.constants _ _ hget]

/-- A session remembers the constant it was asked for. -/
theorem constant_asks (text : String) (k : Kind) : Asks (constant text k) known fun s id s' =>
    s'.arrays = s.arrays ∧ s'.constants.get? (text, k) = some id := by
  cases k with
  | vector e n =>
    intro s
    refine .get ?_
    cases hfound : s.constants.get? (text, .vector e n) with
    | some => exact .pure ⟨.refl, rfl, hfound⟩
    | none =>
      refine (typeOf_asks _).bind .refl fun type s₁ hanswers _ htold => ?_
      obtain ⟨hon, htype⟩ := htold
      by_cases hlength : (text.splitOn ",").length = n.toNat
      · simp only [hlength, ne_eq]
        refine (laneConstants_asks _ (element_isVector e)).bind hanswers
          fun lanes s₂ hanswers' hremembers hlanes => ?_
        obtain ⟨hon', hgets⟩ := hlanes
        have hnew : s₂.constants.get? (text, .vector e n) = none := by
          rw [hon'.others _ _ (fun heq => by cases e <;> cases heq), hon.constants, hfound]
        have hcount : lanes.length = n.toNat := by
          have := congrArg List.length hgets
          simpa [hlength] using this.symm
        exact ⟨hanswers'.add (.constant hnew
          ⟨hremembers.types _ _ htype, rfl, lanes, rfl, hcount, hgets⟩),
          hon'.arrays.trans hon.arrays, get?_insert_self _ _ _⟩
      · simp only [ne_eq, hlength]
        exact hanswers
  | _ =>
    exact fun s => (scalarConstant_asks text rfl s).imp (fun _ _ h => ⟨h.1, h.2.1.arrays, h.2.2⟩)
      fun _ h => h

/-- A session remembers the type of arrays it was asked for. -/
theorem arrayOf_asks (k : Kind) (length : UInt32) : Asks (arrayOf k length) known fun _ id s' =>
    s'.arrays.get? (k, length) = some id := by
  intro s
  refine Ends.get ?_
  cases hfound : s.arrays.get? (k, length) with
  | some => exact Ends.pure ⟨.refl, hfound⟩
  | none =>
    refine (typeOf_asks k).bind .refl fun type s₁ hanswers _ ⟨hon, htype⟩ => ?_
    refine (constant_asks (Text.natText length.toNat) .i32).bind hanswers
      fun count s₂ hanswers' hremembers ⟨harrays, hcount⟩ => ?_
    have htype' := hremembers.types _ _ htype
    have hnew : s₂.arrays.get? (k, length) = none := by rw [harrays, hon.arrays, hfound]
    have hadopt : Answer known s₂ (s₂.adopt .typeArray [.ref type, .ref count]) :=
      .adopt (.array htype' hcount)
    exact Ends.adopts (declareType_adopts _ rfl) ⟨(hanswers'.add hadopt).add (.rememberArray hnew
      ⟨type, count, htype', hcount, adopt_declared s₂⟩), get?_insert_self _ _ _⟩

end Build

end KernelForge.Codegen
