import KernelForge.Proofs.Execution.Places
import KernelForge.Proofs.Execution.Straight
import KernelForge.Proofs.Integers

/-!
# Where a switch leads

The number of a case is cut twice: to one word or two when the switch is emitted, and to the width
of the selector when it runs. The two cuts compose, so a case matches exactly the selectors that are
congruent to it modulo the width.
-/

namespace KernelForge.Codegen

open List Emit Select
open Lir (Kind BlockId)
open Spirv
open Device (Env Locals Store)

variable {k : Kind} {w : Nat}

theorem word64_toInt (case : Int64) : Binary.word64 case.toInt = case.toUInt64.toNat := by
  have hword : (BitVec.ofInt 64 case.toInt).toNat = case.toUInt64.toNat :=
    congrArg BitVec.toNat (BitVec.ofInt_toInt (x := case.toBitVec))
  rw [← hword]
  rfl

/-- The word of a case, cut to the width of the selector. -/
theorem mask_caseWord (hk : scalarTy k = some (.int w)) (case : Int64) :
    Binary.mask (caseWord (k.size == 8) case) w = (BitVec.ofInt w case.toInt).toNat := by
  have hwhole : w ≤ 64 → Binary.mask case.toUInt64.toNat w = (BitVec.ofInt w case.toInt).toNat := by
    intro hw
    rw [← word64_toInt]
    exact (Device.Value.int.inj (Device.ofBits_word64 hw case.toInt)).1
  have hcut : w ≤ 32 → Binary.mask (case.toUInt64.toNat % Nat.pow 2 32) w =
      Binary.mask case.toUInt64.toNat w := by
    intro hw
    rw [Binary.mask, Binary.mask, if_neg (by omega), if_neg (by omega)]
    exact Nat.mod_mod_of_dvd _ (Nat.pow_dvd_pow 2 hw)
  cases k <;> cases hk
  case i64 | ptr => exact hwhole (by decide)
  all_goals exact (hcut (by decide)).trans (hwhole (by decide))

theorem mask_caseWord_eq_iff (hk : scalarTy k = some (.int w)) (case : Int64) (x : BitVec w) :
    Binary.mask (caseWord (k.size == 8) case) w = x.toNat ↔
      ((Nat.pow 2 w : Nat) : Int) ∣ case.toInt - x.toNat := by
  have hx : (x.toNat : Int) % (Nat.pow 2 w : Nat) = x.toNat :=
    Int.emod_eq_of_lt (Int.natCast_nonneg _) (Int.ofNat_lt.2 x.isLt)
  have hpos : (0 : Int) < (Nat.pow 2 w : Nat) := Int.natCast_pos.2 (Nat.two_pow_pos w)
  have hnonneg := Int.emod_nonneg case.toInt (Int.ne_of_gt hpos)
  rw [mask_caseWord hk, Int.dvd_iff_emod_eq_zero, ← Int.emod_eq_emod_iff_emod_sub_eq_zero]
  show (case.toInt % (Nat.pow 2 w : Nat)).toNat = x.toNat ↔ _
  omega

/-- A selector is read at its own kind. -/
theorem selector_kind {view : View} {o : Lir.Operand} {k' : Kind} {r r' : Recipe} {t : Temp}
    (hk : operandKind o view = pure k) (h : selector o view r = .ok (t, k') r') :
    k' = k := by
  replace h : (operandKind o view >>= fun _ => _) r = _ := h
  rw [hk, pure_bind] at h
  split at h
  · exact absurd h throw_ok
  · obtain ⟨_, _, _, h⟩ := bind_ok.1 h
    cases (pure_ok.1 h).1
    rfl

/-- **switch_dispatches**: a switch that was emitted leads, whatever word of its kind the selector
is, to the block of the first case that is congruent to the word, or else to the default. -/
theorem switch_dispatches {scope : Scope} {b b' : Body} {u : Unit} {o : Lir.Operand}
    {cases : List (Int64 × BlockId)} {default : BlockId}
    (hk : Select.operandKind o (Emit.view scope b.symbols) = pure k)
    (hw : scalarTy k = some (.int w))
    (h : Emit.terminator (.switch o cases default) scope b = .ok u b') :
    ∃ t ids value b₁ b₂ i, Emit.recipe [] (Select.selector o) scope b = .ok ((t, k), ids) b₁ ∧
      ids[t]? = some value ∧ b₁.Emits [] b₂ ∧ b₂.Closes i b' ∧
      i.opcode = .switch ∧ i.operands[0]? = some (.ref value) ∧
      ∀ (env : Env) (locals : Locals) (store : Store) (x : BitVec w),
        env.value locals value = .ok (.int x.toNat w) →
        ∃ label, env.execute locals store i = .ok (.jump label) ∧ b'.symbols.labels.get?
          (firstCase (fun c => ((Nat.pow 2 w : Nat) : Int) ∣ c.toInt - x.toNat) cases default) =
            some label := by
  simp only [Emit.terminator, Emit.bind_apply] at h
  obtain ⟨⟨⟨t, k'⟩, ids⟩, b₁, hselector, h⟩ := bind_ok.1 h
  obtain ⟨_, hselected, -⟩ := Emit.recipe_lines hselector
  cases selector_kind hk hselected
  obtain ⟨value, hid, h⟩ := look_ok Emit.temp_ok h
  obtain ⟨dl, b₂, hdefault, h⟩ := bind_ok.1 h
  obtain ⟨targets, b₃, hcases, h⟩ := bind_ok.1 h
  obtain ⟨hemits, hl, -⟩ := Emit.label_ok hdefault
  obtain ⟨hemits', htargets, -⟩ := Emit.switchCases_ok hcases
  have hcloses := Emit.terminate_ok rfl h
  refine ⟨t, ids, value, b₁, b₃, _, hselector, hid, hemits.trans hemits', hcloses, rfl, rfl, ?_⟩
  intro env locals store x hx
  have hfirst := findCase_first htargets (hemits'.symbols.labels _ _ hl) x.toNat w
  simp only [mask_caseWord_eq_iff hw] at hfirst
  have htarget : env.switchTarget locals
      ⟨.switch, none, none, .ref value :: .ref dl :: targets.flatten⟩ =
        .ok (Env.findCase x.toNat w targets.flatten dl) := by
    unfold Env.switchTarget
    rw [Env.arg_ref rfl, hx]
    rfl
  refine ⟨Env.findCase x.toNat w targets.flatten dl, ?_, ?_⟩
  · show (env.switchTarget locals _ >>= fun label => pure (Device.Flow.jump label)) = _
    rw [htarget]
    rfl
  · rw [hcloses.symbols]
    exact hfirst

/-- A body with an open block. -/
def openBody : Body := ⟨{ draft := { function := some default, block := some default } }, {}⟩

/-- The first case of this switch on a byte is a negative number out of the range of bytes. -/
theorem switch_dispatches_byte :
    ∃ b' i value, terminator (.switch (.const ⟨"200", .i8⟩) [(-312, ⟨1⟩), (200, ⟨2⟩)] ⟨3⟩)
        ⟨{}, default, ∅, ∅, none⟩ openBody = .ok () b' ∧
      i.operands[0]? = some (.ref value) ∧
      ∀ (env : Env) (locals : Locals) (store : Store), env.value locals value = .ok (.int 200 8) →
        ∃ label, env.execute locals store i = .ok (.jump label) ∧
          b'.symbols.labels.get? ⟨1⟩ = some label := by
  have hok : (terminator (.switch (.const ⟨"200", .i8⟩) [(-312, ⟨1⟩), (200, ⟨2⟩)] ⟨3⟩)
      ⟨{}, default, ∅, ∅, none⟩ openBody matches .ok _ _) = true := by decide +kernel
  cases hrun : terminator (.switch (.const ⟨"200", .i8⟩) [(-312, ⟨1⟩), (200, ⟨2⟩)] ⟨3⟩)
      ⟨{}, default, ∅, ∅, none⟩ openBody with
  | error e b' =>
    rw [hrun] at hok
    cases hok
  | ok u b' =>
    obtain ⟨t, ids, value, b₁, b₂, i, -, -, -, -, -, hvalue, hleads⟩ :=
      switch_dispatches (k := .i8) (w := 8) rfl rfl hrun
    exact ⟨b', i, value, rfl, hvalue, fun env locals store hx => hleads env locals store 200 hx⟩

end KernelForge.Codegen
