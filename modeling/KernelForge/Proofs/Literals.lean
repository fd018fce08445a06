import KernelForge.Codegen.Literal
import KernelForge.Proofs.Integers
import Mathlib.Data.List.Forall2
import Mathlib.Data.List.TakeWhile
import Mathlib.Data.Nat.Digits.Defs

/-!
# Texts of integers

An integer is written as an optional minus sign and a magnitude: decimal digits, or hexadecimal ones
behind `0x` or `0X`. One plus sign may stand in front of the digits. `Spells` says which integer a
text with blanks around it stands for, and a literal is read where its text stands for an integer of
at most 64 bits (`parseInt_iff`). The decimal text of an integer stands for it.
-/

namespace KernelForge

open List Binary

namespace Text

/-- A digit of a radix; letters are of either case. -/
def IsDigit (radix : Nat) (c : Char) (d : Nat) : Prop :=
  d < radix ∧ (c = d.digitChar ∨ c = d.digitChar.toUpper)

/-- Digits, most significant first, and their number. -/
def Digits (radix : Nat) (cs : List Char) (n : Nat) : Prop :=
  cs ≠ [] ∧ ∃ ds, Forall₂ (IsDigit radix) cs ds ∧ Nat.ofDigits radix ds.reverse = n

/-- Digits behind at most one plus sign. -/
def Unsigned (radix : Nat) (cs : List Char) (n : Nat) : Prop :=
  Digits radix cs n ∨ ∃ ds, cs = '+' :: ds ∧ Digits radix ds n

variable {radix acc d n limit : Nat} {c : Char} {cs before after : List Char}

/-! ## Digits -/

theorem IsDigit.value (h : IsDigit radix c d) (hr : radix ≤ 16) : digitValue c = some d := by
  have hvalues : ∀ d < 16, digitValue d.digitChar = some d ∧
      digitValue d.digitChar.toUpper = some d := by decide
  obtain ⟨hd, rfl | rfl⟩ := h
  · exact (hvalues d (by omega)).1
  · exact (hvalues d (by omega)).2

theorem digitBelow_iff (hr : radix ≤ 16) : digitBelow radix c = some d ↔ IsDigit radix c d := by
  rw [digitBelow, Option.filter_eq_some_iff, decide_eq_true_eq]
  constructor
  · rintro ⟨hv, hd⟩
    -- the code of a character tells the character
    have hcode : ∀ d < 16, d.digitChar.toNat = (if d < 10 then 48 else 87) + d ∧
        d.digitChar.toUpper.toNat = (if d < 10 then 48 else 55) + d := by decide
    obtain ⟨hlower, hupper⟩ := hcode d (by omega)
    refine ⟨hd, ?_⟩
    rw [← Char.toNat_inj, ← Char.toNat_inj]
    have hle : ∀ {x y : Char}, x ≤ y ↔ x.toNat ≤ y.toNat := Iff.rfl
    simp only [digitValue] at hv
    grind
  · exact fun h => ⟨h.value hr, h.1⟩

theorem digitsFrom_iff (hr : radix ≤ 16) : digitsFrom radix acc cs = some n ↔
    ∃ ds, Forall₂ (IsDigit radix) cs ds ∧ ds.foldl (fun m d => m * radix + d) acc = n := by
  induction cs generalizing acc with
  | nil =>
    refine ⟨fun h => ⟨[], .nil, Option.some.inj h⟩, ?_⟩
    rintro ⟨_, ⟨⟩, rfl⟩
    rfl
  | cons c cs ih =>
    rw [digitsFrom, Option.bind_eq_some_iff]
    simp only [digitBelow_iff hr, ih]
    constructor
    · rintro ⟨d, hd, ds, hds, rfl⟩
      exact ⟨d :: ds, .cons hd hds, rfl⟩
    · rintro ⟨_, _ | ⟨hd, hds⟩, rfl⟩
      exact ⟨_, hd, _, hds, rfl⟩

theorem digits?_iff (hr : radix ≤ 16) : digits? radix cs = some n ↔ Digits radix cs n := by
  have hvalue : ∀ ds : List Nat,
      ds.foldl (fun m d => m * radix + d) 0 = Nat.ofDigits radix ds.reverse := fun ds => by
    simp [Nat.ofDigits_eq_foldr, Nat.mul_comm, Nat.add_comm]
  cases cs with
  | nil => simp [digits?, Digits]
  | cons => simp [digits?, digitsFrom_iff hr, Digits, hvalue]

theorem Digits.isDigit (h : Digits radix cs n) (hc : c ∈ cs) : ∃ d, IsDigit radix c d := by
  obtain ⟨-, ds, hds, -⟩ := h
  induction hds with
  | nil => cases hc
  | cons hd _ ih =>
    rcases mem_cons.1 hc with rfl | hc
    · exact ⟨_, hd⟩
    · exact ih hc

theorem natBelow?_iff (hr : radix ≤ 16) :
    natBelow? radix limit cs = some n ↔ Unsigned radix cs n ∧ n < limit := by
  rw [natBelow?, Option.filter_eq_some_iff, decide_eq_true_eq, digits?_iff hr]
  refine and_congr_left fun _ => ?_
  unfold dropPlus
  split
  · next ds =>
    refine ⟨fun h => .inr ⟨ds, rfl, h⟩, ?_⟩
    rintro (h | ⟨_, ⟨⟩, h⟩)
    · obtain ⟨d, hd⟩ := h.isDigit mem_cons_self
      cases hd.value hr
    · exact h
  · next hplus => exact ⟨.inl, fun h => h.resolve_right fun ⟨ds, hds, _⟩ => hplus ds hds⟩

/-- The digits of a number give the number back. -/
theorem digits_toDigits (n : Nat) : Digits 10 (Nat.toDigits 10 n) n := by
  have hdigit : ∀ d < 10, IsDigit 10 d.digitChar d := fun d hd => ⟨hd, .inl rfl⟩
  induction n using Nat.strongRecOn with
  | ind n ih =>
    by_cases h : n < 10
    · rw [Nat.toDigits_of_lt_base h]
      exact ⟨cons_ne_nil _ _, [n], .cons (hdigit n h) .nil, by simp⟩
    · rw [Nat.toDigits_of_base_le (by omega) (by omega)]
      obtain ⟨-, ds, hds, hvalue⟩ := ih (n / 10) (by omega)
      refine ⟨by simp, ds ++ [n % 10], rel_append hds (.cons (hdigit _ (by omega)) .nil), ?_⟩
      rw [reverse_append, reverse_singleton, singleton_append, Nat.ofDigits_cons, hvalue]
      exact Nat.mod_add_div n 10

theorem digitsFrom_toDigits (n : Nat) : digitsFrom 10 0 (Nat.toDigits 10 n) = some n := by
  have h := (digits?_iff (by decide)).2 (digits_toDigits n)
  rwa [digits?] at h
  exact fun hnil => absurd hnil Nat.toDigits_ne_nil

theorem isDigit_of_mem (h : c ∈ Nat.toDigits 10 n) : c.isDigit = true :=
  Nat.isDigit_of_mem_toDigits (by omega) (by omega) h

theorem toList_natText (n : Nat) : (natText n).toList = Nat.toDigits 10 n := String.toList_ofList

/-! ## Blanks -/

/-- A text without blanks that has no minus sign. -/
def Solid (cs : List Char) : Prop := cs ≠ [] ∧ ∀ c ∈ cs, isBlank c = false ∧ c ≠ '-'

theorem Digits.solid (h : Digits radix cs n) (hr : radix ≤ 16) : Solid cs := by
  have hsolid : ∀ d < 16, (isBlank d.digitChar = false ∧ d.digitChar ≠ '-') ∧
      isBlank d.digitChar.toUpper = false ∧ d.digitChar.toUpper ≠ '-' := by decide
  refine ⟨h.1, fun c hc => ?_⟩
  obtain ⟨d, hd, rfl | rfl⟩ := h.isDigit hc
  · exact (hsolid d (by omega)).1
  · exact (hsolid d (by omega)).2

theorem Solid.cons (hc : isBlank c = false ∧ c ≠ '-') (h : Solid cs) : Solid (c :: cs) :=
  ⟨cons_ne_nil _ _, forall_mem_cons.2 ⟨hc, h.2⟩⟩

theorem Unsigned.solid (h : Unsigned radix cs n) (hr : radix ≤ 16) : Solid cs := by
  rcases h with h | ⟨ds, rfl, h⟩
  · exact h.solid hr
  · exact (h.solid hr).cons (by decide)

/-- Trimming drops blanks at both ends. -/
theorem trimChars_split (cs : List Char) : ∃ before after,
    cs = before ++ trimChars cs ++ after ∧ ∀ c ∈ before ++ after, isBlank c = true := by
  refine ⟨cs.takeWhile isBlank, ((cs.dropWhile isBlank).reverse.takeWhile isBlank).reverse, ?_, ?_⟩
  · rw [append_assoc, trimChars, ← reverse_append, takeWhile_append_dropWhile, reverse_reverse,
      takeWhile_append_dropWhile]
  · intro c hc
    rcases mem_append.1 hc with hc | hc
    · exact mem_takeWhile_imp hc
    · exact mem_takeWhile_imp (mem_reverse.1 hc)

theorem dropWhile_blanks (hblank : ∀ c ∈ before, isBlank c = true) (hne : cs ≠ [])
    (h : ∀ c ∈ cs, isBlank c = false) (after : List Char) :
    (before ++ cs ++ after).dropWhile isBlank = cs ++ after := by
  obtain ⟨c, cs, rfl⟩ := exists_cons_of_ne_nil hne
  rw [append_assoc, dropWhile_append_of_pos hblank, cons_append,
    dropWhile_cons_of_neg (by simp [h c mem_cons_self])]

theorem trimChars_of (hblank : ∀ c ∈ before ++ after, isBlank c = true) (hne : cs ≠ [])
    (h : ∀ c ∈ cs, isBlank c = false) : trimChars (before ++ cs ++ after) = cs := by
  obtain ⟨hbefore, hafter⟩ := forall_mem_append.1 hblank
  have hback : (after.reverse ++ cs.reverse ++ []).dropWhile isBlank = cs.reverse ++ [] :=
    dropWhile_blanks (by simpa using hafter) (by simpa using hne) (by simpa using h) []
  rw [trimChars, dropWhile_blanks hbefore hne h, reverse_append, ← append_nil cs.reverse,
    ← append_assoc, hback, append_nil, reverse_reverse]

end Text

namespace Codegen

open Text
open Lir (Kind)

/-- A magnitude: decimal digits, or hexadecimal ones behind their mark. -/
def Magnitude (cs : List Char) (n : Nat) : Prop :=
  Unsigned 10 cs n ∨ ∃ x ds, (x = 'x' ∨ x = 'X') ∧ cs = '0' :: x :: ds ∧ Unsigned 16 ds n

/-- A magnitude with an optional minus sign. -/
inductive Signed : List Char → Int → Prop
  | plain {cs : List Char} {n : Nat} (h : Magnitude cs n) : Signed cs n
  | minus {cs : List Char} {n : Nat} (h : Magnitude cs n) : Signed ('-' :: cs) (-n)

/-- The integer that a text stands for, blanks around it apart. -/
def Spells (value : String) (z : Int) : Prop :=
  ∃ before text after, value.toList = before ++ text ++ after ∧
    (∀ c ∈ before ++ after, isBlank c = true) ∧ Signed text z

variable {n : Nat} {cs : List Char} {z : Int}

theorem magnitude?_iff : magnitude? cs = some n ↔ Magnitude cs n ∧ n < Nat.pow 2 64 := by
  have hmark : ∀ {x ds}, (x = 'x' ∨ x = 'X') → ¬ Unsigned 10 ('0' :: x :: ds) n := by
    rintro x ds hx (h | ⟨_, ⟨⟩, -⟩)
    obtain ⟨d, hd⟩ := h.isDigit (mem_cons_of_mem _ mem_cons_self)
    have hlt : d < 10 := hd.1
    have hvalue := hd.value (by decide)
    rcases hx with rfl | rfl <;> cases hvalue <;> omega
  unfold magnitude?
  split
  · rw [natBelow?_iff (by decide), Magnitude, or_iff_right (hmark (.inl rfl))]
    simp
  · rw [natBelow?_iff (by decide), Magnitude, or_iff_right (hmark (.inr rfl))]
    simp
  · next hx hX =>
    rw [natBelow?_iff (by decide), Magnitude, or_iff_left]
    rintro ⟨x, ds, rfl | rfl, rfl, -⟩
    · exact hx ds rfl
    · exact hX ds rfl

theorem Magnitude.solid (h : Magnitude cs n) : Solid cs := by
  rcases h with h | ⟨x, ds, hx, rfl, h⟩
  · exact h.solid (by decide)
  · refine ((h.solid (by decide)).cons ?_).cons (by decide)
    rcases hx with rfl | rfl <;> decide

theorem splitSign_of_solid (h : Solid cs) : splitSign cs = (false, cs) := by
  unfold splitSign
  split
  · exact absurd rfl (h.2 '-' mem_cons_self).2
  · rfl

theorem Signed.not_blank (h : Signed cs z) : cs ≠ [] ∧ ∀ c ∈ cs, isBlank c = false := by
  cases h with
  | plain h => exact ⟨h.solid.1, fun c hc => (h.solid.2 c hc).1⟩
  | minus h =>
      exact ⟨cons_ne_nil _ _, forall_mem_cons.2 ⟨by decide, fun c hc => (h.solid.2 c hc).1⟩⟩

/-- The sign and the magnitude of a text. -/
theorem signed_iff : (Signed cs z ∧ z.natAbs < Nat.pow 2 64) ↔
    ∃ n, magnitude? (splitSign cs).2 = some n ∧ z = if (splitSign cs).1 then -(n : Int) else n := by
  constructor
  · rintro ⟨h, hlt⟩
    cases h with
    | plain h =>
      rw [splitSign_of_solid h.solid]
      exact ⟨_, magnitude?_iff.2 ⟨h, hlt⟩, rfl⟩
    | minus h => exact ⟨_, magnitude?_iff.2 ⟨h, by simpa using hlt⟩, rfl⟩
  · rintro ⟨n, hn, rfl⟩
    obtain ⟨h, hlt⟩ := magnitude?_iff.1 hn
    revert h
    unfold splitSign
    split
    · exact fun h => ⟨.minus h, by simpa using hlt⟩
    · exact fun h => ⟨.plain h, hlt⟩

theorem mask_word64 (z : Int) (bits : Nat) :
    mask (word64 z) bits = (z % (Nat.pow 2 (min bits 64) : Nat)).toNat := by
  have hmin : mask (word64 z) bits = mask (word64 z) (min bits 64) := by
    unfold mask
    by_cases h : 64 ≤ bits
    · rw [Nat.min_eq_right h, if_pos h, if_pos (Nat.le_refl _)]
    · rw [Nat.min_eq_left (by omega)]
  have hcut := Device.ofBits_word64 (Nat.min_le_right bits 64) z
  rw [hmin, (Device.Value.int.inj hcut).1]
  rfl

/-- A literal is read where its text stands for an integer of at most 64 bits. -/
theorem parseInt_iff {value : String} {k : Kind} {m : Nat} : parseInt value k = .ok m ↔
    ∃ z, Spells value z ∧ z.natAbs < Nat.pow 2 64 ∧
      m = (z % (Nat.pow 2 (min k.bits 64) : Nat)).toNat := by
  have hparse : parseInt value k = .ok m ↔ ∃ z, (Signed (trimChars value.toList) z ∧
      z.natAbs < Nat.pow 2 64) ∧ m = mask (word64 z) k.bits := by
    simp only [signed_iff, parseInt]
    cases magnitude? (splitSign (trimChars value.toList)).2 with
    | none => simp
    | some n =>
      refine ⟨fun h => ⟨_, ⟨n, rfl, rfl⟩, (Except.ok.inj h).symm⟩, ?_⟩
      rintro ⟨_, ⟨_, ⟨⟩, rfl⟩, rfl⟩
      rfl
  rw [hparse]
  constructor
  · rintro ⟨z, ⟨hz, hlt⟩, rfl⟩
    obtain ⟨before, after, hsplit, hblank⟩ := trimChars_split value.toList
    exact ⟨z, ⟨before, _, after, hsplit, hblank, hz⟩, hlt, mask_word64 z _⟩
  · rintro ⟨z, ⟨before, text, after, hsplit, hblank, hz⟩, hlt, rfl⟩
    have htrim := trimChars_of hblank hz.not_blank.1 hz.not_blank.2
    exact ⟨z, ⟨by rw [hsplit, htrim]; exact hz, hlt⟩, (mask_word64 z _).symm⟩

theorem magnitude_toDigits (n : Nat) : Magnitude (Nat.toDigits 10 n) n :=
  .inl (.inl (digits_toDigits n))

/-- The decimal text of an integer stands for it. -/
theorem intText_spells (z : Int) : Spells (intText z) z := by
  refine ⟨[], (intText z).toList, [], by simp, by simp, ?_⟩
  cases z with
  | ofNat n =>
    rw [intText, toList_natText]
    exact .plain (magnitude_toDigits n)
  | negSucc n =>
    rw [intText, String.toList_append, toList_natText]
    exact .minus (magnitude_toDigits (n + 1))

/-- The text of a word is read back as the word. -/
theorem parseInt_natText (h : n < Nat.pow 2 64) : parseInt (natText n) .i64 = .ok n :=
  parseInt_iff.2 ⟨n, intText_spells n, h, congrArg Int.toNat (Int.emod_eq_of_lt (by omega)
    (Int.ofNat_lt.2 h)).symm⟩

end Codegen

end KernelForge
