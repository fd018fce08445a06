import KernelForge.Cli.Element
import KernelForge.Proofs.Literals

/-!
# Buffers of integers on the command line

A buffer is written as the decimal texts of its elements between commas, with blanks around them.
Reading such a text gives the bytes of the elements in order, low byte first, and printing the bytes
gives the decimal texts back (`buffer_round_trip`). An element outside the range of its type is
refused by name.
-/

namespace KernelForge.Cli

open List
open Binary (bytesLE natLE word64 signExtend)
open Text (isBlank trimChars intText intOfBits? digits?)

/-- An integer as it is written: its text with blanks around it. -/
structure Item where
  before : List Char
  value : Int
  after : List Char
  blank : ∀ c ∈ before ++ after, isBlank c = true

def Item.chars (i : Item) : List Char := i.before ++ (intText i.value).toList ++ i.after

/-- The range of signed numbers of a width. -/
def InRange (bits : Nat) (z : Int) : Prop :=
  -(Nat.pow 2 (bits - 1) : Int) ≤ z ∧ z < Nat.pow 2 (bits - 1)

instance (bits : Nat) : DecidablePred (InRange bits) := fun _ => inferInstanceAs (Decidable (_ ∧ _))

variable {cs part : List Char} {z : Int} {bits size : Nat}

/-! ## Texts -/

/-- Decimal texts have neither blanks nor commas. -/
theorem intText_chars (z : Int) : (intText z).toList ≠ [] ∧
    ∀ c ∈ (intText z).toList, isBlank c = false ∧ c ≠ ',' := by
  have hdigits : ∀ n, ∀ c ∈ Nat.toDigits 10 n, isBlank c = false ∧ c ≠ ',' := fun n c hc =>
    ⟨(((Text.digits_toDigits n).solid (by decide)).2 c hc).1, by
      rintro rfl
      exact absurd (Text.isDigit_of_mem hc) (by decide)⟩
  cases z with
  | ofNat n =>
    rw [intText, Text.toList_natText]
    exact ⟨Nat.toDigits_ne_nil, hdigits n⟩
  | negSucc n =>
    rw [intText, String.toList_append, Text.toList_natText]
    exact ⟨cons_ne_nil _ _, forall_mem_cons.2 ⟨by decide, hdigits _⟩⟩

/-- A decimal text is read where its number is in range. -/
theorem intOfBits?_intText (bits : Nat) (z : Int) :
    intOfBits? bits (intText z).toList = if InRange bits z then some z else none := by
  have hread : ∀ n, digits? 10 (Nat.toDigits 10 n) = some n := fun n =>
    (Text.digits?_iff (by decide)).2 (Text.digits_toDigits n)
  unfold InRange
  cases z with
  | ofNat n =>
    have hplus : Text.dropPlus (Nat.toDigits 10 n) = Nat.toDigits 10 n := by
      unfold Text.dropPlus
      split
      · next heq => exact absurd (Text.isDigit_of_mem (heq ▸ mem_cons_self)) (by decide)
      · rfl
    rw [intText, Text.toList_natText, intOfBits?, Text.natBelow?, hplus, hread]
    · simp only [Option.filter_some]
      grind
    · intro cs hcs
      exact (((Text.digits_toDigits n).solid (by decide)).2 '-' (hcs ▸ mem_cons_self)).2 rfl
  | negSucc n =>
    rw [intText, String.toList_append, Text.toList_natText]
    show intOfBits? bits ('-' :: Nat.toDigits 10 (n + 1)) = _
    rw [intOfBits?, hread]
    simp only [Option.filter_some]
    grind

/-- A part without commas is found in front of a comma and at the end. -/
theorem splitCommas_append (h : ',' ∉ part) (cs : List Char) :
    splitCommas part = [part] ∧ splitCommas (part ++ ',' :: cs) = part :: splitCommas cs := by
  induction part with
  | nil => exact ⟨rfl, rfl⟩
  | cons c part ih =>
    obtain ⟨hc, hpart⟩ := ne_and_not_mem_of_not_mem_cons h
    obtain ⟨hend, hcomma⟩ := ih hpart
    rw [cons_append, splitCommas, splitCommas, if_neg (Ne.symm hc), if_neg (Ne.symm hc),
      hend, hcomma]
    exact ⟨rfl, rfl⟩

theorem splitCommas_intercalate {parts : List (List Char)} (hne : parts ≠ [])
    (h : ∀ part ∈ parts, ',' ∉ part) : splitCommas ([','].intercalate parts) = parts := by
  induction parts with
  | nil => exact absurd rfl hne
  | cons part parts ih =>
    obtain ⟨hpart, hparts⟩ := forall_mem_cons.1 h
    cases parts with
    | nil =>
      rw [intercalate_singleton]
      exact (splitCommas_append hpart []).1
    | cons next parts =>
      rw [intercalate_cons_cons, append_assoc, singleton_append, (splitCommas_append hpart _).2,
        ih (cons_ne_nil _ _) hparts]

/-- The elements of a written buffer are found as they are written, without the blanks. -/
theorem elementTexts_items (items : List Item) :
    elementTexts ([','].intercalate (items.map Item.chars)) =
      items.map fun i => intText i.value := by
  have htrim : ∀ i : Item, String.ofList (trimChars i.chars) = intText i.value := fun i => by
    obtain ⟨hne, hchars⟩ := intText_chars i.value
    rw [Item.chars, Text.trimChars_of i.blank hne fun c hc => (hchars c hc).1, String.ofList_toList]
  have hcomma : ∀ part ∈ items.map Item.chars, ',' ∉ part := by
    intro part hpart hin
    obtain ⟨i, -, rfl⟩ := mem_map.1 hpart
    have hblank : ',' ∉ i.before ++ i.after := fun h => absurd (i.blank _ h) (by decide)
    rw [Item.chars, mem_append, mem_append] at hin
    rcases hin with (h | h) | h
    · exact hblank (mem_append_left _ h)
    · exact ((intText_chars i.value).2 _ h).2 rfl
    · exact hblank (mem_append_right _ h)
  cases items with
  | nil => decide
  | cons i items =>
    have hne : (i :: items).map Item.chars ≠ [] := cons_ne_nil _ _
    rw [elementTexts, splitCommas_intercalate hne hcomma, map_map]
    refine (congrArg _ (map_congr_left fun i _ => htrim i)).trans
      (filter_eq_self.2 fun text htext => ?_)
    obtain ⟨i, -, rfl⟩ := mem_map.1 htext
    simpa using (intText_chars i.value).1

/-! ## Bytes -/

/-- Runs of bytes of one size are cut apart. -/
theorem cut_flatMap {α : Type} {f : α → List UInt8} (hsize : ∀ a, (f a).length = size)
    (l : List α) :
    Element.cut size l.length (l.flatMap f) = l.map fun a => natLE (f a) := by
  induction l with
  | nil => rfl
  | cons a l ih =>
    rw [flatMap_cons, length_cons, Element.cut, ← hsize a, take_left, drop_left, hsize a, ih]
    rfl

/-- The types of integers, with their names and widths. -/
inductive Element.Integral : Element → String → Nat → Prop
  | i32 : Integral .i32 "i32" 32
  | i64 : Integral .i64 "i64" 64

namespace Element.Integral

variable {e : Element} {name : String} (h : e.Integral name bits)

include h

/-- An element is read where its number is in range. -/
theorem encode?_intText (z : Int) :
    e.encode? (intText z) = if InRange bits z then some (bytesLE e.size (word64 z)) else none := by
  cases h <;> simp only [encode?, bits?, intOfBits?_intText] <;> split <;> rfl

/-- A number in range is printed from its low bytes. -/
theorem textOf_bytes (hz : InRange bits z) :
    e.textOf (natLE (bytesLE e.size (word64 z))) = intText z := by
  rw [Binary.natLE_bytesLE]
  unfold InRange at hz
  cases h <;> norm_num at hz <;> refine congrArg intText ?_ <;>
    simp [signExtend, word64, size] <;> omega

end Element.Integral

/-- The argument that a buffer is written as. -/
def bufferText (name : String) (items : List Item) : String :=
  "buf:" ++ name ++ ":" ++ String.ofList ([','].intercalate (items.map Item.chars))

variable {e : Element} {name : String}

theorem parseArgument_buffer (h : e.Integral name bits) (items : List Item) :
    parseArgument (bufferText name items) =
      (bufferBytes e (items.map fun i => intText i.value)).map (.buffer e) := by
  have hmark : splitColon? (bufferText name items).toList = some ("buf".toList,
      name.toList ++ ':' :: [','].intercalate (items.map Item.chars)) := by
    simp [bufferText, splitColon?]
  have hname : splitColon? (name.toList ++ ':' :: [','].intercalate (items.map Item.chars)) =
      some (name.toList, [','].intercalate (items.map Item.chars)) := by
    cases h <;> simp [splitColon?]
  have hknown : Element.ofName? name = some e := by cases h <;> rfl
  unfold parseArgument
  rw [hmark]
  simp only [String.ofList_toList, hname, hknown, elementTexts_items]
  cases bufferBytes e (items.map fun i => intText i.value) <;> rfl

theorem bufferBytes_inRange (h : e.Integral name bits) {items : List Item}
    (hitems : ∀ i ∈ items, InRange bits i.value) :
      bufferBytes e (items.map fun i => intText i.value) =
      .ok (items.flatMap fun i => bytesLE e.size (word64 i.value)) := by
  induction items with
  | nil => rfl
  | cons i items ih =>
    obtain ⟨hi, hitems⟩ := forall_mem_cons.1 hitems
    rw [map_cons, bufferBytes, h.encode?_intText, if_pos hi, ih hitems]
    rfl

/-- The first element out of range is named. -/
theorem bufferBytes_outOfRange (h : e.Integral name bits) {items : List Item}
    (hitems : ∃ i ∈ items, ¬ InRange bits i.value) : ∃ i ∈ items, ¬ InRange bits i.value ∧
      bufferBytes e (items.map fun i => intText i.value) =
        .error (.notElement (intText i.value) e) := by
  induction items with
  | nil => simp at hitems
  | cons i items ih =>
    rw [map_cons, bufferBytes, h.encode?_intText]
    by_cases hi : InRange bits i.value
    · have hrest : ∃ j ∈ items, ¬ InRange bits j.value := by simpa [hi] using hitems
      obtain ⟨j, hj, hrange, hbytes⟩ := ih hrest
      rw [if_pos hi, hbytes]
      exact ⟨j, mem_cons_of_mem _ hj, hrange, rfl⟩
    · rw [if_neg hi]
      exact ⟨i, mem_cons_self, hi, rfl⟩

/-- **Buffers of integers are read and printed without loss.** -/
theorem buffer_round_trip (h : e.Integral name bits) (items : List Item) :
    ((∀ i ∈ items, InRange bits i.value) →
      parseArgument (bufferText name items) =
        .ok (.buffer e (items.flatMap fun i => bytesLE e.size (word64 i.value))) ∧
      e.format (items.flatMap fun i => bytesLE e.size (word64 i.value)) =
        items.map (fun i => intText i.value)) ∧
    ((∃ i ∈ items, ¬ InRange bits i.value) → ∃ i ∈ items, ¬ InRange bits i.value ∧
      parseArgument (bufferText name items) = .error (.notElement (intText i.value) e)) := by
  rw [parseArgument_buffer h]
  refine ⟨fun hitems => ?_, fun hitems => ?_⟩
  · rw [bufferBytes_inRange h hitems]
    refine ⟨rfl, ?_⟩
    have hlength : ∀ i : Item, (bytesLE e.size (word64 i.value)).length = e.size := fun _ =>
      Binary.length_bytesLE _ _
    have hcount : (items.flatMap fun i => bytesLE e.size (word64 i.value)).length / e.size =
        items.length := by
      rw [length_flatMap, map_congr_left fun i _ => hlength i, map_const', sum_replicate_nat,
        Nat.mul_div_cancel _ (by cases h <;> decide)]
    rw [Element.format, hcount, cut_flatMap hlength, map_map]
    exact map_congr_left fun i hi => h.textOf_bytes (hitems i hi)
  · obtain ⟨i, hi, hrange, hbytes⟩ := bufferBytes_outOfRange h hitems
    exact ⟨i, hi, hrange, by rw [hbytes]; rfl⟩

theorem buffer_round_trip_spaced :
    parseArgument (bufferText "i32" [⟨[' '], 7, [], forall_mem_singleton.2 rfl⟩,
        ⟨[], -8, ['\t'], forall_mem_singleton.2 rfl⟩]) =
      .ok (.buffer .i32 [7, 0, 0, 0, 248, 255, 255, 255]) ∧
    Element.format .i32 [7, 0, 0, 0, 248, 255, 255, 255] = [intText 7, intText (-8)] :=
  (buffer_round_trip .i32 _).1 (by decide)

end KernelForge.Cli
