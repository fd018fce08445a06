import KernelForge.Json.Parser
import KernelForge.Proofs.Literals

/-!
# The text of a tree is read back

A tree is plain when its numbers are whole and within 64 bits. The compact text of a plain tree,
followed by whatever may follow a value, is read as that tree and leaves what followed. The reader
takes at most one unit of fuel for each character and one more.
-/

namespace KernelForge.Json

open List
open Text
open Nat (toDigits toDigits_ne_nil)

/-- Trees without numbers that are kept as text. -/
inductive Plain : Json → Prop
  | null : Plain .null
  | bool (b : Bool) : Plain (.bool b)
  | int {n : Int} (low : -(Nat.pow 2 63 : Int) ≤ n) (high : n < Nat.pow 2 64) : Plain (.int n)
  | str (s : String) : Plain (.str s)
  | arr {items : List Json} (h : ∀ j ∈ items, Plain j) : Plain (.arr items)
  | obj {members : List (String × Json)} (h : ∀ m ∈ members, Plain m.2) : Plain (.obj members)

/-- What may follow a value. -/
def Stops : List Char → Prop
  | [] => True
  | c :: _ => c = ',' ∨ c = ']' ∨ c = '\x7d'

variable {c : Char}

theorem stops_cons (h : c = ',' ∨ c = ']' ∨ c = '\x7d') (cs : List Char) : Stops (c :: cs) := h

/-! ## Strings -/

theorem digits?_hexPadded : ∀ n < 32, digits? 16 (hexPadded 4 n) = some n := by decide

variable {n fuel : Nat}

theorem unicodeEscape?_hexPadded (h : n < 32) (rest : List Char) :
    unicodeEscape? (hexPadded 4 n ++ rest) = some (Char.ofNat n, rest) := by
  have hhex : hex4? (hexPadded 4 n ++ rest) = some (n, rest) := by
    show (digits? 16 (hexPadded 4 n)).map (fun n => (n, rest)) = _
    rw [digits?_hexPadded n h]
    rfl
  unfold unicodeEscape?
  rw [hhex]
  show (if 0xD800 ≤ n ∧ n < 0xDC00 then _ else if 0xDC00 ≤ n ∧ n < 0xE000 then _ else _) = _
  rw [if_neg (by omega), if_neg (by omega)]
  rfl

/-- One character is read back from its written form. -/
theorem stringBody_escapeChar (fuel : Nat) (acc : List Char) (c : Char) (rest : List Char) :
    stringBody (fuel + 1) acc ((escapeChar c).toList ++ rest) =
      stringBody fuel (c :: acc) rest := by
  have hof : ∀ {n}, c.toNat = n → Char.ofNat n = c := by
    rintro n rfl
    exact Char.ofNat_toNat c
  unfold escapeChar
  split
  · rfl
  · rfl
  · rfl
  · rfl
  · rfl
  · next hquote hslash _ _ _ =>
    split
    · next h =>
      show stringBody fuel (Char.ofNat 8 :: acc) rest = _
      rw [hof h]
    split
    · next h =>
      show stringBody fuel (Char.ofNat 12 :: acc) rest = _
      rw [hof h]
    split
    · next h =>
      have htext : ("\\u" ++ String.ofList (hexPadded 4 c.toNat)).toList ++ rest =
          '\\' :: 'u' :: (hexPadded 4 c.toNat ++ rest) := by
        simp
      rw [htext, stringBody.eq_def]
      simp only [Char.reduceEq, if_false, if_true, unicodeEscape?_hexPadded h, hof rfl]
    · next h =>
      rw [String.toList_singleton, singleton_append, stringBody.eq_def]
      dsimp only
      rw [if_neg hquote, if_neg hslash, if_neg h]

/-- The characters between the quotes of a string. -/
def escaped (cs : List Char) : List Char := cs.flatMap fun c => (escapeChar c).toList

theorem toList_quote (s : String) : (quote s).toList = '"' :: (escaped s.toList ++ ['"']) := by
  simp [quote, escaped, flatMap_map]

theorem length_le_escaped (cs : List Char) : cs.length ≤ (escaped cs).length := by
  have hone : ∀ c, 1 ≤ (escapeChar c).toList.length := by
    intro c
    unfold escapeChar
    split <;> try decide
    split <;> try decide
    split <;> try decide
    split <;> simp
  induction cs with
  | nil => exact Nat.le_refl _
  | cons c cs ih =>
    have hc := hone c
    simp only [escaped, flatMap_cons, length_append, length_cons] at ih ⊢
    omega

theorem exists_succ {m : Nat} (h : m < n) : ∃ k, n = k + 1 := ⟨n - 1, by omega⟩

/-- A string is read back from between its quotes. -/
theorem stringBody_escaped {cs : List Char} (h : cs.length < fuel) (acc : List Char)
    (rest : List Char) :
    stringBody fuel acc (escaped cs ++ '"' :: rest) =
      some (String.ofList (acc.reverse ++ cs), rest) := by
  induction cs generalizing fuel acc with
  | nil =>
    obtain ⟨fuel, rfl⟩ := exists_succ h
    simp [escaped, stringBody]
  | cons c cs ih =>
    obtain ⟨fuel, rfl⟩ := exists_succ h
    have hstep : escaped (c :: cs) ++ '"' :: rest =
        (escapeChar c).toList ++ (escaped cs ++ '"' :: rest) := by
      simp [escaped]
    rw [hstep, stringBody_escapeChar, ih (by simpa using h)]
    simp

/-! ## Numbers -/

/-- Only zero is written with a zero in front. -/
theorem toDigits_leading {cs : List Char} : toDigits 10 n ≠ '0' :: c :: cs := by
  induction n using Nat.strongRecOn generalizing c cs with
  | ind n ih =>
    intro h
    by_cases hn : n < 10
    · rw [Nat.toDigits_of_lt_base hn] at h
      simp at h
    · rw [Nat.toDigits_of_base_le (by omega) (by omega)] at h
      have hvalue := digitsFrom_toDigits (n / 10)
      match hfirst : toDigits 10 (n / 10) with
      | [] => exact toDigits_ne_nil hfirst
      | [d] =>
        rw [hfirst] at h hvalue
        cases h
        have hzero : n / 10 = 0 := (Option.some.inj hvalue).symm
        omega
      | d :: d' :: ds =>
        rw [hfirst] at h
        cases h
        exact ih (n / 10) (by omega) hfirst

variable {rest : List Char}

theorem span_toDigits (n : Nat) (h : Stops rest) :
    (toDigits 10 n ++ rest).takeWhile Char.isDigit = toDigits 10 n ∧
      (toDigits 10 n ++ rest).dropWhile Char.isDigit = rest := by
  have hall : ∀ c ∈ toDigits 10 n, c.isDigit = true := fun c => isDigit_of_mem
  rw [takeWhile_append_of_pos hall, dropWhile_append_of_pos hall]
  cases rest with
  | nil => simp
  | cons c rest =>
    have hc : ¬ c.isDigit = true := by
      rcases h with rfl | rfl | rfl <;> decide
    rw [takeWhile_cons_of_neg hc, dropWhile_cons_of_neg hc, append_nil]
    exact ⟨rfl, rfl⟩

theorem wholePart?_toDigits (n : Nat) (h : Stops rest) :
    wholePart? (toDigits 10 n ++ rest) = some (toDigits 10 n, rest) := by
  obtain ⟨htake, hdrop⟩ := span_toDigits n h
  unfold wholePart?
  rw [htake, hdrop]
  split
  · next hnil => exact absurd hnil toDigits_ne_nil
  · next hzero => exact absurd hzero toDigits_leading
  · rfl

theorem parts_stop (h : Stops rest) :
    fractionPart? rest = some ([], rest) ∧ exponentPart? rest = some ([], rest) := by
  cases rest with
  | nil => exact ⟨rfl, rfl⟩
  | cons => rcases h with rfl | rfl | rfl <;> exact ⟨rfl, rfl⟩

/-- The digits of a number, with the sign that was read before them. -/
theorem unsignedNumber?_toDigits (negative : Bool) (h : Stops rest) :
    unsignedNumber? negative (toDigits 10 n ++ rest) =
      if negative then
        if 0 < n ∧ n ≤ Nat.pow 2 63 then some (.int (-(n : Int)), rest)
        else some (.real (String.ofList ('-' :: toDigits 10 n)), rest)
      else if n < Nat.pow 2 64 then some (.int n, rest)
      else some (.real (String.ofList (toDigits 10 n)), rest) := by
  have hdigits : digits? 10 (toDigits 10 n) = some n := by
    rw [digits?, digitsFrom_toDigits]
    exact fun hnil => absurd hnil toDigits_ne_nil
  unfold unsignedNumber?
  rw [wholePart?_toDigits n h]
  simp only [Option.bind_eq_bind, Option.bind_some, parts_stop h, hdigits, append_nil]
  cases negative <;> rfl

/-! ## Trees -/

/-- The first character of a value. -/
def Opens (c : Char) : Prop :=
  c ∈ ['n', 't', 'f', '"', '[', '\x7b', '-'] ∨ c.isDigit = true

theorem skipBlank_cons (h : Opens c ∨ c ∈ [',', ':', ']', '\x7d']) (cs : List Char) :
    skipBlank (c :: cs) = c :: cs := by
  have hlist : (['n', 't', 'f', '"', '[', '\x7b', '-'] ++ [',', ':', ']', '\x7d']).all (fun c =>
      !(c == ' ' || c == '\n' || c == '\t' || c == '\r')) = true := by decide
  have hblank : ¬ (c == ' ' || c == '\n' || c == '\t' || c == '\r') = true := by
    rcases h with (h | h) | h
    · simpa using all_eq_true.1 hlist c (mem_append_left _ h)
    · intro hblank
      simp only [Bool.or_eq_true, beq_iff_eq] at hblank
      rcases hblank with ((rfl | rfl) | rfl) | rfl <;> cases h
    · simpa using all_eq_true.1 hlist c (mem_append_right _ h)
  exact dropWhile_cons_of_neg hblank

theorem toList_intText (n : Int) : ∃ c cs, (intText n).toList = c :: cs ∧ Opens c := by
  cases n with
  | ofNat n =>
    have hall : ∀ c ∈ toDigits 10 n, c.isDigit = true := fun c => isDigit_of_mem
    match hdigits : toDigits 10 n with
    | [] => exact absurd hdigits toDigits_ne_nil
    | c :: cs =>
      refine ⟨c, cs, (toList_natText n).trans hdigits, .inr (hall c ?_)⟩
      rw [hdigits]
      exact mem_cons_self
  | negSucc n => exact ⟨'-', (natText (n + 1)).toList, by simp [intText], .inl (by decide)⟩

theorem toList_arr (items : List Json) :
    (compact (.arr items)).toList = '[' :: ((compactItems items).toList ++ [']']) := by
  simp [compact]

theorem toList_obj (members : List (String × Json)) :
    (compact (.obj members)).toList = '\x7b' :: ((compactMembers members).toList ++ ['\x7d']) := by
  simp [compact]

variable {j : Json}

/-- A plain tree starts like a value. -/
theorem Plain.opens (h : j.Plain) : ∃ c cs, j.compact.toList = c :: cs ∧ Opens c := by
  cases h with
  | null => exact ⟨'n', _, rfl, .inl (by decide)⟩
  | bool b => cases b <;> exact ⟨_, _, rfl, .inl (by decide)⟩
  | int => exact toList_intText _
  | str s => exact ⟨'"', _, toList_quote s, .inl (by decide)⟩
  | arr _ => exact ⟨'[', _, toList_arr _, .inl (by decide)⟩
  | obj _ => exact ⟨'\x7b', _, toList_obj _, .inl (by decide)⟩

/-! A value is told by its first character. -/

theorem value?_minus (fuel : Nat) (cs : List Char) :
    value? (fuel + 1) ('-' :: cs) = unsignedNumber? true cs := rfl

theorem value?_quote (fuel : Nat) (cs : List Char) :
    value? (fuel + 1) ('"' :: cs) = (stringBody fuel [] cs).map fun p => (.str p.1, p.2) := rfl

theorem value?_bracket (h : Opens c) (cs : List Char) :
    value? (fuel + 1) ('[' :: c :: cs) = items? fuel [] (c :: cs) := by
  have hopened : skipBlank ('[' :: c :: cs) = '[' :: c :: cs := rfl
  simp only [value?, hopened, skipBlank_cons (.inl h)]
  split
  · next heq =>
    cases heq
    exact absurd h (by unfold Opens; decide)
  · rfl

theorem value?_brace (fuel : Nat) (cs : List Char) :
    value? (fuel + 1) ('\x7b' :: '"' :: cs) = members? fuel [] ('"' :: cs) := rfl

/-- The text of a tree is read as the tree, whatever may follow it. -/
def ReadBack (j : Json) : Prop :=
  ∀ fuel rest, j.compact.toList.length < fuel → Stops rest →
    value? fuel (j.compact.toList ++ rest) = some (j, rest)

/-- Digits are read as a number. -/
theorem value?_toDigits (fuel n : Nat) (rest : List Char) :
    value? (fuel + 1) (toDigits 10 n ++ rest) =
      unsignedNumber? false (toDigits 10 n ++ rest) := by
  match hdigits : toDigits 10 n with
  | [] => exact absurd hdigits toDigits_ne_nil
  | c :: cs =>
    have hc : c.isDigit = true := isDigit_of_mem (hdigits ▸ mem_cons_self)
    rw [cons_append, value?, skipBlank_cons (.inl (.inr hc))]
    split
    case h_8 => rfl
    all_goals
      next heq =>
        cases heq
        cases hc

theorem int_readBack {n : Int} (low : -(Nat.pow 2 63 : Int) ≤ n) (high : n < Nat.pow 2 64) :
    ReadBack (.int n) := by
  intro fuel rest hfuel hrest
  obtain ⟨fuel, rfl⟩ := exists_succ hfuel
  cases n with
  | ofNat n =>
    have htext : (compact (.int (.ofNat n))).toList = toDigits 10 n := toList_natText n
    have hn : n < Nat.pow 2 64 := Int.ofNat_lt.1 high
    rw [htext, value?_toDigits, unsignedNumber?_toDigits false hrest]
    exact if_pos hn
  | negSucc n =>
    have htext : (compact (.int (.negSucc n))).toList = '-' :: toDigits 10 (n + 1) := by
      simp [compact, intText, toList_natText]
    have hn : 0 < n + 1 ∧ n + 1 ≤ Nat.pow 2 63 := by
      omega
    rw [htext, cons_append, value?_minus, unsignedNumber?_toDigits true hrest]
    exact if_pos hn

theorem str_readBack (s : String) : ReadBack (.str s) := by
  intro fuel rest hfuel hrest
  obtain ⟨fuel, rfl⟩ := exists_succ hfuel
  have htext : (compact (.str s)).toList = '"' :: (escaped s.toList ++ ['"']) := toList_quote s
  have hlength := length_le_escaped s.toList
  rw [htext] at hfuel ⊢
  simp only [length_cons, length_append] at hfuel
  rw [cons_append, append_assoc, value?_quote, singleton_append, stringBody_escaped (by omega)]
  simp

/-- Items of an array, the first ones having been read. -/
theorem items?_readBack {items : List Json} (h : ∀ i ∈ j :: items, ReadBack i)
    (hfuel : (compactItems (j :: items)).toList.length + 1 < fuel) (acc : List Json) :
    items? fuel acc ((compactItems (j :: items)).toList ++ ']' :: rest) =
      some (.arr (acc.reverse ++ j :: items), rest) := by
  induction items generalizing j fuel acc with
  | nil =>
    obtain ⟨fuel, rfl⟩ := exists_succ hfuel
    rw [compactItems] at hfuel ⊢
    rw [items?, h j mem_cons_self fuel _ (by omega) (stops_cons (.inr (.inl rfl)) _)]
    show some (Json.arr (j :: acc).reverse, rest) = _
    simp
  | cons i items ih =>
    obtain ⟨fuel, rfl⟩ := exists_succ hfuel
    have htext : (compactItems (j :: i :: items)).toList =
        j.compact.toList ++ ',' :: (compactItems (i :: items)).toList := by
      simp [compactItems]
    rw [htext] at hfuel ⊢
    simp only [length_append, length_cons] at hfuel
    rw [append_assoc, cons_append, items?,
      h j mem_cons_self fuel _ (by omega) (stops_cons (.inl rfl) _)]
    show items? fuel (j :: acc) _ = _
    rw [ih (fun i hi => h i (mem_cons_of_mem _ hi)) (by omega)]
    simp

def member (m : String × Json) : List Char :=
  '"' :: (escaped m.1.toList ++ '"' :: ':' :: m.2.compact.toList)

def afterMember (fuel : Nat) (acc : List (String × Json)) (rest : List Char) :
    Option (Json × List Char) :=
  match skipBlank rest with
  | ',' :: rest => members? fuel acc rest
  | '\x7d' :: rest => some (.obj acc.reverse, rest)
  | _ => none

/-- One member is read, and what follows it tells how to go on. -/
theorem members?_member {m : String × Json} (h : ReadBack m.2) (hfuel : (member m).length < fuel)
    (acc : List (String × Json)) (hrest : Stops rest) :
    members? (fuel + 1) acc (member m ++ rest) = afterMember fuel (m :: acc) rest := by
  obtain ⟨key, value⟩ := m
  have h : ReadBack value := h
  have hlength := length_le_escaped key.toList
  simp only [member, length_cons, length_append] at hfuel
  have hkey :
    stringBody fuel [] (escaped key.toList ++ '"' :: (':' :: (value.compact.toList ++ rest)))
      = some (key, ':' :: (value.compact.toList ++ rest)) := by
    rw [stringBody_escaped (by omega)]
    simp
  have htext : member (key, value) ++ rest =
      '"' :: (escaped key.toList ++ '"' :: (':' :: (value.compact.toList ++ rest))) := by
    simp [member]
  rw [htext, members?, skipBlank_cons (.inl (.inl (by decide)))]
  simp only [hkey, skipBlank_cons (c := ':') (.inr (by decide)), h fuel rest (by omega) hrest]
  rfl

/-- Members of an object, the first ones having been read. -/
theorem members?_readBack {m : String × Json} {members : List (String × Json)}
    (h : ∀ n ∈ m :: members, ReadBack n.2)
    (hfuel : (compactMembers (m :: members)).toList.length + 1 < fuel) (acc : List (String × Json))
    :
    members? fuel acc ((compactMembers (m :: members)).toList ++ '\x7d' :: rest) =
      some (.obj (acc.reverse ++ m :: members), rest) := by
  induction members generalizing m fuel acc with
  | nil =>
    obtain ⟨fuel, rfl⟩ := exists_succ hfuel
    have htext : (compactMembers [m]).toList = member m := by
      simp [compactMembers, member, toList_quote]
    rw [htext] at hfuel ⊢
    rw [members?_member (h m mem_cons_self) (by omega) acc (stops_cons (.inr (.inr rfl)) _)]
    show some (Json.obj (m :: acc).reverse, rest) = _
    simp
  | cons n members ih =>
    obtain ⟨fuel, rfl⟩ := exists_succ hfuel
    have htext : (compactMembers (m :: n :: members)).toList =
        member m ++ ',' :: (compactMembers (n :: members)).toList := by
      simp [compactMembers, member, toList_quote]
    rw [htext] at hfuel ⊢
    simp only [length_append, length_cons] at hfuel
    rw [append_assoc, cons_append,
      members?_member (h m mem_cons_self) (by omega) acc (stops_cons (.inl rfl) _)]
    show members? fuel (m :: acc) _ = _
    rw [ih (fun n hn => h n (mem_cons_of_mem _ hn)) (by omega)]
    simp

/-- A plain tree is read back from its text. -/
theorem Plain.readBack (h : j.Plain) : ReadBack j := by
  induction h with
  | null =>
    intro fuel rest hfuel _
    obtain ⟨fuel, rfl⟩ := exists_succ hfuel
    rfl
  | bool b =>
    intro fuel rest hfuel _
    obtain ⟨fuel, rfl⟩ := exists_succ hfuel
    cases b <;> rfl
  | int low high => exact int_readBack low high
  | str s => exact str_readBack s
  | @arr items h ih =>
    intro fuel rest hfuel _
    obtain ⟨fuel, rfl⟩ := exists_succ hfuel
    rw [toList_arr] at hfuel ⊢
    simp only [length_cons, length_append] at hfuel
    rw [cons_append, append_assoc]
    cases items with
    | nil => rfl
    | cons j items =>
      obtain ⟨c, cs, hc, hopens⟩ := (h j mem_cons_self).opens
      obtain ⟨more, hmore⟩ : ∃ more, (compactItems (j :: items)).toList = c :: more := by
        cases items <;> simp [compactItems, hc]
      rw [hmore, cons_append, value?_bracket hopens, ← cons_append, ← hmore]
      exact items?_readBack ih (by omega) []
  | @obj members h ih =>
    intro fuel rest hfuel _
    obtain ⟨fuel, rfl⟩ := exists_succ hfuel
    rw [toList_obj] at hfuel ⊢
    simp only [length_cons, length_append] at hfuel
    rw [cons_append, append_assoc]
    cases members with
    | nil => rfl
    | cons m members =>
      obtain ⟨more, hmore⟩ : ∃ more, (compactMembers (m :: members)).toList = '"' :: more := by
        cases members <;> simp [compactMembers, toList_quote]
      rw [hmore, cons_append, value?_brace, ← cons_append, ← hmore]
      exact members?_readBack ih (by omega) []

/-- The compact text of a plain tree is the text of that tree. -/
theorem parse?_compact (h : j.Plain) : parse? j.compact = some j := by
  have hread := h.readBack (2 * j.compact.toList.length + 2) [] (by omega) trivial
  rw [append_nil] at hread
  unfold parse?
  dsimp only
  rw [hread]
  rfl

end KernelForge.Json
