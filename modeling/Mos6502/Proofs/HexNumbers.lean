import Mathlib.Data.List.Forall2
import Mathlib.Data.List.TakeWhile
import Mathlib.Data.Nat.Digits.Defs
import Mos6502.Runner.Options

/-!
# Hexadecimal arguments

An address or an opcode on the command line is a hexadecimal number behind any dollar signs, then
any marks `0x`, then at most one plus sign. `IsHexNumber` is this grammar. The reader drops signs
and marks greedily, and that loses nothing: no dollar sign and no `x` can be a part of the number.
So a text is read exactly if it is such a number and small enough (`reads_hex_numbers`).
-/

namespace Mos6502

namespace Text

/-- The character is the hexadecimal digit with this value, in either case of letters. -/
def IsHexDigit (c : Char) (value : Nat) : Prop :=
  "0123456789abcdef".toList[value]? = some c ∨ "0123456789ABCDEF".toList[value]? = some c

instance (c : Char) (value : Nat) : Decidable (IsHexDigit c value) :=
  inferInstanceAs (Decidable (_ ∨ _))

/-- The digits are a number with this value, the most significant digit first. -/
def IsNumeral (digits : List Char) (n : Nat) : Prop :=
  ∃ values, List.Forall₂ IsHexDigit digits values ∧ Nat.ofDigits 16 values.reverse = n

/-- The text is made of dollar signs, marks, at most one plus sign, and the digits of a number. -/
def IsHexNumber (text : String) (n : Nat) : Prop :=
  ∃ (dollars marks : Nat) (plus digits : List Char),
    text.toList = List.replicate dollars '$' ++ ((List.replicate marks ['0', 'x']).flatten ++
      (plus ++ digits)) ∧
    (plus = [] ∨ plus = ['+']) ∧ digits ≠ [] ∧ IsNumeral digits n

/-! ## Digits -/

theorem toNat_lt_of_digitValue {c : Char} {d : Nat} (h : digitValue c = some d) :
    c.toNat < 128 := by
  have hle (c c' : Char) : c ≤ c' ↔ c.toNat ≤ c'.toNat := Iff.rfl
  simp only [digitValue, hle] at h
  split at h
  next hdigit => exact hdigit.2.trans_lt (by decide)
  split at h
  next hlower => exact hlower.2.trans_lt (by decide)
  split at h
  next hupper => exact hupper.2.trans_lt (by decide)
  next => cases h

/-- A character is read as a digit if it is one of either case. -/
theorem digit?_eq_some_iff {c : Char} {d : Nat} : digit? 16 c = some d ↔ IsHexDigit c d := by
  constructor
  · intro h
    have hascii : ∀ n < 128, (digit? 16 (Char.ofNat n)).all (IsHexDigit (Char.ofNat n) ·) := by
      decide +kernel
    obtain ⟨hvalue, -⟩ := Option.filter_eq_some_iff.mp h
    have hc := hascii c.toNat (toNat_lt_of_digitValue hvalue)
    rw [Char.ofNat_toNat, h] at hc
    simpa using hc
  · have hlower : ∀ d < 16, ("0123456789abcdef".toList[d]?).all (digit? 16 · = some d) := by
      decide +kernel
    have hupper : ∀ d < 16, ("0123456789ABCDEF".toList[d]?).all (digit? 16 · = some d) := by
      decide +kernel
    rintro (h | h)
    · have hd := hlower d (List.getElem?_eq_some_iff.mp h).1
      rw [h] at hd
      simpa using hd
    · have hd := hupper d (List.getElem?_eq_some_iff.mp h).1
      rw [h] at hd
      simpa using hd

/-- The marks in front of a number are no digits. -/
theorem IsHexDigit.ne {c : Char} {d : Nat} (h : IsHexDigit c d) : c ≠ '$' ∧ c ≠ 'x' ∧ c ≠ '+' := by
  rw [← digit?_eq_some_iff] at h
  refine ⟨?_, ?_, ?_⟩ <;> rintro rfl <;> cases h

/-- Neither the signs nor the `x` of a mark can be a digit. -/
theorem IsNumeral.ne_of_mem {digits : List Char} {n : Nat} (h : IsNumeral digits n) {c : Char}
    (hc : c ∈ digits) : c ≠ '$' ∧ c ≠ 'x' ∧ c ≠ '+' := by
  obtain ⟨values, hdigits, -⟩ := h
  obtain ⟨i, hi, rfl⟩ := List.getElem_of_mem hc
  exact (hdigits.get hi (hdigits.length_eq ▸ hi)).ne

/-- Each digit that is read moves those in front of it up one place. -/
theorem digitsFrom?_eq_some_iff {digits : List Char} {start n : Nat} :
    digitsFrom? 16 start digits = some n ↔
      ∃ values, List.Forall₂ IsHexDigit digits values ∧
        start * 16 ^ digits.length + Nat.ofDigits 16 values.reverse = n := by
  induction digits generalizing start with
  | nil =>
    rw [digitsFrom?, Option.some_inj]
    constructor
    · rintro rfl
      exact ⟨[], .nil, by simp⟩
    · rintro ⟨values, hvalues, rfl⟩
      cases hvalues
      simp
  | cons c rest ih =>
    rw [digitsFrom?, Option.bind_eq_some_iff]
    have hplace (d : Nat) (values : List Nat) (hlength : rest.length = values.length) :
        (start * 16 + d) * 16 ^ rest.length + Nat.ofDigits 16 values.reverse =
          start * 16 ^ (c :: rest).length + Nat.ofDigits 16 (d :: values).reverse := by
      rw [List.reverse_cons, Nat.ofDigits_append, Nat.ofDigits_singleton, List.length_reverse,
        ← hlength, List.length_cons, Nat.pow_succ]
      ring
    constructor
    · rintro ⟨d, hd, hrest⟩
      obtain ⟨values, hvalues, rfl⟩ := ih.mp hrest
      exact ⟨d :: values, .cons (digit?_eq_some_iff.mp hd) hvalues,
        (hplace d values hvalues.length_eq).symm⟩
    · rintro ⟨values, hvalues, rfl⟩
      cases hvalues with
      | cons hd hrest =>
        exact ⟨_, digit?_eq_some_iff.mpr hd, ih.mpr ⟨_, hrest, hplace _ _ hrest.length_eq⟩⟩

/-- Digits are read from the left, which gives them their usual places. -/
theorem isNumeral_iff {digits : List Char} {n : Nat} :
    digitsFrom? 16 0 digits = some n ↔ IsNumeral digits n := by
  simp only [digitsFrom?_eq_some_iff, Nat.zero_mul, Nat.zero_add, IsNumeral]

/-! ## Signs and marks -/

theorem exists_eq_append_dropPlus (cs : List Char) :
    ∃ plus, cs = plus ++ dropPlus cs ∧ (plus = [] ∨ plus = ['+']) := by
  unfold dropPlus
  split
  next rest => exact ⟨['+'], rfl, .inr rfl⟩
  next => exact ⟨[], rfl, .inl rfl⟩

theorem dropPlus_append {plus digits : List Char} {n : Nat} (hplus : plus = [] ∨ plus = ['+'])
    (hdigits : IsNumeral digits n) : dropPlus (plus ++ digits) = digits := by
  rcases hplus with rfl | rfl
  · rw [List.nil_append]
    unfold dropPlus
    split
    next => exact absurd rfl (hdigits.ne_of_mem List.mem_cons_self).2.2
    next => rfl
  · rfl

/-- An optional plus sign, at least one digit, and no more than the bound. -/
theorem unsigned?_eq_some_iff {bound n : Nat} {cs : List Char} :
    unsigned? 16 bound cs = some n ↔
      dropPlus cs ≠ [] ∧ IsNumeral (dropPlus cs) n ∧ n ≤ bound := by
  unfold unsigned?
  split
  next hnil => simp [hnil]
  next hdigits =>
    rw [Option.filter_eq_some_iff, isNumeral_iff, decide_eq_true_iff]
    exact (and_iff_right hdigits).symm

end Text

namespace Runner

/-- All the leading marks are dropped, not only the first one. -/
theorem exists_eq_append_dropHexMarks (cs : List Char) :
    ∃ marks, cs = (List.replicate marks ['0', 'x']).flatten ++ dropHexMarks cs := by
  fun_induction dropHexMarks cs with
  | case1 rest ih =>
    obtain ⟨marks, hmarks⟩ := ih
    exact ⟨marks + 1, congrArg ('0' :: 'x' :: ·) hmarks⟩
  | case2 cs => exact ⟨0, rfl⟩

/-- The marks are dropped up to where no `x` follows any more. -/
theorem dropHexMarks_append (marks : Nat) {cs : List Char} (h : 'x' ∉ cs) :
    dropHexMarks ((List.replicate marks ['0', 'x']).flatten ++ cs) = cs := by
  induction marks with
  | zero =>
    rw [List.replicate_zero, List.flatten_nil, List.nil_append]
    unfold dropHexMarks
    split
    next => exact absurd (by simp) h
    next => rfl
  | succ marks ih =>
    rw [List.replicate_succ, List.flatten_cons]
    exact ih

theorem exists_eq_append_dropWhile (cs : List Char) :
    ∃ dollars, cs = List.replicate dollars '$' ++ cs.dropWhile (· = '$') := by
  refine ⟨(cs.takeWhile (· = '$')).length, ?_⟩
  have hdollars : cs.takeWhile (· = '$') = List.replicate (cs.takeWhile (· = '$')).length '$' := by
    refine List.eq_replicate_of_mem fun c hc => ?_
    simpa using List.mem_takeWhile_imp hc
  rw [← hdollars, List.takeWhile_append_dropWhile]

/-- Dollar signs are dropped up to the first other character. -/
theorem dropWhile_append (dollars : Nat) {cs : List Char} (h : '$' ∉ cs) :
    (List.replicate dollars '$' ++ cs).dropWhile (· = '$') = cs := by
  rw [List.dropWhile_append_of_pos (by simp)]
  exact Text.dropWhile_eq_self fun c hc => decide_eq_false fun hdollar => h (hdollar ▸ hc)

/-- Reading is recognising the grammar. -/
theorem hex?_eq_some_iff {bound n : Nat} {text : String} :
    hex? bound text = some n ↔ Text.IsHexNumber text n ∧ n ≤ bound := by
  rw [hex?, Text.unsigned?_eq_some_iff]
  constructor
  · rintro ⟨hdigits, hnumeral, hbound⟩
    obtain ⟨dollars, hdollars⟩ := exists_eq_append_dropWhile text.toList
    obtain ⟨marks, hmarks⟩ := exists_eq_append_dropHexMarks (text.toList.dropWhile (· = '$'))
    obtain ⟨plus, hplus, hsign⟩ := Text.exists_eq_append_dropPlus
      (dropHexMarks (text.toList.dropWhile (· = '$')))
    refine ⟨⟨dollars, marks, plus, _, ?_, hsign, hdigits, hnumeral⟩, hbound⟩
    rw [← hplus, ← hmarks, ← hdollars]
  · rintro ⟨⟨dollars, marks, plus, digits, htext, hsign, hdigits, hnumeral⟩, hbound⟩
    -- Greedy dropping stops where the grammar says: nothing behind it looks like what it drops.
    have hclean : '$' ∉ plus ++ digits ∧ 'x' ∉ plus ++ digits := by
      have hplus : '$' ∉ plus ∧ 'x' ∉ plus := by rcases hsign with rfl | rfl <;> decide
      simp only [List.mem_append, not_or]
      exact ⟨⟨hplus.1, fun h => (hnumeral.ne_of_mem h).1 rfl⟩,
        hplus.2, fun h => (hnumeral.ne_of_mem h).2.1 rfl⟩
    have hmarks : '$' ∉ (List.replicate marks ['0', 'x']).flatten := by
      simp [List.mem_flatten, List.mem_replicate]
    have hrest : '$' ∉ (List.replicate marks ['0', 'x']).flatten ++ (plus ++ digits) := by
      rw [List.mem_append, not_or]
      exact ⟨hmarks, hclean.1⟩
    rw [htext, dropWhile_append dollars hrest, dropHexMarks_append marks hclean.2,
      Text.dropPlus_append hsign hnumeral]
    exact ⟨hdigits, hnumeral, hbound⟩

/-- A text is a number in one way at most. -/
theorem isHexNumber_unique {text : String} {n k : Nat} (hn : Text.IsHexNumber text n)
    (hk : Text.IsHexNumber text k) : n = k := by
  have hread : hex? (max n k) text = some n := hex?_eq_some_iff.mpr ⟨hn, le_max_left n k⟩
  rw [hex?_eq_some_iff.mpr ⟨hk, le_max_right n k⟩] at hread
  exact (Option.some.inj hread).symm

/-- A number is refused only for its size. -/
theorem hex?_eq_none_iff {bound n : Nat} {text : String} (h : Text.IsHexNumber text n) :
    hex? bound text = none ↔ bound < n := by
  rw [← not_le, Option.eq_none_iff_forall_ne_some]
  constructor
  · exact fun hnone hbound => hnone n (hex?_eq_some_iff.mpr ⟨h, hbound⟩)
  · intro hlarge k hk
    obtain ⟨hnumber, hbound⟩ := hex?_eq_some_iff.mp hk
    exact hlarge (isHexNumber_unique hnumber h ▸ hbound)

/-- A text is read as an address or as an opcode exactly if it is a hexadecimal number that fits,
and as the number that it is. So any other text is refused, and a number only if it is too large. -/
theorem reads_hex_numbers (text : String) :
    (∀ v : UInt16, address? text = some v ↔ Text.IsHexNumber text v.toNat) ∧
    (∀ v : UInt8, opcode? text = some v ↔ Text.IsHexNumber text v.toNat) ∧
    ∀ n, Text.IsHexNumber text n →
      (address? text = none ↔ 0xFFFF < n) ∧ (opcode? text = none ↔ 0xFF < n) := by
  refine ⟨fun v => ?_, fun v => ?_, fun n hn => ⟨?_, ?_⟩⟩
  · rw [address?, Option.map_eq_some_iff]
    constructor
    · rintro ⟨n, hn, rfl⟩
      obtain ⟨hnumber, hbound⟩ := hex?_eq_some_iff.mp hn
      rwa [UInt16.toNat_ofNat_of_lt' (Nat.lt_succ_of_le hbound)]
    · intro hnumber
      exact ⟨v.toNat, hex?_eq_some_iff.mpr ⟨hnumber, Nat.le_of_lt_succ v.toNat_lt⟩,
        UInt16.ofNat_toNat⟩
  · rw [opcode?, Option.map_eq_some_iff]
    constructor
    · rintro ⟨n, hn, rfl⟩
      obtain ⟨hnumber, hbound⟩ := hex?_eq_some_iff.mp hn
      rwa [UInt8.toNat_ofNat_of_lt' (Nat.lt_succ_of_le hbound)]
    · intro hnumber
      exact ⟨v.toNat, hex?_eq_some_iff.mpr ⟨hnumber, Nat.le_of_lt_succ v.toNat_lt⟩,
        UInt8.ofNat_toNat⟩
  · rw [address?, Option.map_eq_none_iff, hex?_eq_none_iff hn]
  · rw [opcode?, Option.map_eq_none_iff, hex?_eq_none_iff hn]

/-- Two dollar signs, two marks and a plus sign: an address, and too large for an opcode. -/
theorem reads_hex_numbers_marked :
    Text.IsHexNumber "$$0x0x+01aB" 0x1AB ∧ address? "$$0x0x+01aB" = some 0x1AB ∧
      opcode? "$$0x0x+01aB" = none := by
  have hnumeral : Text.IsNumeral "01aB".toList 0x1AB :=
    ⟨[0, 1, 10, 11], .cons (by decide) (.cons (by decide) (.cons (by decide)
      (.cons (by decide) .nil))), by decide⟩
  have hnumber : Text.IsHexNumber "$$0x0x+01aB" 0x1AB :=
    ⟨2, 2, ['+'], "01aB".toList, by decide, .inr rfl, by decide, hnumeral⟩
  obtain ⟨haddress, -, hrefused⟩ := reads_hex_numbers "$$0x0x+01aB"
  exact ⟨hnumber, (haddress 0x1AB).mpr hnumber, (hrefused 0x1AB hnumber).2.mpr (by decide)⟩

/-- The order of signs and marks is fixed, and no letter behind `f` is a digit. -/
example : address? "0x$1" = none ∧ address? "+$1" = none ∧ address? "00x1" = none ∧
    address? "0X1" = none ∧ address? "+" = none ∧ address? "1g" = none := by
  decide

end Runner

end Mos6502
