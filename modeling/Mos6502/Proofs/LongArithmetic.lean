import Mathlib.Data.Nat.Digits.Lemmas
import Mathlib.Order.RelClasses
import Mathlib.Tactic.Linarith
import Mathlib.Tactic.Positivity
import Mos6502.Proofs.Arithmetic

/-!
# Numbers of several bytes

A program adds and subtracts long numbers byte by byte, the lowest byte first, and the carry takes
what a byte cannot hold into the next one. `Alu.along` is such a pass over two numbers. What it
computes is said of the numbers as a whole (`along_carry`): sum and difference wrap at their length,
the last carry says whether they had to, and the last overflow flag whether the signed result needs
a longer number. A comparison of the lowest bytes may stand in for their subtraction.
-/

namespace Mos6502

open Reference (signed Fits)

/-! ## Bytes as digits -/

namespace LittleEndian

/-- The number that bytes stand for, the lowest byte first. -/
def number (vs : List UInt8) : Nat := Nat.ofDigits 256 (vs.map UInt8.toNat)

/-- The signed number that bytes stand for: the upper half of the numbers counts from below. -/
def signedNumber (vs : List UInt8) : Int :=
  if 2 * number vs < 256 ^ vs.length then number vs else (number vs : Int) - 256 ^ vs.length

/-- The number fits into so many bytes with a sign. -/
def FitsIn (n : Nat) (x : Int) : Prop := -(256 ^ n) ≤ 2 * x ∧ 2 * x < 256 ^ n

instance (n : Nat) (x : Int) : Decidable (FitsIn n x) := inferInstanceAs (Decidable (_ ∧ _))

variable {v : UInt8} {vs ws : List UInt8}

/-- The first byte is the lowest one. -/
theorem number_cons (v : UInt8) (vs : List UInt8) :
    number (v :: vs) = v.toNat + 256 * number vs :=
  Nat.ofDigits_cons

theorem number_lt (vs : List UInt8) : number vs < 256 ^ vs.length := by
  have hdigits : ∀ d ∈ vs.map UInt8.toNat, d < 256 := by
    intro d hd
    obtain ⟨v, -, rfl⟩ := List.mem_map.mp hd
    exact v.toNat_lt
  have hlt := Nat.ofDigits_lt_base_pow_length (by decide) hdigits
  rwa [List.length_map] at hlt

/-- Numbers of one length have the same bytes if they are equal. -/
theorem number_injective (hlength : vs.length = ws.length) (h : number vs = number ws) :
    vs = ws := by
  induction vs generalizing ws with
  | nil => exact (List.length_eq_zero_iff.mp hlength.symm).symm
  | cons v vs ih =>
    cases ws with
    | nil => cases hlength
    | cons w ws =>
      rw [number_cons, number_cons] at h
      have hv := v.toNat_lt
      have hw := w.toNat_lt
      have hlow : v = w := UInt8.toNat_inj.mp (by omega)
      rw [hlow, ih (Nat.succ.inj hlength) (by omega)]

theorem signedNumber_singleton (v : UInt8) : signedNumber [v] = signed v.toNat := by
  have hnumber : number [v] = v.toNat := Nat.ofDigits_singleton
  rw [signedNumber, signed, hnumber, List.length_singleton]
  split <;> split <;> omega

/-- The sign of a long number is that of its last byte. -/
theorem signedNumber_cons (v : UInt8) (h : vs ≠ []) :
    signedNumber (v :: vs) = v.toNat + 256 * signedNumber vs := by
  obtain ⟨w, rest, rfl⟩ := List.exists_cons_of_ne_nil h
  have hv := v.toNat_lt
  rw [signedNumber, signedNumber, number_cons v, List.length_cons, List.length_cons, Int.pow_succ,
    Int.pow_succ, Nat.pow_succ, Nat.pow_succ]
  push_cast
  generalize number (w :: rest) = x
  split <;> split <;> omega

/-- The top bit of a long number is its sign. -/
theorem testBit_top (h : vs ≠ []) :
    (number vs).testBit (8 * vs.length - 1) = decide (signedNumber vs < 0) := by
  induction vs with
  | nil => exact absurd rfl h
  | cons v rest ih =>
    have hv := v.toNat_lt
    cases rest with
    | nil =>
      have htop : v.toNat.testBit 7 = decide (128 ≤ v.toNat) :=
        Byte.forall_of_values (P := fun v => v.toNat.testBit 7 = decide (128 ≤ v.toNat))
          (by decide +kernel) v
      have hnumber : number [v] = v.toNat := Nat.ofDigits_singleton
      rw [signedNumber_singleton, hnumber, List.length_singleton, htop, signed, decide_eq_decide]
      split <;> omega
    | cons w rest =>
      have hnext := ih (List.cons_ne_nil w rest)
      have hposition : 8 * (v :: w :: rest).length - 1 = (8 * (w :: rest).length - 1) + 8 := by
        simp only [List.length_cons]
        omega
      have hshift : (v.toNat + 256 * number (w :: rest)) / 2 ^ 8 = number (w :: rest) := by omega
      rw [signedNumber_cons v (List.cons_ne_nil w rest), number_cons, hposition, Nat.testBit_add,
        hshift, hnext, decide_eq_decide]
      omega

/-- A byte below a number does not decide whether the number fits. -/
theorem fitsIn_succ {n : Nat} (hn : n ≠ 0) {low : Nat} (hlow : low < 256) (x : Int) :
    FitsIn (n + 1) (low + 256 * x) ↔ FitsIn n x := by
  obtain ⟨k, rfl⟩ := Nat.exists_eq_succ_of_ne_zero hn
  simp only [FitsIn, Int.pow_succ]
  omega

theorem fitsIn_one (x : Int) : FitsIn 1 x ↔ Fits x := by
  simp only [FitsIn, Fits, Int.pow_one]
  omega

/-! ## Complements -/

/-- A number and its complement sum to the highest number there is. -/
theorem number_complement (vs : List UInt8) :
    number (vs.map (· ^^^ 0xFF)) + number vs + 1 = 256 ^ vs.length := by
  induction vs with
  | nil => rfl
  | cons v vs ih =>
    have hv := v.toNat_lt
    rw [List.map_cons, number_cons, number_cons, Alu.toNat_complement, List.length_cons,
      Nat.pow_succ]
    omega

/-- The complement of a signed number is one below its negative. -/
theorem signedNumber_complement (h : vs ≠ []) :
    signedNumber (vs.map (· ^^^ 0xFF)) = -1 - signedNumber vs := by
  have hcomplement := number_complement vs
  have heven : 256 ^ vs.length % 2 = 0 := by
    obtain ⟨v, rest, rfl⟩ := List.exists_cons_of_ne_nil h
    rw [List.length_cons, Nat.pow_succ]
    omega
  have hcast : ((256 ^ vs.length : Nat) : Int) = 256 ^ vs.length := by push_cast; rfl
  rw [signedNumber, signedNumber, List.length_map, ← hcast]
  split <;> split <;> omega

end LittleEndian

open LittleEndian

namespace Alu

/-! ## Passes -/

/-- Apply an operation to two numbers byte by byte, the lowest bytes first. Each application leaves
its status to the next one. -/
def along (op : UInt8 → UInt8 → Status → UInt8 × Status) :
    List (UInt8 × UInt8) → Status → List UInt8 × Status
  | [], s => ([], s)
  | (a, b) :: rest, s =>
    let (v, next) := op a b s
    let (vs, last) := along op rest next
    (v :: vs, last)

variable {op : UInt8 → UInt8 → Status → UInt8 × Status}

theorem length_along (ps : List (UInt8 × UInt8)) (s : Status) :
    (along op ps s).1.length = ps.length := by
  induction ps generalizing s with
  | nil => rfl
  | cons p rest ih => exact congrArg (· + 1) (ih _)

/-- Sum and carry of two bytes lose nothing. -/
theorem add_exact (a b : UInt8) (s : Status) :
    (add a b s).1.toNat + 256 * (add a b s).2.carry.toNat = a.toNat + b.toNat + s.carry.toNat := by
  have ha := a.toNat_lt
  have hb := b.toNat_lt
  have hc := s.carry.toNat_le
  rw [toNat_add, carry_add]
  by_cases hwrap : 256 ≤ a.toNat + b.toNat + s.carry.toNat <;> simp only [hwrap, decide_true,
    decide_false, Bool.toNat_true, Bool.toNat_false] <;> omega

/-- Nor do sum and carry of long numbers. -/
theorem number_along_add (ps : List (UInt8 × UInt8)) (s : Status) :
    number (along add ps s).1 + 256 ^ ps.length * (along add ps s).2.carry.toNat =
      number (ps.map (·.1)) + number (ps.map (·.2)) + s.carry.toNat := by
  induction ps generalizing s with
  | nil => exact congrArg (0 + ·) (Nat.one_mul _)
  | cons p rest ih =>
    obtain ⟨a, b⟩ := p
    have hlow := add_exact a b s
    have hhigh := ih (add a b s).2
    simp only [along, List.map_cons, number_cons, List.length_cons, Nat.pow_succ']
    rw [Nat.mul_assoc]
    omega

/-- The last carry says that the sum does not fit, the first carry included. -/
theorem carry_along_add (ps : List (UInt8 × UInt8)) (s : Status) :
    (along add ps s).2.carry =
      decide (256 ^ ps.length ≤ number (ps.map (·.1)) + number (ps.map (·.2)) + s.carry.toNat) := by
  have hexact := number_along_add ps s
  have hlt := number_lt (along add ps s).1
  rw [length_along] at hlt
  cases hcarry : (along add ps s).2.carry <;> rw [hcarry] at hexact <;> simp at hexact ⊢ <;> omega

/-- The signed result fits exactly if the last addition says so. -/
theorem overflow_along_add {ps : List (UInt8 × UInt8)} (h : ps ≠ []) (s : Status) :
    (along add ps s).2.overflow =
      decide (¬ FitsIn ps.length
        (signedNumber (ps.map (·.1)) + signedNumber (ps.map (·.2)) + s.carry.toNat)) := by
  induction ps generalizing s with
  | nil => exact absurd rfl h
  | cons p rest ih =>
    obtain ⟨a, b⟩ := p
    cases rest with
    | nil =>
      simp only [List.map_cons, List.map_nil, List.length_singleton, signedNumber_singleton,
        fitsIn_one]
      exact overflow_add a b s
    | cons q rest =>
      -- The lowest byte of the sum stays below what the higher bytes decide.
      have hlow := add_exact a b s
      have hhigh := ih (List.cons_ne_nil q rest) (add a b s).2
      have hfirst : signedNumber (((a, b) :: q :: rest).map (·.1)) =
          a.toNat + 256 * signedNumber ((q :: rest).map (·.1)) :=
        signedNumber_cons a (List.cons_ne_nil _ _)
      have hsecond : signedNumber (((a, b) :: q :: rest).map (·.2)) =
          b.toNat + 256 * signedNumber ((q :: rest).map (·.2)) :=
        signedNumber_cons b (List.cons_ne_nil _ _)
      have hsum (x y : Int) : (a.toNat + 256 * x) + (b.toNat + 256 * y) + s.carry.toNat =
          (add a b s).1.toNat + 256 * (x + y + (add a b s).2.carry.toNat) := by omega
      have hfits := fitsIn_succ (Nat.succ_ne_zero rest.length) (add a b s).1.toNat_lt
      rw [hfirst, hsecond, hsum, List.length_cons, List.length_cons,
        decide_eq_decide.mpr (not_congr (hfits _))]
      exact hhigh

/-- The sign flag describes the last byte, and so the whole number. -/
theorem negative_along {ps : List (UInt8 × UInt8)}
    (hop : ∀ a b s, (op a b s).2.negative = decide (128 ≤ (op a b s).1.toNat)) (h : ps ≠ [])
    (s : Status) : (along op ps s).2.negative = decide (signedNumber (along op ps s).1 < 0) := by
  induction ps generalizing s with
  | nil => exact absurd rfl h
  | cons p rest ih =>
    obtain ⟨a, b⟩ := p
    cases rest with
    | nil =>
      have hv := (op a b s).1.toNat_lt
      change (op a b s).2.negative = decide (signedNumber [(op a b s).1] < 0)
      rw [hop, signedNumber_singleton, signed, decide_eq_decide]
      split <;> omega
    | cons q rest =>
      have hhigh := ih (List.cons_ne_nil q rest) (op a b s).2
      have hv := (op a b s).1.toNat_lt
      have hne : (along op (q :: rest) (op a b s).2).1 ≠ [] := List.cons_ne_nil _ _
      change (along op (q :: rest) (op a b s).2).2.negative =
        decide (signedNumber ((op a b s).1 :: (along op (q :: rest) (op a b s).2).1) < 0)
      rw [hhigh, signedNumber_cons _ hne, decide_eq_decide]
      omega

/-! ## Differences -/

/-- Subtracting a long number is adding its complement. -/
theorem along_subtract (ps : List (UInt8 × UInt8)) (s : Status) :
    along subtract ps s = along add (ps.map fun p => (p.1, p.2 ^^^ 0xFF)) s := by
  induction ps generalizing s with
  | nil => rfl
  | cons p rest ih =>
    obtain ⟨a, b⟩ := p
    simp only [along, List.map_cons, ih, subtract]

section Complement

variable (ps : List (UInt8 × UInt8))

theorem map_fst_complement :
    (ps.map fun p => (p.1, p.2 ^^^ 0xFF)).map (·.1) = ps.map (·.1) := by
  rw [List.map_map]
  rfl

theorem map_snd_complement :
    (ps.map fun p => (p.1, p.2 ^^^ 0xFF)).map (·.2) = (ps.map (·.2)).map (· ^^^ 0xFF) := by
  rw [List.map_map, List.map_map]
  rfl

end Complement

/-- Difference and missing borrow lose nothing. -/
theorem number_along_subtract (ps : List (UInt8 × UInt8)) (s : Status) :
    number (along subtract ps s).1 + number (ps.map (·.2)) + 1 +
        256 ^ ps.length * (along subtract ps s).2.carry.toNat =
      256 ^ ps.length + number (ps.map (·.1)) + s.carry.toNat := by
  have hexact := number_along_add (ps.map fun p => (p.1, p.2 ^^^ 0xFF)) s
  have hcomplement := number_complement (ps.map (·.2))
  rw [map_fst_complement, map_snd_complement, List.length_map, ← along_subtract] at hexact
  rw [List.length_map] at hcomplement
  omega

/-- The last carry says that nothing was borrowed. -/
theorem carry_along_subtract (ps : List (UInt8 × UInt8)) (s : Status) :
    (along subtract ps s).2.carry =
      decide (number (ps.map (·.2)) + 1 ≤ number (ps.map (·.1)) + s.carry.toNat) := by
  have hexact := number_along_subtract ps s
  have hlt := number_lt (along subtract ps s).1
  rw [length_along] at hlt
  cases hcarry : (along subtract ps s).2.carry <;> rw [hcarry] at hexact <;> simp at hexact ⊢ <;>
    omega

/-- The last overflow says that the signed difference does not fit. -/
theorem overflow_along_subtract {ps : List (UInt8 × UInt8)} (h : ps ≠ []) (s : Status) :
    (along subtract ps s).2.overflow =
      decide (¬ FitsIn ps.length
        (signedNumber (ps.map (·.1)) - signedNumber (ps.map (·.2)) - (1 - s.carry.toNat))) := by
  have hne : (ps.map (·.2)) ≠ [] := by simpa using h
  rw [along_subtract, overflow_along_add (by simpa using h), map_fst_complement,
    map_snd_complement, List.length_map, signedNumber_complement hne, decide_eq_decide]
  have hsum : signedNumber (ps.map (·.1)) + (-1 - signedNumber (ps.map (·.2))) + s.carry.toNat =
      signedNumber (ps.map (·.1)) - signedNumber (ps.map (·.2)) - (1 - s.carry.toNat) := by omega
  rw [hsum]

theorem negative_add (a b : UInt8) (s : Status) :
    (add a b s).2.negative = decide (128 ≤ (add a b s).1.toNat) :=
  Byte.and_top _

theorem negative_subtract (a b : UInt8) (s : Status) :
    (subtract a b s).2.negative = decide (128 ≤ (subtract a b s).1.toNat) :=
  negative_add a (b ^^^ 0xFF) s

/-- The sign of a difference, turned round where it overflows, tells which number is the smaller. -/
theorem negative_ne_overflow_iff {ps : List (UInt8 × UInt8)} (h : ps ≠ []) {s : Status}
    (hcarry : s.carry = true) :
    (along subtract ps s).2.negative ≠ (along subtract ps s).2.overflow ↔
      signedNumber (ps.map (·.1)) < signedNumber (ps.map (·.2)) := by
  have hexact := number_along_subtract ps s
  have hfirst := number_lt (ps.map (·.1))
  have hsecond := number_lt (ps.map (·.2))
  have hresult := number_lt (along subtract ps s).1
  have hcast : ((256 ^ ps.length : Nat) : Int) = 256 ^ ps.length := by push_cast; rfl
  rw [negative_along negative_subtract h, overflow_along_subtract h, Ne, decide_eq_decide, FitsIn,
    signedNumber, signedNumber, signedNumber, List.length_map, List.length_map, length_along,
    ← hcast, hcarry, Bool.toNat_true]
  rw [hcarry, Bool.toNat_true] at hexact
  rw [List.length_map] at hfirst hsecond
  rw [length_along] at hresult
  generalize number (along subtract ps s).1 = r at *
  generalize number (ps.map (·.1)) = a at *
  generalize number (ps.map (·.2)) = b at *
  generalize 256 ^ ps.length = top at *
  rcases Bool.eq_false_or_eq_true (along subtract ps s).2.carry with hlast | hlast <;>
    simp only [hlast, Bool.toNat_false, Bool.toNat_true] at hexact <;>
    split <;> split <;> split <;> omega

/-- Subtracting what was added gives back every byte. -/
theorem along_subtract_along_add {A B : List UInt8} (hlength : A.length = B.length) {s t : Status}
    (hs : s.carry = false) (ht : t.carry = true) :
    (along subtract ((along add (A.zip B) s).1.zip B) t).1 = A := by
  have hzip : (A.zip B).length = A.length := by rw [List.length_zip, hlength, Nat.min_self]
  have hsum := number_along_add (A.zip B) s
  have hsize : (along add (A.zip B) s).1.length = (A.zip B).length := length_along _ s
  generalize along add (A.zip B) s = sum at *
  have hback := number_along_subtract (sum.1.zip B) t
  have hsize' : (along subtract (sum.1.zip B) t).1.length = (sum.1.zip B).length :=
    length_along _ t
  have hzip' : (sum.1.zip B).length = A.length := by
    rw [List.length_zip, hsize, hzip, hlength, Nat.min_self]
  have hA := number_lt A
  have hX := number_lt (along subtract (sum.1.zip B) t).1
  rw [List.map_fst_zip (by omega), List.map_snd_zip (by omega), hzip, hs, Bool.toNat_false] at hsum
  rw [List.map_fst_zip (by omega), List.map_snd_zip (by omega), hzip', ht, Bool.toNat_true] at hback
  rw [hsize', hzip'] at hX
  refine number_injective (hsize'.trans hzip') ?_
  rcases Bool.eq_false_or_eq_true sum.2.carry with hup | hup <;>
    rcases Bool.eq_false_or_eq_true (along subtract (sum.1.zip B) t).2.carry with hdown | hdown <;>
    simp only [hup, hdown, Bool.toNat_false, Bool.toNat_true] at hsum hback <;> omega

/-! ## What the status has to do with it -/

/-- A difference depends on the status through the carry alone. -/
theorem along_subtract_congr {s t : Status} (h : s.carry = t.carry) (ps : List (UInt8 × UInt8)) :
    (along subtract ps s).1 = (along subtract ps t).1 ∧
      (along subtract ps s).2.carry = (along subtract ps t).2.carry := by
  induction ps generalizing s t with
  | nil => exact ⟨rfl, h⟩
  | cons p rest ih =>
    obtain ⟨a, b⟩ := p
    have hresult : (subtract a b s).1 = (subtract a b t).1 := by
      rw [← UInt8.toNat_inj, toNat_subtract, toNat_subtract, h]
    have hcarry : (subtract a b s).2.carry = (subtract a b t).2.carry := by
      rw [carry_subtract, carry_subtract, h]
    obtain ⟨hbytes, hlast⟩ := ih hcarry
    exact ⟨congrArg₂ _ hresult hbytes, hlast⟩

end Alu

/-- Interrupts, decimal mode and the framing bits are as they were. -/
structure Status.SameModes (s t : Status) : Prop where
  irqDisable : t.irqDisable = s.irqDisable
  decimal : t.decimal = s.decimal
  breakBit : t.breakBit = s.breakBit
  unused : t.unused = s.unused

namespace Alu

open Status (SameModes)

instance : IsPreorder Status SameModes where
  refl _ := ⟨rfl, rfl, rfl, rfl⟩
  trans _ _ _ h k := ⟨k.irqDisable.trans h.irqDisable, k.decimal.trans h.decimal,
    k.breakBit.trans h.breakBit, k.unused.trans h.unused⟩

theorem sameModes_add (a b : UInt8) (s : Status) : SameModes s (add a b s).2 :=
  ⟨rfl, rfl, rfl, rfl⟩

theorem sameModes_subtract (a b : UInt8) (s : Status) : SameModes s (subtract a b s).2 :=
  sameModes_add a (b ^^^ 0xFF) s

theorem sameModes_compare (a b : UInt8) (s : Status) : SameModes s (compare a b s) :=
  ⟨rfl, rfl, rfl, rfl⟩

theorem sameModes_along {op : UInt8 → UInt8 → Status → UInt8 × Status}
    (hop : ∀ a b s, SameModes s (op a b s).2) (ps : List (UInt8 × UInt8)) (s : Status) :
    SameModes s (along op ps s).2 := by
  induction ps generalizing s with
  | nil => exact refl s
  | cons p rest ih => exact IsTrans.trans _ _ _ (hop p.1 p.2 s) (ih (op p.1 p.2 s).2)

/-! ## Sum and difference of long numbers -/

/-- The bytes and the flags are those of the sum of two long numbers and a carry. -/
structure IsSum (A B : List UInt8) (s : Status) (result : List UInt8 × Status) : Prop where
  length : result.1.length = A.length
  bytes : number result.1 = (number A + number B + s.carry.toNat) % 256 ^ A.length
  carry : result.2.carry = true ↔ 256 ^ A.length ≤ number A + number B + s.carry.toNat
  overflow : result.2.overflow = true ↔
    ¬ FitsIn A.length (signedNumber A + signedNumber B + s.carry.toNat)
  negative : result.2.negative = (number result.1).testBit (8 * A.length - 1)
  modes : SameModes s result.2

/-- The bytes and the flags are those of the difference of two long numbers, less one if the carry
is clear. -/
structure IsDifference (A B : List UInt8) (s : Status) (result : List UInt8 × Status) : Prop where
  length : result.1.length = A.length
  bytes : (number result.1 : Int) =
    ((number A : Int) - number B - (1 - s.carry.toNat)) % 256 ^ A.length
  carry : result.2.carry = true ↔ number B + (1 - s.carry.toNat) ≤ number A
  overflow : result.2.overflow = true ↔
    ¬ FitsIn A.length (signedNumber A - signedNumber B - (1 - s.carry.toNat))
  negative : result.2.negative = (number result.1).testBit (8 * A.length - 1)
  modes : SameModes s result.2

section Results

variable {A B : List UInt8} (hlength : A.length = B.length)

include hlength

theorem length_zip : (A.zip B).length = A.length := by
  rw [List.length_zip, ← hlength, Nat.min_self]

theorem length_along_zip (s : Status) : (along op (A.zip B) s).1.length = A.length :=
  (length_along _ s).trans (length_zip hlength)

theorem zip_ne_nil (hne : A ≠ []) : A.zip B ≠ [] := by
  rw [← List.length_pos_iff, length_zip hlength]
  exact List.length_pos_iff.mpr hne

/-- The sign flag behind a pass is the top bit of the result. -/
theorem negative_along_zip
    (hop : ∀ a b s, (op a b s).2.negative = decide (128 ≤ (op a b s).1.toNat)) (hne : A ≠ [])
    (s : Status) : (along op (A.zip B) s).2.negative =
      (number (along op (A.zip B) s).1).testBit (8 * A.length - 1) := by
  have hlong : (along op (A.zip B) s).1.length = A.length := length_along_zip hlength s
  have hresult : (along op (A.zip B) s).1 ≠ [] := by
    rw [← List.length_pos_iff, hlong]
    exact List.length_pos_iff.mpr hne
  rw [negative_along hop (zip_ne_nil hlength hne), ← testBit_top hresult, hlong]

/-- A chain of additions is the addition of long numbers. -/
theorem isSum_along_add (hne : A ≠ []) (s : Status) : IsSum A B s (along add (A.zip B) s) := by
  have hfirst : (A.zip B).map (·.1) = A := List.map_fst_zip hlength.le
  have hsecond : (A.zip B).map (·.2) = B := List.map_snd_zip hlength.ge
  have hlt := number_lt (along add (A.zip B) s).1
  have hexact := number_along_add (A.zip B) s
  rw [hfirst, hsecond, length_zip hlength] at hexact
  rw [length_along_zip hlength] at hlt
  exact {
    length := length_along_zip hlength s
    bytes := by rw [← hexact, Nat.add_mul_mod_self_left, Nat.mod_eq_of_lt hlt]
    carry := by
      rw [carry_along_add, decide_eq_true_iff, hfirst, hsecond, length_zip hlength]
    overflow := by
      rw [overflow_along_add (zip_ne_nil hlength hne), decide_eq_true_iff, hfirst, hsecond,
        length_zip hlength]
    negative := negative_along_zip hlength negative_add hne s
    modes := sameModes_along sameModes_add _ s }

/-- A chain of subtractions is the subtraction of long numbers. -/
theorem isDifference_along_subtract (hne : A ≠ []) (s : Status) :
    IsDifference A B s (along subtract (A.zip B) s) := by
  have hfirst : (A.zip B).map (·.1) = A := List.map_fst_zip hlength.le
  have hsecond : (A.zip B).map (·.2) = B := List.map_snd_zip hlength.ge
  have hlt := number_lt (along subtract (A.zip B) s).1
  have hexact := number_along_subtract (A.zip B) s
  have hcarry := s.carry.toNat_le
  rw [hfirst, hsecond, length_zip hlength] at hexact
  rw [length_along_zip hlength] at hlt
  -- A missing borrow takes the top away that the complement has added.
  have hdifference : (number A : Int) - number B - (1 - s.carry.toNat) =
      number (along subtract (A.zip B) s).1 +
        256 ^ A.length * ((along subtract (A.zip B) s).2.carry.toNat - 1) := by
    have hcast := congrArg (Nat.cast (R := Int)) hexact
    push_cast at hcast
    linarith
  have hsmall : (number (along subtract (A.zip B) s).1 : Int) < 256 ^ A.length := by
    exact_mod_cast hlt
  exact {
    length := length_along_zip hlength s
    bytes := by
      rw [hdifference, Int.add_mul_emod_self_left, Int.emod_eq_of_lt (by positivity) hsmall]
    carry := by
      rw [carry_along_subtract, decide_eq_true_iff, hfirst, hsecond]
      omega
    overflow := by
      rw [overflow_along_subtract (zip_ne_nil hlength hne), decide_eq_true_iff, hfirst, hsecond,
        length_zip hlength]
    negative := negative_along_zip hlength negative_subtract hne s
    modes := sameModes_along sameModes_subtract _ s }

end Results

/-- Addition and subtraction of long numbers, byte by byte with the carry threaded through the
status. The passes give sum and difference of the numbers as a whole, with the flags of the whole;
the difference tells which of two signed numbers is the smaller, and taking it of a sum gives the
first number back. A comparison in place of the lowest subtraction leaves the overflow flag, and to
the higher bytes the same carry. -/
theorem along_carry {A B : List UInt8} (hlength : A.length = B.length) (hne : A ≠ [])
    (s : Status) :
    let sum := along add (A.zip B) s
    let difference := along subtract (A.zip B) s
    IsSum A B s sum ∧ IsDifference A B s difference ∧
      (s.carry = true → (difference.2.negative ≠ difference.2.overflow ↔
        signedNumber A < signedNumber B)) ∧
      (s.carry = false → ∀ t : Status, t.carry = true →
        (along subtract (sum.1.zip B) t).1 = A) ∧
      ∀ (a b : UInt8) (rest : List (UInt8 × UInt8)),
        let whole := along subtract ((a, b) :: rest) { s with carry := true }
        let compared := along subtract rest (compare a b s)
        (compare a b s).overflow = s.overflow ∧ compared.2.carry = whole.2.carry ∧
          compared.1 = whole.1.tail ∧ SameModes s compared.2 := by
  intro sum difference
  refine ⟨isSum_along_add hlength hne s, isDifference_along_subtract hlength hne s,
    fun hcarry => ?_, fun hs t ht => along_subtract_along_add hlength hs ht, fun a b rest => ?_⟩
  · have hiff := negative_ne_overflow_iff (zip_ne_nil hlength hne) hcarry
    rwa [List.map_fst_zip hlength.le, List.map_snd_zip hlength.ge] at hiff
  · intro whole compared
    have hcarry : (compare a b s).carry = (subtract a b { s with carry := true }).2.carry := rfl
    obtain ⟨hbytes, hlast⟩ := along_subtract_congr hcarry rest
    have hmodes : SameModes s compared.2 := IsTrans.trans _ _ _ (sameModes_compare a b s)
      (sameModes_along sameModes_subtract rest (compare a b s))
    exact ⟨rfl, hlast, hbytes, hmodes⟩

/-- The sum of `$7FFF` and `$0001` takes the place of the sign. -/
theorem along_carry_into_sign :
    let A : List UInt8 := [0xFF, 0x7F]
    let B : List UInt8 := [0x01, 0x00]
    let s : Status := { decimal := true }
    let sum := along add (A.zip B) s
    A.length = B.length ∧ A ≠ [] ∧ sum.1 = [0x00, 0x80] ∧ IsSum A B s sum ∧
      sum.2 = { decimal := true, overflow := true, negative := true } ∧
      (along subtract (sum.1.zip B) { carry := true }).1 = A := by
  intro A B s sum
  have hresults := along_carry (A := A) (B := B) (by decide) (by decide) s
  exact ⟨by decide, by decide, by decide, hresults.1, by decide,
    hresults.2.2.2.1 rfl { carry := true } rfl⟩

end Alu

end Mos6502
