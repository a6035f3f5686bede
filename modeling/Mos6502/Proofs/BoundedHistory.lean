import Mathlib.Data.List.DropRight
import Mos6502.History

/-!
# Histories of bounded length

A history holds the last of the lines that were pushed since it was cleared. Old lines are let go
when there is no room for a new one, or when the capacity sinks, and what was let go does not come
back when the capacity grows. So what is left depends on every capacity that there was on the way:
it is the most that any record of the lines could hold that stays within the capacity in effect and
cannot bring back a line (`Holdable`, `keeps_longest_suffix`).
-/

namespace Mos6502.History

/-! ## The end of a list -/

/-- What is kept of the last lines is what is kept of all and is short enough. -/
theorem suffix_rtake_iff {α : Type} {kept l : List α} {n : Nat} :
    kept <:+ l.rtake n ↔ kept <:+ l ∧ kept.length ≤ n := by
  rw [List.rtake]
  constructor
  · intro h
    have hlength := h.length_le
    rw [List.length_drop] at hlength
    exact ⟨h.trans (List.drop_suffix _ l), by omega⟩
  · rintro ⟨⟨front, rfl⟩, hlength⟩
    rw [List.length_append, List.drop_append_of_le_length (by omega)]
    exact List.suffix_append _ kept

theorem length_rtake {α : Type} (l : List α) (n : Nat) : (l.rtake n).length = min l.length n := by
  rw [List.rtake, List.length_drop]
  omega

/-- What has been cut off does not come back when something is added. -/
theorem rtake_append_of_rtake {α : Type} (l new : List α) (n : Nat) :
    (l.rtake n ++ new).rtake n = (l ++ new).rtake n := by
  simp only [List.rtake_eq_reverse_take_reverse, List.reverse_append, List.reverse_reverse,
    List.take_append, List.take_take, Nat.min_eq_left (Nat.sub_le _ _)]

/-! ## One change -/

theorem rtake_lines {h : History} {n : Nat} (hroom : h.size ≤ n) : h.lines.rtake n = h.lines := by
  rw [List.rtake, length_lines, Nat.sub_eq_zero_of_le hroom, List.drop_zero]

/-- A line is put behind the others, and the oldest make way for it. -/
theorem lines_push {h : History} (hfits : h.size ≤ h.capacity) (line : String) :
    (h.push line).lines = (h.lines ++ [line]).rtake h.capacity := by
  unfold push
  split
  next hzero => rw [hzero, List.rtake_zero, ← rtake_lines hfits, hzero, List.rtake_zero]
  next hpos =>
    obtain ⟨n, hn⟩ := Nat.exists_eq_succ_of_ne_zero hpos
    have happend : ((h.shrink n).append line).lines = (h.shrink n).lines ++ [line] := by
      simp [append, lines]
    rw [hn, Nat.succ_sub_one, happend, lines_shrink, List.rtake_concat_succ, List.rtake,
      length_lines]

/-- A smaller capacity drops the oldest lines. -/
theorem lines_setCapacity (h : History) (n : Nat) : (h.setCapacity n).lines = h.lines.rtake n := by
  rw [setCapacity, lines_shrink, List.rtake, length_lines]
  rfl

/-! ## Many lines -/

def pushAll (h : History) (lines : List String) : History := lines.foldl push h

theorem pushAll_append (h : History) (lines more : List String) :
    h.pushAll (lines ++ more) = (h.pushAll lines).pushAll more := List.foldl_append

theorem capacity_pushAll (h : History) (new : List String) :
    (h.pushAll new).capacity = h.capacity := by
  induction new generalizing h with
  | nil => rfl
  | cons line rest ih => exact (ih _).trans (h.capacity_push line)

/-- Of all the lines the last are left. -/
theorem lines_pushAll {h : History} (hfits : h.size ≤ h.capacity) (new : List String) :
    (h.pushAll new).lines = (h.lines ++ new).rtake h.capacity := by
  induction new generalizing h with
  | nil => rw [List.append_nil, rtake_lines hfits]; rfl
  | cons line rest ih =>
    have hpush := size_push_le hfits line
    rw [← h.capacity_push line] at hpush
    calc ((h.push line).pushAll rest).lines
        = ((h.push line).lines ++ rest).rtake (h.push line).capacity := ih hpush
      _ = ((h.lines ++ [line]).rtake h.capacity ++ rest).rtake h.capacity := by
          rw [lines_push hfits, h.capacity_push]
      _ = (h.lines ++ line :: rest).rtake h.capacity := by
          rw [rtake_append_of_rtake, List.append_assoc, List.singleton_append]

theorem size_pushAll_le {h : History} (hfits : h.size ≤ h.capacity) (new : List String) :
    (h.pushAll new).size ≤ h.capacity := by
  rw [← length_lines, lines_pushAll hfits, length_rtake]
  exact Nat.min_le_right _ _

/-! ## Edits of a history -/

inductive Edit where
  | push (line : String)
  | setCapacity (capacity : Nat)
  | clear

namespace Edit

def apply : Edit → History → History
  | push line, h => h.push line
  | setCapacity capacity, h => h.setCapacity capacity
  | clear, h => h.clear

def isClear : Edit → Bool
  | clear => true
  | _ => false

def line? : Edit → Option String
  | push line => some line
  | _ => none

def capacity? : Edit → Option Nat
  | setCapacity capacity => some capacity
  | _ => none

end Edit

/-- The history behind edits of an empty one with this capacity. -/
def after (initial : Nat) (edits : List Edit) : History :=
  edits.foldl (fun h x => x.apply h) (.ofCapacity initial)

/-- The lines pushed since the last edit that cleared the history, oldest first. -/
def pushed (edits : List Edit) : List String :=
  (edits.rtakeWhile fun x => !x.isClear).filterMap (·.line?)

/-- The capacity in effect behind some edits: the one that was set last. -/
def capacityIn (initial : Nat) (edits : List Edit) : Nat :=
  (edits.filterMap (·.capacity?)).getLastD initial

/-- A record of the lines can hold these behind some edits. It may let go of its oldest lines at any
time, and it must stay within the capacity in effect, but it never gets a line back. -/
inductive Holdable (initial : Nat) : List Edit → List String → Prop
  | nil : Holdable initial [] []
  | push {edits : List Edit} {held kept : List String} {line : String}
      (before : Holdable initial edits held) (suffix : kept <:+ held ++ [line])
      (fits : kept.length ≤ capacityIn initial edits) :
      Holdable initial (edits ++ [.push line]) kept
  | setCapacity {edits : List Edit} {held kept : List String} {capacity : Nat}
      (before : Holdable initial edits held) (suffix : kept <:+ held)
      (fits : kept.length ≤ capacity) :
      Holdable initial (edits ++ [.setCapacity capacity]) kept
  | clear {edits : List Edit} {held : List String} (before : Holdable initial edits held) :
      Holdable initial (edits ++ [.clear]) []

section Edits

variable (initial : Nat) (edits : List Edit)

theorem after_concat (x : Edit) : after initial (edits ++ [x]) = x.apply (after initial edits) :=
  List.foldl_concat ..

theorem pushed_push (line : String) : pushed (edits ++ [.push line]) = pushed edits ++ [line] := by
  rw [pushed, List.rtakeWhile_concat_pos _ _ _ (by rfl), List.filterMap_append]
  rfl

theorem pushed_setCapacity (capacity : Nat) :
    pushed (edits ++ [.setCapacity capacity]) = pushed edits := by
  rw [pushed, List.rtakeWhile_concat_pos _ _ _ (by rfl), List.filterMap_append]
  exact List.append_nil _

theorem capacityIn_setCapacity (capacity : Nat) :
    capacityIn initial (edits ++ [.setCapacity capacity]) = capacity := by
  rw [capacityIn, List.filterMap_append]
  exact List.getLastD_concat

/-- An edit that names no capacity keeps the one in force. -/
theorem capacityIn_of_none {x : Edit} (h : x.capacity? = none) :
    capacityIn initial (edits ++ [x]) = capacityIn initial edits := by
  rw [capacityIn, List.filterMap_append, List.filterMap_cons_none h, List.filterMap_nil,
    List.append_nil, capacityIn]

/-- The capacity of a history is the one in effect, and the history keeps within it. -/
theorem fits_after :
    (after initial edits).capacity = capacityIn initial edits ∧
      (after initial edits).size ≤ capacityIn initial edits := by
  induction edits using List.reverseRecOn with
  | nil => exact ⟨rfl, Nat.zero_le _⟩
  | append_singleton edits x ih =>
    obtain ⟨hcapacity, hsize⟩ := ih
    rw [after_concat]
    cases x with
    | push line =>
      rw [capacityIn_of_none _ _ rfl, ← hcapacity]
      exact ⟨capacity_push _ line, size_push_le (hsize.trans_eq hcapacity.symm) line⟩
    | setCapacity capacity =>
      have hset := capacity_setCapacity (after initial edits) capacity
      rw [capacityIn_setCapacity]
      exact ⟨hset, (size_setCapacity_le _ capacity).trans_eq hset⟩
    | clear =>
      rw [capacityIn_of_none _ _ rfl]
      exact ⟨hcapacity, Nat.zero_le _⟩

theorem lines_after_push (line : String) :
    (after initial (edits ++ [.push line])).lines =
      ((after initial edits).lines ++ [line]).rtake (capacityIn initial edits) := by
  obtain ⟨hcapacity, hsize⟩ := fits_after initial edits
  rw [← hcapacity] at hsize ⊢
  rw [after_concat]
  exact lines_push hsize line

/-- A smaller capacity drops the oldest lines, a larger one gives none of them back. -/
theorem lines_after_setCapacity (capacity : Nat) :
    (after initial (edits ++ [.setCapacity capacity])).lines =
      (after initial edits).lines.rtake capacity := by
  rw [after_concat]
  exact lines_setCapacity _ capacity

theorem size_after_push (line : String) :
    (after initial (edits ++ [.push line])).size =
      min ((after initial edits).size + 1) (capacityIn initial edits) := by
  rw [← length_lines, lines_after_push, length_rtake, List.length_append, length_lines]
  rfl

theorem size_after_setCapacity (capacity : Nat) :
    (after initial (edits ++ [.setCapacity capacity])).size =
      min (after initial edits).size capacity := by
  rw [← length_lines, lines_after_setCapacity, length_rtake, length_lines]

theorem lines_after_clear : (after initial (edits ++ [.clear])).lines = [] := by
  rw [after_concat]
  rfl

/-- What a history holds are the newest of the lines that were pushed. -/
theorem lines_suffix_pushed : (after initial edits).lines <:+ pushed edits := by
  induction edits using List.reverseRecOn with
  | nil => exact List.suffix_rfl
  | append_singleton edits x ih =>
    cases x with
    | push line =>
      obtain ⟨front, hfront⟩ := ih
      rw [lines_after_push, pushed_push, ← hfront, List.append_assoc]
      exact (List.drop_suffix _ _).trans (List.suffix_append _ _)
    | setCapacity capacity =>
      rw [lines_after_setCapacity, pushed_setCapacity]
      exact (List.drop_suffix _ _).trans ih
    | clear =>
      rw [lines_after_clear]
      exact List.nil_suffix

/-- What a history holds has fitted into every capacity since it was pushed. -/
theorem holdable_lines : Holdable initial edits (after initial edits).lines := by
  induction edits using List.reverseRecOn with
  | nil => exact .nil
  | append_singleton edits x ih =>
    cases x with
    | push line =>
      rw [lines_after_push]
      obtain ⟨hsuffix, hlength⟩ := suffix_rtake_iff.mp List.suffix_rfl
      exact .push ih hsuffix hlength
    | setCapacity capacity =>
      rw [lines_after_setCapacity]
      obtain ⟨hsuffix, hlength⟩ := suffix_rtake_iff.mp List.suffix_rfl
      exact .setCapacity ih hsuffix hlength
    | clear =>
      rw [lines_after_clear]
      exact .clear ih

end Edits

/-- No record holds more: what it has let go is gone for it as well. -/
theorem Holdable.suffix_lines {initial : Nat} {edits : List Edit} {kept : List String}
    (h : Holdable initial edits kept) : kept <:+ (after initial edits).lines := by
  induction h with
  | nil => exact List.suffix_rfl
  | @push edits held kept line before hsuffix hfits ih =>
    obtain ⟨front, hfront⟩ := ih
    have hlonger : held ++ [line] <:+ (after initial edits).lines ++ [line] :=
      ⟨front, by rw [← hfront, List.append_assoc]⟩
    rw [lines_after_push]
    exact suffix_rtake_iff.mpr ⟨hsuffix.trans hlonger, hfits⟩
  | setCapacity before hsuffix hfits ih =>
    rw [lines_after_setCapacity]
    exact suffix_rtake_iff.mpr ⟨hsuffix.trans ih, hfits⟩
  | clear before ih => exact List.nil_suffix

/-- A history holds the end of what was pushed since it was last cleared, as many lines as it says
and never more than the capacity in effect. It is the longest end that can be held without getting
back a line that was let go: a push adds its line and lets go of the oldest where there is no room,
a new capacity lets go of what is too much for it, and one that is not too small changes nothing.
Without capacity nothing is held. -/
theorem keeps_longest_suffix (initial : Nat) (edits : List Edit) :
    let h := after initial edits
    let capacity := capacityIn initial edits
    h.lines <:+ pushed edits ∧ h.size = h.lines.length ∧ h.size ≤ capacity ∧
      Holdable initial edits h.lines ∧
      (∀ kept, Holdable initial edits kept → kept <:+ h.lines) ∧
      (∀ line, let next := after initial (edits ++ [.push line])
        next.lines <:+ h.lines ++ [line] ∧ next.size = min (h.size + 1) capacity) ∧
      (∀ n, let next := after initial (edits ++ [.setCapacity n])
        next.lines <:+ h.lines ∧ next.size = min h.size n ∧ (h.size ≤ n → next.lines = h.lines)) ∧
      (capacity = 0 → h.lines = []) := by
  intro h capacity
  have hfits : h.size ≤ capacity := (fits_after initial edits).2
  refine ⟨lines_suffix_pushed initial edits, h.length_lines.symm, hfits,
    holdable_lines initial edits, fun kept hkept => hkept.suffix_lines,
    fun line => ⟨?_, size_after_push initial edits line⟩,
    fun n => ⟨?_, size_after_setCapacity initial edits n, fun hroom => ?_⟩, fun hzero => ?_⟩
  · rw [lines_after_push]
    exact List.drop_suffix _ _
  · rw [lines_after_setCapacity]
    exact List.drop_suffix _ _
  · exact (lines_after_setCapacity initial edits n).trans (rtake_lines hroom)
  · rw [← rtake_lines hfits, hzero, List.rtake_zero]

/-- A line that was let go does not come back when there is room for it again. -/
example : (after 2 [.push "a", .clear, .push "b", .push "c", .push "d", .setCapacity 1,
    .setCapacity 3, .push "e"]).lines = ["d", "e"] := by
  cbv

end Mos6502.History
