/-!
# The bounded history

The most recent lines, at most as many as the capacity. The lines form a queue kept in two lists,
so that both ends are cheap; `lines` is the view that everything is stated about.
-/

namespace Mos6502

/-- A queue of lines with a capacity. -/
structure History where
  capacity : Nat
  /-- The oldest lines, oldest first. -/
  older : List String := []
  /-- The lines after them, newest first. -/
  newer : List String := []
  size : Nat := 0
  size_eq : size = older.length + newer.length := by rfl

namespace History

def ofCapacity (capacity : Nat) : History where
  capacity := capacity

def lines (h : History) : List String := h.older ++ h.newer.reverse

theorem length_lines (h : History) : h.lines.length = h.size := by
  simp [lines, h.size_eq]

def clear (h : History) : History := ofCapacity h.capacity

def dropOldest (h : History) : History :=
  match h with
  | ⟨capacity, _ :: older, newer, size, eq⟩ =>
    ⟨capacity, older, newer, size - 1, by rw [eq]; simp +arith⟩
  | ⟨capacity, [], newer, size, eq⟩ =>
    match hn : newer.reverse with
    | [] => ⟨capacity, [], [], 0, rfl⟩
    | _ :: older =>
      ⟨capacity, older, [], size - 1, by
        have := congrArg List.length hn
        simp at this eq ⊢
        omega⟩

theorem lines_dropOldest (h : History) : h.dropOldest.lines = h.lines.tail := by
  rcases h with ⟨capacity, older, newer, size, eq⟩
  cases older with
  | cons line older => rfl
  | nil =>
    simp only [dropOldest, lines, List.nil_append]
    split
    · next hn => simp [hn]
    · next hn => simp [hn]

theorem size_dropOldest (h : History) : h.dropOldest.size = h.size - 1 := by
  rw [← length_lines, lines_dropOldest, List.length_tail, length_lines]

theorem capacity_dropOldest (h : History) : h.dropOldest.capacity = h.capacity := by
  rcases h with ⟨capacity, older, newer, size, eq⟩
  cases older with
  | cons line older => rfl
  | nil =>
    simp only [dropOldest]
    split <;> rfl

/-- Forget the oldest lines until at most `n` are left. -/
def shrink (n : Nat) (h : History) : History :=
  if n < h.size then shrink n h.dropOldest else h
termination_by h.size
decreasing_by rw [size_dropOldest]; omega

theorem lines_shrink (n : Nat) (h : History) :
    (h.shrink n).lines = h.lines.drop (h.size - n) := by
  fun_induction shrink n h with
  | case1 h hn ih =>
    rw [ih, lines_dropOldest, size_dropOldest, ← List.drop_one, List.drop_drop]
    congr 1
    omega
  | case2 h hn =>
    have : h.size - n = 0 := by omega
    rw [this, List.drop_zero]

theorem shrink_of_le {n : Nat} {h : History} (hle : h.size ≤ n) : h.shrink n = h := by
  rw [shrink, if_neg (Nat.not_lt.mpr hle)]

theorem size_shrink_le (n : Nat) (h : History) : (h.shrink n).size ≤ n := by
  fun_induction shrink n h with
  | case1 h hn ih => exact ih
  | case2 h hn => exact Nat.not_lt.mp hn

theorem capacity_shrink (n : Nat) (h : History) : (h.shrink n).capacity = h.capacity := by
  fun_induction shrink n h with
  | case1 h hn ih => exact ih.trans (capacity_dropOldest h)
  | case2 h hn => rfl

def append (h : History) (line : String) : History :=
  { h with
    newer := line :: h.newer
    size := h.size + 1
    size_eq := by simp only [List.length_cons, h.size_eq]; omega }

/-- Record a line. A full history forgets its oldest line; without capacity nothing is recorded. -/
def push (h : History) (line : String) : History :=
  if h.capacity = 0 then h else (h.shrink (h.capacity - 1)).append line

/-- Change the capacity, forgetting what no longer fits. -/
def setCapacity (h : History) (capacity : Nat) : History :=
  { h with capacity := capacity : History }.shrink capacity

theorem capacity_push (h : History) (line : String) : (h.push line).capacity = h.capacity := by
  unfold push
  split
  · rfl
  · exact capacity_shrink _ h

/-- A history that keeps within its capacity goes on doing so. -/
theorem size_push_le {h : History} (hle : h.size ≤ h.capacity) (line : String) :
    (h.push line).size ≤ h.capacity := by
  unfold push
  split
  · exact hle
  · have hshrink := size_shrink_le (h.capacity - 1) h
    change (h.shrink (h.capacity - 1)).size + 1 ≤ h.capacity
    omega

theorem capacity_setCapacity (h : History) (capacity : Nat) :
    (h.setCapacity capacity).capacity = capacity := capacity_shrink capacity _

theorem size_setCapacity_le (h : History) (capacity : Nat) :
    (h.setCapacity capacity).size ≤ (h.setCapacity capacity).capacity := by
  rw [capacity_setCapacity]
  exact size_shrink_le capacity _

end History

end Mos6502
