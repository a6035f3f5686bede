import Mos6502.Proofs.StackCalls

/-!
# The stack dump

A dump shows the bytes above the stack pointer, oldest first. It walks down the stack page on a slot
number of eight bits (`Board.WalksDown`), which neither end of the page can make it count past: the
walk ends from every stack pointer, each byte on the way can be read, and `Core.stackBytes` is what
it has seen. Behind pushes and pulls that began with an empty stack these are the bytes of the
abstract stack (`dump_shows_stack`).
-/

namespace Mos6502

/-! ## Slots -/

theorem getElem_slotsAbove {s : UInt8} {n i : Nat} (h : i < (slotsAbove s n).length) :
    (slotsAbove s n)[i] = s + UInt8.ofNat (i + 1) := by
  induction n generalizing s i with
  | zero => exact absurd h (Nat.not_lt_zero i)
  | succ n ih =>
    cases i with
    | zero => rfl
    | succ i =>
      have hstep : s + 1 + UInt8.ofNat (i + 1) = s + UInt8.ofNat (i + 1 + 1) := by
        rw [UInt8.ofNat_add (i + 1), UInt8.add_assoc, UInt8.add_comm 1]
        rfl
      exact (ih _).trans hstep

namespace Board

/-- The walk of a dump down the stack page. As long as the slot lies above the stack pointer, its
byte is read and the slot counted down, which must not take it below zero; a read that fails ends
the walk. A walk without an end has no derivation. -/
inductive WalksDown (b : Board) (sp : UInt8) : UInt8 → Except BoardError (List UInt8) → Prop
  | stop {slot : UInt8} (reached : slot ≤ sp) : WalksDown b sp slot (.ok [])
  | fail {slot : UInt8} {e : BoardError} (above : sp < slot)
      (hread : b.read (stackSlot slot) = .error e) : WalksDown b sp slot (.error e)
  | next {slot v : UInt8} {result : Except BoardError (List UInt8)} (above : sp < slot)
      (hread : b.read (stackSlot slot) = .ok v) (positive : 1 ≤ slot.toNat)
      (rest : WalksDown b sp (slot - 1) result) : WalksDown b sp slot (result.map (v :: ·))

variable {b : Board} {sp slot : UInt8} {r r' : Except BoardError (List UInt8)}

theorem WalksDown.unique (h : b.WalksDown sp slot r) (k : b.WalksDown sp slot r') : r = r' := by
  induction h generalizing r' with
  | stop reached =>
    cases k with
    | stop => rfl
    | fail above | next above => exact absurd reached (UInt8.not_le.mpr above)
  | fail above hread =>
    cases k with
    | stop reached => exact absurd reached (UInt8.not_le.mpr above)
    | fail _ hread' => cases hread.symm.trans hread'; rfl
    | next _ hread' => cases hread.symm.trans hread'
  | next above hread _ _ ih =>
    cases k with
    | stop reached => exact absurd reached (UInt8.not_le.mpr above)
    | fail _ hread' => cases hread.symm.trans hread'
    | next _ hread' _ rest =>
      cases hread.symm.trans hread'
      rw [ih rest]

/-- From `n` slots above the stack pointer the walk sees the bytes there, from the top. -/
theorem walksDown_stackAbove (b : Board) (sp : UInt8) {n : Nat} (h : sp.toNat + n ≤ 255) :
    b.WalksDown sp (sp + UInt8.ofNat n) (.ok (b.stackAbove sp n).reverse) := by
  have hslot {k : Nat} (hk : k ≤ n) : (sp + UInt8.ofNat k).toNat = sp.toNat + k := by
    rw [UInt8.toNat_add, UInt8.toNat_ofNat']
    omega
  induction n with
  | zero => exact .stop (by rw [UInt8.le_iff_toNat_le, hslot le_rfl]; exact le_rfl)
  | succ n ih =>
    have hcurrent := hslot (le_refl (n + 1))
    have hdown : sp + UInt8.ofNat (n + 1) - 1 = sp + UInt8.ofNat n := by
      rw [UInt8.ofNat_add]
      grind
    have hbytes : b.stackAbove sp (n + 1) =
        b.stackAbove sp n ++ [b.stackByte (sp + UInt8.ofNat (n + 1))] := by
      rw [Nat.add_comm, b.stackAbove_add, Nat.add_comm, UInt8.ofNat_add, ← UInt8.add_assoc]
      rfl
    rw [hbytes, List.reverse_concat]
    have habove : sp < sp + UInt8.ofNat (n + 1) := by
      rw [UInt8.lt_iff_toNat_lt, hcurrent]
      omega
    change b.WalksDown sp _ (Except.map (_ :: ·) (.ok _))
    refine .next habove (b.read_stackSlot _) (by omega) ?_
    rw [hdown]
    exact ih (by omega) fun hk => hslot (by omega)

/-- The walk ends, in one way only. -/
theorem walksDown_iff (b : Board) (sp : UInt8) :
    b.WalksDown sp 0xFF r ↔ r = .ok (b.stackAbove sp (255 - sp.toNat)).reverse := by
  have hsp := sp.toNat_lt
  have htop : sp + UInt8.ofNat (255 - sp.toNat) = 0xFF := by
    rw [← UInt8.toNat_inj, UInt8.toNat_add, UInt8.toNat_ofNat']
    change (sp.toNat + (255 - sp.toNat) % 2 ^ 8) % 2 ^ 8 = 255
    omega
  have hwalk := b.walksDown_stackAbove sp (n := 255 - sp.toNat) (by omega)
  rw [htop] at hwalk
  exact ⟨fun h => h.unique hwalk, fun h => h ▸ hwalk⟩

end Board

namespace Core

def stackDepth (c : Core) : Nat := 255 - c.registers.sp.toNat

/-- The slots that a dump shows, from the top of the page downwards. -/
theorem stackSlot_of_depth (c : Core) {i : Nat}
    (h : i < (slotsAbove c.registers.sp c.stackDepth).reverse.length) :
    stackSlot (slotsAbove c.registers.sp c.stackDepth).reverse[i] = UInt16.ofNat (0x1FF - i) := by
  have hsp := c.registers.sp.toNat_lt
  rw [List.getElem_reverse, getElem_slotsAbove]
  rw [List.length_reverse] at h
  simp only [length_slotsAbove, stackDepth] at h ⊢
  rw [← UInt16.toNat_inj, toNat_stackSlot, UInt8.toNat_add, UInt8.toNat_ofNat', UInt16.toNat_ofNat']
  omega

/-- The addresses listed are the slots above the pointer, the deepest first. -/
theorem stackAddresses_eq (c : Core) :
    c.stackAddresses = (slotsAbove c.registers.sp c.stackDepth).reverse.map stackSlot := by
  refine List.ext_getElem ?_ fun i hi hi' => ?_
  · simp only [stackAddresses, stackDepth, List.length_map, List.length_range, List.length_reverse,
      length_slotsAbove]
  · have hlow : i ≤ 0x1FF := by
      simp only [stackAddresses, List.length_map, List.length_range] at hi
      omega
    rw [List.length_map] at hi'
    rw [List.getElem_map, c.stackSlot_of_depth hi', UInt16.ofNat_sub hlow]
    simp only [stackAddresses, List.getElem_map, List.getElem_range]
    rfl

/-- A dump reads the bytes above the stack pointer, oldest first. -/
theorem stackBytes_eq (c : Core) : c.stackBytes = .ok (c.stack c.stackDepth).reverse := by
  rw [stackBytes, stackAddresses_eq, stack, Board.stackAbove, ← List.map_reverse]
  refine mapM_eq_ok_of_forall₂ (List.forall₂_map_left_iff.mpr (List.forall₂_map_right_iff.mpr ?_))
  exact List.forall₂_same.mpr fun slot _ => c.board.read_stackSlot slot

theorem length_dump (c : Core) : (c.stack c.stackDepth).reverse.length = c.stackDepth := by
  rw [List.length_reverse, stack, Board.length_stackAbove]

/-- Each byte stands where it is shown to stand. -/
theorem read_dump (c : Core) {i : Nat} (h : i < (c.stack c.stackDepth).reverse.length) :
    c.board.read (UInt16.ofNat (0x1FF - i)) = .ok (c.stack c.stackDepth).reverse[i] := by
  have hslot : i < (slotsAbove c.registers.sp c.stackDepth).reverse.length := by
    rw [List.length_reverse, length_slotsAbove]
    exact h.trans_eq c.length_dump
  rw [← c.stackSlot_of_depth hslot, Board.read_stackSlot]
  simp [stack, Board.stackAbove]

def dumpText (bytes : List UInt8) : String :=
  Text.join " " (bytes.map fun v => "$" ++ Text.hexByte v)

theorem dumpText_eq_empty_iff (bytes : List UInt8) : dumpText bytes = "" ↔ bytes = [] := by
  cases bytes with
  | nil => exact iff_of_true rfl rfl
  | cons v rest =>
    obtain ⟨more, hmore⟩ := Text.exists_join_eq " " ("$" ++ Text.hexByte v)
      (rest.map fun v => "$" ++ Text.hexByte v)
    refine iff_of_false (fun hempty => ?_) (List.cons_ne_nil v rest)
    rw [dumpText, List.map_cons] at hempty
    rw [hempty] at hmore
    simp at hmore

end Core

namespace Machine

variable {m : Machine}

/-- Rendering a dump is not seen by anything. -/
theorem observe_stackText (m : Machine) : observe Core.stackText m =
    .ok (Core.dumpText (m.core.stack m.core.stackDepth).reverse) m := by
  simp only [observe, Core.stackText, Core.stackBytes_eq]
  rfl

/-- Bytes that an abstract stack holds are the bytes that a dump shows, as long as they do not fill
the page. -/
theorem observe_stackText_of_represents {bytes : List UInt8}
    (h : m.core.Represents 0xFF bytes) (hlength : bytes.length ≤ 255) :
    observe Core.stackText m = .ok (Core.dumpText bytes.reverse) m := by
  have hdepth : m.core.stackDepth = bytes.length := by
    rw [Core.stackDepth, h.sp, UInt8.toNat_sub, UInt8.toNat_ofNat']
    simp
    omega
  rw [observe_stackText, hdepth, h.stack]

/-- From every state of every board the walk of a dump ends, counts below nothing, and finds a byte
in each of the slots from `$01FF` down to the one above the stack pointer, one behind the other. The
dump shows these bytes, nothing else notices it, and it is empty exactly if the stack pointer stands
at the top of the page. Behind pushes and pulls from there that take nothing off an empty stack and
leave at most 255 bytes on it, it shows the abstract stack, oldest first. -/
theorem dump_shows_stack (m : Machine) :
    (∃ bytes : List UInt8,
      (∀ result, m.board.WalksDown m.registers.sp 0xFF result ↔ result = .ok bytes) ∧
      observe Core.stackText m = .ok (Core.dumpText bytes) m ∧
      bytes.length = 255 - m.registers.sp.toNat ∧
      (∀ (i : Nat) (h : i < bytes.length),
        m.board.read (UInt16.ofNat (0x1FF - i)) = .ok bytes[i]) ∧
      (Core.dumpText bytes = "" ↔ m.registers.sp = 0xFF)) ∧
    (m.registers.sp = 0xFF → ∀ calls, StackCall.Fitting calls → StackCall.depth calls ≤ 255 →
      ∃ answers bytes m', callAll calls m = .ok answers m' ∧
        calls.mapM StackCall.onList [] = some (answers, bytes) ∧
        observe Core.stackText m' = .ok (Core.dumpText bytes.reverse) m') := by
  constructor
  · have hlength := m.core.length_dump
    refine ⟨(m.core.stack m.core.stackDepth).reverse,
      fun result => m.board.walksDown_iff m.registers.sp, m.observe_stackText, hlength,
      fun i hi => m.core.read_dump hi, ?_⟩
    have hsp := m.registers.sp.toNat_lt
    rw [Core.dumpText_eq_empty_iff, ← List.length_eq_zero_iff, hlength, ← UInt8.toNat_inj]
    change 255 - m.registers.sp.toNat = 0 ↔ m.registers.sp.toNat = 255
    omega
  · intro hempty calls hfits hdepth
    have hstart := Core.Represents.nil m.core
    change m.core.Represents m.registers.sp [] at hstart
    rw [hempty] at hstart
    obtain ⟨answers, bytes, m', hcalls, hlist, hrepresents, hlength, -⟩ :=
      StackCall.callAll_of_represents hstart fun earlier hearlier => by
        simpa using hfits earlier hearlier
    simp only [List.length_nil, Nat.cast_zero, zero_add] at hlength
    exact ⟨answers, bytes, m', hcalls, hlist,
      observe_stackText_of_represents hrepresents (by omega)⟩

/-- A byte that was pulled is gone from the dump, and of a word the high byte is older. -/
theorem dump_shows_stack_behind_pull :
    let m := (logging []).setRegisters { Registers.powerOn with sp := 0xFF }
    let calls := [StackCall.pushByte 0x01, .pushByte 0x80, .pullByte, .pushWord 0xBEEF]
    m.registers.sp = 0xFF ∧ StackCall.Fitting calls ∧ StackCall.depth calls ≤ 255 ∧
      ∃ answers m', callAll calls m = .ok answers m' ∧
        observe Core.stackText m' = .ok "$01 $BE $EF" m' := by
  intro m calls
  have hfits : StackCall.Fitting calls := by
    have hall : ∀ earlier ∈ calls.inits,
        0 ≤ StackCall.depth earlier ∧ StackCall.depth earlier ≤ 256 := by decide
    exact fun earlier hearlier => hall earlier ((List.mem_inits earlier calls).mpr hearlier)
  have hlists : calls.mapM StackCall.onList [] =
      some ([.pushed, .pushed, .byte 0x80, .pushed], [0xEF, 0xBE, 0x01]) := by decide
  obtain ⟨answers, bytes, m', hcalls, hlist, hdump⟩ :=
    (dump_shows_stack m).2 rfl calls hfits (by decide)
  cases hlists.symm.trans hlist
  have htext : Core.dumpText [0xEF, 0xBE, 0x01].reverse = "$01 $BE $EF" := by decide +kernel
  exact ⟨rfl, hfits, by decide, _, m', hcalls, htext ▸ hdump⟩

end Machine

end Mos6502
