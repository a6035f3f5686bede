import Mos6502.Breakpoints
import Mos6502.Proofs.Microcode

/-!
# Traffic on the bus

A list of transfers is `Traffic` from one board to another if they can follow each other on the bus:
every read finds the byte that the board has at that moment, every write takes effect, and an opcode
is executed right behind the read that fetched it. Nothing but the writes then decides what becomes
of the board (`Traffic.eq_replay`). What microcode does on a bare board is traffic, also where it
fails.
-/

namespace Mos6502

/-- A byte that was moved over the bus, or taken from it as an opcode. -/
inductive Transfer where
  | read (address : UInt16) (value : UInt8)
  | write (address : UInt16) (value : UInt8)
  | execute (address : UInt16) (value : UInt8)
deriving DecidableEq

namespace Transfer

def apply (b : Board) : Transfer → Board
  | write address value => b.write address value
  | read .. | execute .. => b

def opcode? : Transfer → Option (UInt16 × UInt8)
  | execute address value => some (address, value)
  | read .. | write .. => none

end Transfer

/-- The board with the bytes written that some transfers have written, in their order. -/
def Board.replay (b : Board) (ts : List Transfer) : Board := ts.foldl Transfer.apply b

def opcodes (ts : List Transfer) : List (UInt16 × UInt8) := ts.filterMap Transfer.opcode?

/-- The transfers lead from one board to another. -/
inductive Traffic : Board → List Transfer → Board → Prop where
  | done (b : Board) : Traffic b [] b
  | read {b b' : Board} {ts : List Transfer} {address : UInt16} {value : UInt8}
      (hread : b.read address = .ok value) (rest : Traffic b ts b') :
      Traffic b (.read address value :: ts) b'
  | write {b b' : Board} {ts : List Transfer} {address : UInt16} {value : UInt8}
      (rest : Traffic (b.write address value) ts b') :
      Traffic b (.write address value :: ts) b'
  /-- An opcode is read and executed. -/
  | fetch {b b' : Board} {ts : List Transfer} {address : UInt16} {value : UInt8}
      (hread : b.read address = .ok value) (rest : Traffic b ts b') :
      Traffic b (.read address value :: .execute address value :: ts) b'

namespace Traffic

variable {b b' b'' : Board} {ts us : List Transfer}

theorem append (h : Traffic b ts b') (k : Traffic b' us b'') : Traffic b (ts ++ us) b'' := by
  induction h with
  | done => exact k
  | read hread _ ih => exact .read hread (ih k)
  | write _ ih => exact .write (ih k)
  | fetch hread _ ih => exact .fetch hread (ih k)

/-- Traffic leads to the board with its writes replayed. -/
theorem eq_replay (h : Traffic b ts b') : b' = b.replay ts := by
  induction h with
  | done => rfl
  | read _ _ ih | write _ ih | fetch _ _ ih => exact ih

/-- A read finds what the writes before it have left. -/
theorem read_eq (h : Traffic b ts b') {before after : List Transfer} {address : UInt16}
    {value : UInt8} (hts : ts = before ++ .read address value :: after) :
    (b.replay before).read address = .ok value := by
  induction h generalizing before with
  | done => simp at hts
  | read hread _ ih =>
    cases before with
    | nil => cases hts; exact hread
    | cons t before =>
      cases hts
      have hrest := ih rfl
      exact hrest
  | write _ ih =>
    cases before with
    | nil => cases hts
    | cons t before =>
      cases hts
      have hrest := ih rfl
      exact hrest
  | fetch hread _ ih =>
    -- A fetch is two transfers; the read that is looked for may be the first or lie behind both.
    cases before with
    | nil => cases hts; exact hread
    | cons t before =>
      cases before with
      | nil => cases hts
      | cons u before =>
        cases hts
        have hrest := ih rfl
        exact hrest

/-- An opcode has been read right before it is executed. -/
theorem execute_follows (h : Traffic b ts b') {before after : List Transfer} {address : UInt16}
    {value : UInt8} (hts : ts = before ++ .execute address value :: after) :
    ∃ earlier, before = earlier ++ [.read address value] := by
  induction h generalizing before with
  | done => simp at hts
  | @read _ _ _ a v _ _ ih =>
    cases before with
    | nil => cases hts
    | cons t before =>
      cases hts
      obtain ⟨earlier, rfl⟩ := ih rfl
      exact ⟨.read a v :: earlier, rfl⟩
  | @write _ _ _ a v _ ih =>
    cases before with
    | nil => cases hts
    | cons t before =>
      cases hts
      obtain ⟨earlier, rfl⟩ := ih rfl
      exact ⟨.write a v :: earlier, rfl⟩
  | @fetch _ _ _ a v _ _ ih =>
    -- Only here an opcode is executed without leaning on the rest.
    cases before with
    | nil => cases hts
    | cons t before =>
      cases before with
      | nil => cases hts; exact ⟨[], rfl⟩
      | cons u before =>
        cases hts
        obtain ⟨earlier, rfl⟩ := ih rfl
        exact ⟨.read a v :: .execute a v :: earlier, rfl⟩

end Traffic

namespace Microcode

variable {α : Type}

/-- The transfers of a sequence on a bare processor and board, up to the first read that fails. -/
def transfers : Microcode α → Core → List Transfer
  | done _, _ => []
  | read address next, c =>
    match c.board.read address with
    | .ok v => .read address v :: (next v).transfers c
    | .error _ => []
  | write address value next, c =>
    .write address value :: next.transfers { c with board := c.board.write address value }
  | inspect next, c => (next c.registers).transfers c
  | assign registers next, c => next.transfers { c with registers := registers }

/-- Microcode executes no opcode; a step does. -/
theorem opcodes_transfers (p : Microcode α) (c : Core) : opcodes (p.transfers c) = [] := by
  induction p generalizing c with
  | done result => rfl
  | read address next ih =>
    rw [transfers]
    split
    next v hread => exact ih v c
    next => rfl
  | write address value next ih => exact ih _
  | inspect next ih => exact ih c.registers c
  | assign registers next ih => exact ih _

end Microcode

end Mos6502
