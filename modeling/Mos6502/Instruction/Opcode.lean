import Mos6502.Instruction.Basic

/-!
# Opcodes

The opcode matrix of the processor, one cell for each byte. The 151 documented opcodes have an
instruction; the other cells are empty.
-/

namespace Mos6502.Instruction

/-- The instruction of each opcode, by high and low half of the byte. -/
def opcodes : Vector (Vector (Option Instruction) 16) 16 := #v[
  -- $00 to $0F
  #v[some .brk, some (.read .ora .indexedIndirect), none, none, none, some (.read .ora .zeroPage),
    some (.modify .asl .zeroPage), none, some (.stack .php), some (.read .ora .immediate),
    some (.modify .asl .accumulator), none, none, some (.read .ora .absolute),
    some (.modify .asl .absolute), none],
  -- $10 to $1F
  #v[some (.branch .bpl), some (.read .ora .indirectIndexed), none, none, none,
    some (.read .ora .zeroPageX), some (.modify .asl .zeroPageX), none, some (.internal .clc),
    some (.read .ora .absoluteY), none, none, none, some (.read .ora .absoluteX),
    some (.modify .asl .absoluteX), none],
  -- $20 to $2F
  #v[some .jsr, some (.read .and .indexedIndirect), none, none, some (.read .bit .zeroPage),
    some (.read .and .zeroPage), some (.modify .rol .zeroPage), none, some (.stack .plp),
    some (.read .and .immediate), some (.modify .rol .accumulator), none,
    some (.read .bit .absolute), some (.read .and .absolute), some (.modify .rol .absolute), none],
  -- $30 to $3F
  #v[some (.branch .bmi), some (.read .and .indirectIndexed), none, none, none,
    some (.read .and .zeroPageX), some (.modify .rol .zeroPageX), none, some (.internal .sec),
    some (.read .and .absoluteY), none, none, none, some (.read .and .absoluteX),
    some (.modify .rol .absoluteX), none],
  -- $40 to $4F
  #v[some .rti, some (.read .eor .indexedIndirect), none, none, none, some (.read .eor .zeroPage),
    some (.modify .lsr .zeroPage), none, some (.stack .pha), some (.read .eor .immediate),
    some (.modify .lsr .accumulator), none, some (.jmp .absolute), some (.read .eor .absolute),
    some (.modify .lsr .absolute), none],
  -- $50 to $5F
  #v[some (.branch .bvc), some (.read .eor .indirectIndexed), none, none, none,
    some (.read .eor .zeroPageX), some (.modify .lsr .zeroPageX), none, some (.internal .cli),
    some (.read .eor .absoluteY), none, none, none, some (.read .eor .absoluteX),
    some (.modify .lsr .absoluteX), none],
  -- $60 to $6F
  #v[some .rts, some (.read .adc .indexedIndirect), none, none, none, some (.read .adc .zeroPage),
    some (.modify .ror .zeroPage), none, some (.stack .pla), some (.read .adc .immediate),
    some (.modify .ror .accumulator), none, some (.jmp .indirect), some (.read .adc .absolute),
    some (.modify .ror .absolute), none],
  -- $70 to $7F
  #v[some (.branch .bvs), some (.read .adc .indirectIndexed), none, none, none,
    some (.read .adc .zeroPageX), some (.modify .ror .zeroPageX), none, some (.internal .sei),
    some (.read .adc .absoluteY), none, none, none, some (.read .adc .absoluteX),
    some (.modify .ror .absoluteX), none],
  -- $80 to $8F
  #v[none, some (.store .sta .indexedIndirect), none, none, some (.store .sty .zeroPage),
    some (.store .sta .zeroPage), some (.store .stx .zeroPage), none, some (.internal .dey), none,
    some (.internal .txa), none, some (.store .sty .absolute), some (.store .sta .absolute),
    some (.store .stx .absolute), none],
  -- $90 to $9F
  #v[some (.branch .bcc), some (.store .sta .indirectIndexed), none, none,
    some (.store .sty .zeroPageX), some (.store .sta .zeroPageX), some (.store .stx .zeroPageY),
    none, some (.internal .tya), some (.store .sta .absoluteY), some (.internal .txs), none, none,
    some (.store .sta .absoluteX), none, none],
  -- $A0 to $AF
  #v[some (.read .ldy .immediate), some (.read .lda .indexedIndirect), some (.read .ldx .immediate),
    none, some (.read .ldy .zeroPage), some (.read .lda .zeroPage), some (.read .ldx .zeroPage),
    none, some (.internal .tay), some (.read .lda .immediate), some (.internal .tax), none,
    some (.read .ldy .absolute), some (.read .lda .absolute), some (.read .ldx .absolute), none],
  -- $B0 to $BF
  #v[some (.branch .bcs), some (.read .lda .indirectIndexed), none, none,
    some (.read .ldy .zeroPageX), some (.read .lda .zeroPageX), some (.read .ldx .zeroPageY), none,
    some (.internal .clv), some (.read .lda .absoluteY), some (.internal .tsx), none,
    some (.read .ldy .absoluteX), some (.read .lda .absoluteX), some (.read .ldx .absoluteY), none],
  -- $C0 to $CF
  #v[some (.read .cpy .immediate), some (.read .cmp .indexedIndirect), none, none,
    some (.read .cpy .zeroPage), some (.read .cmp .zeroPage), some (.modify .dec .zeroPage), none,
    some (.internal .iny), some (.read .cmp .immediate), some (.internal .dex), none,
    some (.read .cpy .absolute), some (.read .cmp .absolute), some (.modify .dec .absolute), none],
  -- $D0 to $DF
  #v[some (.branch .bne), some (.read .cmp .indirectIndexed), none, none, none,
    some (.read .cmp .zeroPageX), some (.modify .dec .zeroPageX), none, some (.internal .cld),
    some (.read .cmp .absoluteY), none, none, none, some (.read .cmp .absoluteX),
    some (.modify .dec .absoluteX), none],
  -- $E0 to $EF
  #v[some (.read .cpx .immediate), some (.read .sbc .indexedIndirect), none, none,
    some (.read .cpx .zeroPage), some (.read .sbc .zeroPage), some (.modify .inc .zeroPage), none,
    some (.internal .inx), some (.read .sbc .immediate), some (.internal .nop), none,
    some (.read .cpx .absolute), some (.read .sbc .absolute), some (.modify .inc .absolute), none],
  -- $F0 to $FF
  #v[some (.branch .beq), some (.read .sbc .indirectIndexed), none, none, none,
    some (.read .sbc .zeroPageX), some (.modify .inc .zeroPageX), none, some (.internal .sed),
    some (.read .sbc .absoluteY), none, none, none, some (.read .sbc .absoluteX),
    some (.modify .inc .absoluteX), none]]

def decode (opcode : UInt8) : Option Instruction :=
  have high : opcode.toNat / 16 < 16 := by have := opcode.toNat_lt; omega
  have low : opcode.toNat % 16 < 16 := Nat.mod_lt _ (by decide)
  opcodes[opcode.toNat / 16][opcode.toNat % 16]

/-- One line for each implemented opcode, in ascending order. -/
def listing : List String :=
  (List.range 256).filterMap fun n =>
    (decode (UInt8.ofNat n)).map fun i =>
      "$" ++ Text.hexByte (UInt8.ofNat n) ++ " " ++ i.mnemonic ++ " " ++ i.mode.name

end Mos6502.Instruction
