import SqueezeOS.Flac.RestoreSignal

/- FLAC__fixed_restore_signal_asm_arm, block by block. On entry r0 = residual,
   r1 = data_len, r2 = order, r3 = data. -/
namespace FixedAsm
open Arm RestoreSignal

inductive FixedLabel where
  | fixedRestoreSignalAsmArm | order0 | order0a | order0b | order1 | order1a | order1b | order2
  | order2a | order2b | order3 | order3a | order3b | order4 | order4a | order4b
  deriving DecidableEq, Repr

def doOrder3 (dest res b3 b2 b1 tmp : Reg) : List (Instr FixedLabel) :=
  [.add res res (.reg b3),
   .sub tmp b1 (.reg b2),
   .add tmp tmp (.asl tmp 1),
   .add dest res (.reg tmp)]

def doOrder4 (dest res b4 b3 b2 b1 tmp : Reg) : List (Instr FixedLabel) :=
  [.sub res res (.reg b4),
   .add tmp b1 (.reg b3),
   .add res res (.asl tmp 2),
   .sub res res (.asl b2 2),
   .sub dest res (.asl b2 1)]

def fixedRestoreSignalAsmArm : List (Instr FixedLabel) :=
  [.stm .db .r13 true pushed,
   .cmp .r2 (.imm 4),
   .when .ls (.ldrPc .r2 [.order0, .order1, .order2, .order3, .order4]),
   .ldmfdPc .r13 popped]

def order0 : List (Instr FixedLabel) :=
  [.tst .r1 (.imm 15),
   .when .eq (.b .order0b)]

def order0a : List (Instr FixedLabel) :=
  [.ldr .r2 (.post .r0 4),
   .str .r2 (.post .r3 4),
   .subs .r1 .r1 (.imm 1),
   .when .eq (.ldmfdPc .r13 popped),
   .tst .r1 (.imm 15),
   .when .ne (.b .order0a)]

def order0b : List (Instr FixedLabel) :=
  [.ldm .ia .r0 true [.r5, .r6, .r7, .r8, .r9, .r10, .r11, .r12],
   .stm .ia .r3 true [.r5, .r6, .r7, .r8, .r9, .r10, .r11, .r12],
   .ldm .ia .r0 true [.r5, .r6, .r7, .r8, .r9, .r10, .r11, .r12],
   .stm .ia .r3 true [.r5, .r6, .r7, .r8, .r9, .r10, .r11, .r12],
   .subs .r1 .r1 (.imm 16),
   .when .ne (.b .order0b),
   .ldmfdPc .r13 popped]

def order1 : List (Instr FixedLabel) :=
  [.ldr .r14 (.at .r3 (-4)),
   .tst .r1 (.imm 7),
   .when .eq (.b .order1b)]

def order1a : List (Instr FixedLabel) :=
  [.ldr .r2 (.post .r0 4),
   .add .r14 .r2 (.reg .r14),
   .str .r14 (.post .r3 4),
   .subs .r1 .r1 (.imm 1),
   .when .eq (.ldmfdPc .r13 popped),
   .tst .r1 (.imm 7),
   .when .ne (.b .order1a)]

def order1b : List (Instr FixedLabel) :=
  [.ldm .ia .r0 true [.r2, .r4, .r5, .r6, .r7, .r8, .r9, .r10],
   .add .r2 .r2 (.reg .r14),
   .add .r4 .r4 (.reg .r2),
   .add .r5 .r5 (.reg .r4),
   .add .r6 .r6 (.reg .r5),
   .add .r7 .r7 (.reg .r6),
   .add .r8 .r8 (.reg .r7),
   .add .r9 .r9 (.reg .r8),
   .add .r14 .r10 (.reg .r9),
   .stm .ia .r3 true [.r2, .r4, .r5, .r6, .r7, .r8, .r9, .r14],
   .subs .r1 .r1 (.imm 8),
   .when .ne (.b .order1b),
   .ldmfdPc .r13 popped]

def order2 : List (Instr FixedLabel) :=
  [.ldm .db .r3 false [.r12, .r14],
   .tst .r1 (.imm 7),
   .when .eq (.b .order2b)]

def order2a : List (Instr FixedLabel) :=
  [.ldr .r2 (.post .r0 4),
   .add .r2 .r2 (.asl .r14 1),
   .sub .r2 .r2 (.reg .r12),
   .str .r2 (.post .r3 4),
   .mov .r12 (.reg .r14),
   .mov .r14 (.reg .r2),
   .subs .r1 .r1 (.imm 1),
   .when .eq (.ldmfdPc .r13 popped),
   .tst .r1 (.imm 7),
   .when .ne (.b .order2a)]

def order2b : List (Instr FixedLabel) :=
  [.ldm .ia .r0 true [.r2, .r4, .r5, .r6, .r7, .r8, .r9, .r10],
   .add .r2 .r2 (.asl .r14 1),
   .sub .r2 .r2 (.reg .r12),
   .add .r4 .r4 (.asl .r2 1),
   .sub .r4 .r4 (.reg .r14),
   .add .r5 .r5 (.asl .r4 1),
   .sub .r5 .r5 (.reg .r2),
   .add .r6 .r6 (.asl .r5 1),
   .sub .r6 .r6 (.reg .r4),
   .add .r7 .r7 (.asl .r6 1),
   .sub .r7 .r7 (.reg .r5),
   .add .r8 .r8 (.asl .r7 1),
   .sub .r8 .r8 (.reg .r6),
   .add .r9 .r9 (.asl .r8 1),
   .sub .r12 .r9 (.reg .r7),
   .add .r10 .r10 (.asl .r12 1),
   .sub .r14 .r10 (.reg .r8),
   .stm .ia .r3 true [.r2, .r4, .r5, .r6, .r7, .r8, .r12, .r14],
   .subs .r1 .r1 (.imm 8),
   .when .ne (.b .order2b),
   .ldmfdPc .r13 popped]

def order3 : List (Instr FixedLabel) :=
  [.ldm .db .r3 false [.r11, .r12, .r14],
   .tst .r1 (.imm 7),
   .when .eq (.b .order3b)]

def order3a : List (Instr FixedLabel) :=
  [.ldr .r2 (.post .r0 4)] ++
  doOrder3 .r2 .r2 .r11 .r12 .r14 .r11 ++
  [.str .r2 (.post .r3 4),
   .ldm .db .r3 false [.r11, .r12, .r14],
   .subs .r1 .r1 (.imm 1),
   .when .eq (.ldmfdPc .r13 popped),
   .tst .r1 (.imm 7),
   .when .ne (.b .order3a)]

def order3b : List (Instr FixedLabel) :=
  [.ldm .ia .r0 true [.r2, .r4, .r5, .r6, .r7, .r8, .r9, .r10]] ++
  doOrder3 .r2 .r2 .r11 .r12 .r14 .r11 ++
  doOrder3 .r4 .r4 .r12 .r14 .r2 .r12 ++
  doOrder3 .r5 .r5 .r14 .r2 .r4 .r14 ++
  doOrder3 .r6 .r6 .r2 .r4 .r5 .r11 ++
  doOrder3 .r7 .r7 .r4 .r5 .r6 .r12 ++
  doOrder3 .r11 .r8 .r5 .r6 .r7 .r11 ++
  doOrder3 .r12 .r9 .r6 .r7 .r11 .r12 ++
  doOrder3 .r14 .r10 .r7 .r11 .r12 .r14 ++
  [.stm .ia .r3 true [.r2, .r4, .r5, .r6, .r7, .r11, .r12, .r14],
   .subs .r1 .r1 (.imm 8),
   .when .ne (.b .order3b),
   .ldmfdPc .r13 popped]

def order4 : List (Instr FixedLabel) :=
  [.ldm .db .r3 false [.r7, .r11, .r12, .r14],
   .tst .r1 (.imm 7),
   .when .eq (.b .order4b)]

def order4a : List (Instr FixedLabel) :=
  [.ldr .r2 (.post .r0 4)] ++
  doOrder4 .r2 .r2 .r7 .r11 .r12 .r14 .r7 ++
  [.str .r2 (.post .r3 4),
   .ldm .db .r3 false [.r7, .r11, .r12, .r14],
   .subs .r1 .r1 (.imm 1),
   .when .eq (.ldmfdPc .r13 popped),
   .tst .r1 (.imm 7),
   .when .ne (.b .order4a)]

def order4b : List (Instr FixedLabel) :=
  [.ldr .r2 (.post .r0 4)] ++
  doOrder4 .r2 .r2 .r7 .r11 .r12 .r14 .r10 ++
  [.ldm .ia .r0 true [.r4, .r5, .r6, .r7, .r8, .r9, .r10]] ++
  doOrder4 .r4 .r4 .r11 .r12 .r14 .r2 .r11 ++
  doOrder4 .r5 .r5 .r12 .r14 .r2 .r4 .r12 ++
  doOrder4 .r6 .r6 .r14 .r2 .r4 .r5 .r14 ++
  doOrder4 .r7 .r7 .r2 .r4 .r5 .r6 .r11 ++
  doOrder4 .r11 .r8 .r4 .r5 .r6 .r7 .r11 ++
  doOrder4 .r12 .r9 .r5 .r6 .r7 .r11 .r12 ++
  doOrder4 .r14 .r10 .r6 .r7 .r11 .r12 .r14 ++
  [.stm .ia .r3 true [.r2, .r4, .r5, .r6, .r7, .r11, .r12, .r14],
   .subs .r1 .r1 (.imm 8),
   .when .ne (.b .order4b),
   .ldmfdPc .r13 popped]

def fixedProgram : Program FixedLabel :=
  [(.fixedRestoreSignalAsmArm, fixedRestoreSignalAsmArm), (.order0, order0), (.order0a, order0a),
   (.order0b, order0b), (.order1, order1), (.order1a, order1a), (.order1b, order1b),
   (.order2, order2), (.order2a, order2a), (.order2b, order2b), (.order3, order3),
   (.order3a, order3a), (.order3b, order3b), (.order4, order4), (.order4a, order4a),
   (.order4b, order4b)]

end FixedAsm
