import SqueezeOS.Flac.RestoreSignal

/- FLAC__lpc_restore_signal_asm_arm of the ARM assembly added to the FLAC decoder,
   block by block. On entry r0 = residual, r1 = data_len, r2 = qlp_coeff, r3 = order;
   lp_quantization and data are on the stack. -/
namespace LpcAsm
open Arm RestoreSignal

inductive Label where
  | lpcRestoreSignalAsmArm | order12 | order12a | order11 | order11a | order10 | order10a
  | order9 | order9a | order8 | order8a | order7 | order7a | order6 | order6a | order5 | order5a
  | order4 | order4a | order3 | order3a | order2 | order2a | order1 | order1a
  | genericRestoreSignal | duffsDeviceOuter | duffsCase7 | duffsCase5 | duffsCase3 | duffsCase1
  | duffsEnd | duffsCase0 | duffsCase6 | duffsCase4 | duffsCase2
  deriving DecidableEq, Repr

def lpcRestoreSignalAsmArm : List (Instr Label) :=
  [.stm .db .r13 true pushed,
   .ldr .r5 (.at .r13 40),
   .ldr .r14 (.at .r13 44),
   .sub .r6 .r3 (.imm 1),
   .cmp .r6 (.imm 11),
   .when .ls (.ldrPc .r6 [.order1, .order2, .order3, .order4, .order5, .order6, .order7, .order8,
     .order9, .order10, .order11, .order12]),
   .b .genericRestoreSignal]

def order12 : List (Instr Label) :=
  [.ldm .ia .r2 true [.r8, .r9, .r10, .r11],
   .sub .r14 .r14 (.imm 16)]

def order12a : List (Instr Label) :=
  [.ldm .ia .r14 false [.r3, .r4, .r6, .r7],
   .mul .r12 .r8 .r7, .mla .r12 .r9 .r6 .r12, .mla .r12 .r10 .r4 .r12, .mla .r12 .r11 .r3 .r12,
   .ldm .ia .r2 true [.r8, .r9, .r10, .r11],
   .ldm .db .r14 true [.r3, .r4, .r6, .r7],
   .mla .r12 .r8 .r7 .r12, .mla .r12 .r9 .r6 .r12, .mla .r12 .r10 .r4 .r12,
   .mla .r12 .r11 .r3 .r12,
   .ldm .ia .r2 false [.r8, .r9, .r10, .r11],
   .ldm .db .r14 false [.r3, .r4, .r6, .r7],
   .mla .r12 .r8 .r7 .r12, .mla .r12 .r9 .r6 .r12, .mla .r12 .r10 .r4 .r12,
   .mla .r12 .r11 .r3 .r12,
   .ldr .r3 (.post .r0 4),
   .add .r3 .r3 (.asrBy .r12 .r5),
   .str .r3 (.at .r14 32),
   .subs .r1 .r1 (.imm 1),
   .when .eq (.ldmfdPc .r13 popped),
   .add .r14 .r14 (.imm 4),
   .ldm .db .r14 false [.r3, .r4, .r6, .r7],
   .mul .r12 .r11 .r3, .mla .r12 .r10 .r4 .r12, .mla .r12 .r9 .r6 .r12, .mla .r12 .r8 .r7 .r12,
   .ldm .db .r2 true [.r8, .r9, .r10, .r11],
   .ldm .ia .r14 true [.r3, .r4, .r6, .r7],
   .mla .r12 .r11 .r3 .r12, .mla .r12 .r10 .r4 .r12, .mla .r12 .r9 .r6 .r12,
   .mla .r12 .r8 .r7 .r12,
   .ldm .db .r2 false [.r8, .r9, .r10, .r11],
   .ldm .ia .r14 false [.r3, .r4, .r6, .r7],
   .mla .r12 .r11 .r3 .r12, .mla .r12 .r10 .r4 .r12, .mla .r12 .r9 .r6 .r12,
   .mla .r12 .r8 .r7 .r12,
   .ldr .r3 (.post .r0 4),
   .add .r3 .r3 (.asrBy .r12 .r5),
   .str .r3 (.at .r14 16),
   .subs .r1 .r1 (.imm 1),
   .add .r14 .r14 (.imm 4),
   .when .ne (.b .order12a),
   .ldmfdPc .r13 popped]

def order11 : List (Instr Label) :=
  [.ldm .ia .r2 true [.r8, .r9, .r10, .r11],
   .sub .r14 .r14 (.imm 16)]

def order11a : List (Instr Label) :=
  [.ldm .ia .r14 false [.r3, .r4, .r6, .r7],
   .mul .r12 .r8 .r7, .mla .r12 .r9 .r6 .r12, .mla .r12 .r10 .r4 .r12, .mla .r12 .r11 .r3 .r12,
   .ldm .ia .r2 true [.r8, .r9, .r10, .r11],
   .ldm .db .r14 true [.r3, .r4, .r6, .r7],
   .mla .r12 .r8 .r7 .r12, .mla .r12 .r9 .r6 .r12, .mla .r12 .r10 .r4 .r12,
   .mla .r12 .r11 .r3 .r12,
   .ldm .ia .r2 false [.r8, .r9, .r10],
   .ldm .da .r14 false [.r3, .r4, .r6, .r7],
   .mla .r12 .r8 .r6 .r12, .mla .r12 .r9 .r4 .r12, .mla .r12 .r10 .r3 .r12,
   .ldr .r3 (.post .r0 4),
   .add .r3 .r3 (.asrBy .r12 .r5),
   .str .r3 (.at .r14 32),
   .subs .r1 .r1 (.imm 1),
   .when .eq (.ldmfdPc .r13 popped),
   .add .r14 .r14 (.imm 4),
   .mul .r12 .r10 .r4, .mla .r12 .r9 .r6 .r12, .mla .r12 .r8 .r7 .r12,
   .ldm .db .r2 true [.r8, .r9, .r10, .r11],
   .ldm .ia .r14 true [.r3, .r4, .r6, .r7],
   .mla .r12 .r11 .r3 .r12, .mla .r12 .r10 .r4 .r12, .mla .r12 .r9 .r6 .r12,
   .mla .r12 .r8 .r7 .r12,
   .ldm .db .r2 false [.r8, .r9, .r10, .r11],
   .ldm .ia .r14 false [.r3, .r4, .r6, .r7],
   .mla .r12 .r11 .r3 .r12, .mla .r12 .r10 .r4 .r12, .mla .r12 .r9 .r6 .r12,
   .mla .r12 .r8 .r7 .r12,
   .ldr .r3 (.post .r0 4),
   .add .r3 .r3 (.asrBy .r12 .r5),
   .str .r3 (.at .r14 16),
   .subs .r1 .r1 (.imm 1),
   .add .r14 .r14 (.imm 4),
   .when .ne (.b .order11a),
   .ldmfdPc .r13 popped]

def order10 : List (Instr Label) :=
  [.ldm .ia .r2 true [.r8, .r9, .r10, .r11],
   .sub .r14 .r14 (.imm 16)]

def order10a : List (Instr Label) :=
  [.ldm .ia .r14 false [.r3, .r4, .r6, .r7],
   .mul .r12 .r8 .r7, .mla .r12 .r9 .r6 .r12, .mla .r12 .r10 .r4 .r12, .mla .r12 .r11 .r3 .r12,
   .ldm .ia .r2 true [.r8, .r9, .r10, .r11],
   .ldm .db .r14 true [.r3, .r4, .r6, .r7],
   .mla .r12 .r8 .r7 .r12, .mla .r12 .r9 .r6 .r12, .mla .r12 .r10 .r4 .r12,
   .mla .r12 .r11 .r3 .r12,
   .ldm .ia .r2 false [.r8, .r9],
   .ldm .da .r14 false [.r4, .r6, .r7],
   .mla .r12 .r8 .r6 .r12, .mla .r12 .r9 .r4 .r12,
   .ldr .r3 (.post .r0 4),
   .add .r3 .r3 (.asrBy .r12 .r5),
   .str .r3 (.at .r14 32),
   .subs .r1 .r1 (.imm 1),
   .when .eq (.ldmfdPc .r13 popped),
   .add .r14 .r14 (.imm 4),
   .mul .r12 .r9 .r6, .mla .r12 .r8 .r7 .r12,
   .ldm .db .r2 true [.r8, .r9, .r10, .r11],
   .ldm .ia .r14 true [.r3, .r4, .r6, .r7],
   .mla .r12 .r11 .r3 .r12, .mla .r12 .r10 .r4 .r12, .mla .r12 .r9 .r6 .r12,
   .mla .r12 .r8 .r7 .r12,
   .ldm .db .r2 false [.r8, .r9, .r10, .r11],
   .ldm .ia .r14 false [.r3, .r4, .r6, .r7],
   .mla .r12 .r11 .r3 .r12, .mla .r12 .r10 .r4 .r12, .mla .r12 .r9 .r6 .r12,
   .mla .r12 .r8 .r7 .r12,
   .ldr .r3 (.post .r0 4),
   .add .r3 .r3 (.asrBy .r12 .r5),
   .str .r3 (.at .r14 16),
   .subs .r1 .r1 (.imm 1),
   .add .r14 .r14 (.imm 4),
   .when .ne (.b .order10a),
   .ldmfdPc .r13 popped]

def order9 : List (Instr Label) :=
  [.ldm .ia .r2 true [.r8, .r9, .r10, .r11],
   .sub .r14 .r14 (.imm 16)]

def order9a : List (Instr Label) :=
  [.ldm .ia .r14 false [.r3, .r4, .r6, .r7],
   .mul .r12 .r8 .r7, .mla .r12 .r9 .r6 .r12, .mla .r12 .r10 .r4 .r12, .mla .r12 .r11 .r3 .r12,
   .ldm .ia .r2 true [.r8, .r9, .r10, .r11],
   .ldm .db .r14 true [.r3, .r4, .r6, .r7],
   .mla .r12 .r8 .r7 .r12, .mla .r12 .r9 .r6 .r12, .mla .r12 .r10 .r4 .r12,
   .mla .r12 .r11 .r3 .r12,
   .ldr .r8 (.at .r2 0),
   .ldm .da .r14 false [.r6, .r7],
   .mla .r12 .r8 .r6 .r12,
   .ldr .r3 (.post .r0 4),
   .add .r3 .r3 (.asrBy .r12 .r5),
   .str .r3 (.at .r14 32),
   .subs .r1 .r1 (.imm 1),
   .when .eq (.ldmfdPc .r13 popped),
   .add .r14 .r14 (.imm 4),
   .mul .r12 .r8 .r7,
   .ldm .db .r2 true [.r8, .r9, .r10, .r11],
   .ldm .ia .r14 true [.r3, .r4, .r6, .r7],
   .mla .r12 .r11 .r3 .r12, .mla .r12 .r10 .r4 .r12, .mla .r12 .r9 .r6 .r12,
   .mla .r12 .r8 .r7 .r12,
   .ldm .db .r2 false [.r8, .r9, .r10, .r11],
   .ldm .ia .r14 false [.r3, .r4, .r6, .r7],
   .mla .r12 .r11 .r3 .r12, .mla .r12 .r10 .r4 .r12, .mla .r12 .r9 .r6 .r12,
   .mla .r12 .r8 .r7 .r12,
   .ldr .r3 (.post .r0 4),
   .add .r3 .r3 (.asrBy .r12 .r5),
   .str .r3 (.at .r14 16),
   .subs .r1 .r1 (.imm 1),
   .add .r14 .r14 (.imm 4),
   .when .ne (.b .order9a),
   .ldmfdPc .r13 popped]

def order8 : List (Instr Label) :=
  [.ldm .ia .r2 true [.r8, .r9, .r10, .r11],
   .sub .r14 .r14 (.imm 16)]

def order8a : List (Instr Label) :=
  [.ldm .ia .r14 false [.r3, .r4, .r6, .r7],
   .mul .r12 .r8 .r7, .mla .r12 .r9 .r6 .r12, .mla .r12 .r10 .r4 .r12, .mla .r12 .r11 .r3 .r12,
   .ldm .ia .r2 false [.r8, .r9, .r10, .r11],
   .ldm .db .r14 false [.r3, .r4, .r6, .r7],
   .mla .r12 .r8 .r7 .r12, .mla .r12 .r9 .r6 .r12, .mla .r12 .r10 .r4 .r12,
   .mla .r12 .r11 .r3 .r12,
   .ldr .r3 (.post .r0 4),
   .add .r3 .r3 (.asrBy .r12 .r5),
   .str .r3 (.at .r14 16),
   .subs .r1 .r1 (.imm 1),
   .when .eq (.ldmfdPc .r13 popped),
   .add .r14 .r14 (.imm 4),
   .ldm .db .r14 false [.r3, .r4, .r6, .r7],
   .mul .r12 .r11 .r3, .mla .r12 .r10 .r4 .r12, .mla .r12 .r9 .r6 .r12, .mla .r12 .r8 .r7 .r12,
   .ldm .db .r2 false [.r8, .r9, .r10, .r11],
   .ldm .ia .r14 false [.r3, .r4, .r6, .r7],
   .mla .r12 .r11 .r3 .r12, .mla .r12 .r10 .r4 .r12, .mla .r12 .r9 .r6 .r12,
   .mla .r12 .r8 .r7 .r12,
   .ldr .r3 (.post .r0 4),
   .add .r3 .r3 (.asrBy .r12 .r5),
   .str .r3 (.at .r14 16),
   .subs .r1 .r1 (.imm 1),
   .add .r14 .r14 (.imm 4),
   .when .ne (.b .order8a),
   .ldmfdPc .r13 popped]

def order7 : List (Instr Label) :=
  [.ldm .ia .r2 true [.r8, .r9, .r10, .r11],
   .sub .r14 .r14 (.imm 16)]

def order7a : List (Instr Label) :=
  [.ldm .ia .r14 false [.r3, .r4, .r6, .r7],
   .mul .r12 .r8 .r7, .mla .r12 .r9 .r6 .r12, .mla .r12 .r10 .r4 .r12, .mla .r12 .r11 .r3 .r12,
   .ldm .ia .r2 false [.r8, .r9, .r10],
   .ldm .da .r14 false [.r3, .r4, .r6, .r7],
   .mla .r12 .r8 .r6 .r12, .mla .r12 .r9 .r4 .r12, .mla .r12 .r10 .r3 .r12,
   .ldr .r3 (.post .r0 4),
   .add .r3 .r3 (.asrBy .r12 .r5),
   .str .r3 (.at .r14 16),
   .subs .r1 .r1 (.imm 1),
   .when .eq (.ldmfdPc .r13 popped),
   .add .r14 .r14 (.imm 4),
   .mul .r12 .r10 .r4, .mla .r12 .r9 .r6 .r12, .mla .r12 .r8 .r7 .r12,
   .ldm .db .r2 false [.r8, .r9, .r10, .r11],
   .ldm .ia .r14 false [.r3, .r4, .r6, .r7],
   .mla .r12 .r11 .r3 .r12, .mla .r12 .r10 .r4 .r12, .mla .r12 .r9 .r6 .r12,
   .mla .r12 .r8 .r7 .r12,
   .ldr .r3 (.post .r0 4),
   .add .r3 .r3 (.asrBy .r12 .r5),
   .str .r3 (.at .r14 16),
   .subs .r1 .r1 (.imm 1),
   .add .r14 .r14 (.imm 4),
   .when .ne (.b .order7a),
   .ldmfdPc .r13 popped]

def order6 : List (Instr Label) :=
  [.ldm .ia .r2 false [.r6, .r7, .r8, .r9, .r10, .r11],
   .sub .r14 .r14 (.imm 12)]

def order6a : List (Instr Label) :=
  [.ldm .ia .r14 false [.r2, .r3, .r4],
   .mul .r12 .r6 .r4, .mla .r12 .r7 .r3 .r12, .mla .r12 .r8 .r2 .r12,
   .ldm .db .r14 false [.r2, .r3, .r4],
   .mla .r12 .r9 .r4 .r12, .mla .r12 .r10 .r3 .r12, .mla .r12 .r11 .r2 .r12,
   .ldr .r3 (.post .r0 4),
   .add .r3 .r3 (.asrBy .r12 .r5),
   .str .r3 (.at .r14 12),
   .add .r14 .r14 (.imm 4),
   .subs .r1 .r1 (.imm 1),
   .when .ne (.b .order6a),
   .ldmfdPc .r13 popped]

def order5 : List (Instr Label) :=
  [.ldm .ia .r2 false [.r6, .r7, .r8, .r9, .r10],
   .ldr .r12 (.pre .r14 (-4))]

def order5a : List (Instr Label) :=
  [.ldm .db .r14 false [.r2, .r3, .r4, .r11],
   .mul .r12 .r6 .r12, .mla .r12 .r7 .r11 .r12, .mla .r12 .r8 .r4 .r12, .mla .r12 .r9 .r3 .r12,
   .mla .r11 .r10 .r2 .r12,
   .ldr .r3 (.post .r0 4),
   .add .r12 .r3 (.asrBy .r11 .r5),
   .str .r12 (.pre .r14 4),
   .subs .r1 .r1 (.imm 1),
   .when .ne (.b .order5a),
   .ldmfdPc .r13 popped]

def order4 : List (Instr Label) :=
  [.ldm .ia .r2 false [.r6, .r7, .r8, .r9]]

def order4a : List (Instr Label) :=
  [.ldm .db .r14 false [.r2, .r3, .r4, .r11],
   .mul .r12 .r6 .r11, .mla .r12 .r7 .r4 .r12, .mla .r12 .r8 .r3 .r12, .mla .r12 .r9 .r2 .r12,
   .ldr .r3 (.post .r0 4),
   .add .r3 .r3 (.asrBy .r12 .r5),
   .str .r3 (.post .r14 4),
   .subs .r1 .r1 (.imm 1),
   .when .ne (.b .order4a),
   .ldmfdPc .r13 popped]

def order3 : List (Instr Label) :=
  [.ldm .ia .r2 false [.r6, .r7, .r8]]

def order3a : List (Instr Label) :=
  [.ldm .db .r14 false [.r2, .r3, .r4],
   .mul .r12 .r6 .r4, .mla .r12 .r7 .r3 .r12, .mla .r12 .r8 .r2 .r12,
   .ldr .r3 (.post .r0 4),
   .add .r3 .r3 (.asrBy .r12 .r5),
   .str .r3 (.post .r14 4),
   .subs .r1 .r1 (.imm 1),
   .when .ne (.b .order3a),
   .ldmfdPc .r13 popped]

def order2 : List (Instr Label) :=
  [.ldm .ia .r2 false [.r6, .r7],
   .ldm .db .r14 false [.r2, .r3]]

def order2a : List (Instr Label) :=
  [.mul .r12 .r6 .r3, .mla .r12 .r7 .r2 .r12,
   .ldr .r3 (.post .r0 4),
   .add .r3 .r3 (.asrBy .r12 .r5),
   .ldr .r2 (.at .r14 (-4)),
   .str .r3 (.post .r14 4),
   .subs .r1 .r1 (.imm 1),
   .when .ne (.b .order2a),
   .ldmfdPc .r13 popped]

def order1 : List (Instr Label) :=
  [.ldr .r6 (.at .r2 0),
   .ldr .r3 (.at .r14 (-4))]

def order1a : List (Instr Label) :=
  [.mul .r12 .r6 .r3,
   .ldr .r3 (.post .r0 4),
   .add .r3 .r3 (.asrBy .r12 .r5),
   .str .r3 (.post .r14 4),
   .subs .r1 .r1 (.imm 1),
   .when .ne (.b .order1a),
   .ldmfdPc .r13 popped]

def genericRestoreSignal : List (Instr Label) :=
  [.add .r2 .r2 (.asl .r3 2),
   .add .r7 .r3 (.imm 7),
   .mov .r8 (.lsr .r7 3)]

def duffsDeviceOuter : List (Instr Label) :=
  [.sub .r14 .r14 (.asl .r3 2),
   .mov .r7 (.reg .r8),
   .mov .r9 (.reg .r2),
   .mov .r12 (.imm 0),
   .and .r4 .r3 (.imm 7),
   .cmp .r4 (.imm 7),
   .when .ls (.ldrPc .r4 [.duffsCase0, .duffsCase1, .duffsCase2, .duffsCase3, .duffsCase4,
     .duffsCase5, .duffsCase6, .duffsCase7]),
   .b .duffsEnd]

def duffsCase7 : List (Instr Label) :=
  [.ldm .ia .r14 true [.r4, .r6],
   .ldm .db .r9 true [.r10, .r11],
   .mla .r12 .r4 .r11 .r12, .mla .r12 .r6 .r10 .r12]

def duffsCase5 : List (Instr Label) :=
  [.ldm .ia .r14 true [.r4, .r6],
   .ldm .db .r9 true [.r10, .r11],
   .mla .r12 .r4 .r11 .r12, .mla .r12 .r6 .r10 .r12]

def duffsCase3 : List (Instr Label) :=
  [.ldm .ia .r14 true [.r4, .r6],
   .ldm .db .r9 true [.r10, .r11],
   .mla .r12 .r4 .r11 .r12, .mla .r12 .r6 .r10 .r12]

def duffsCase1 : List (Instr Label) :=
  [.ldr .r10 (.pre .r9 (-4)),
   .ldr .r11 (.post .r14 4),
   .mla .r12 .r10 .r11 .r12,
   .subs .r7 .r7 (.imm 1),
   .when .ne (.b .duffsCase0)]

def duffsEnd : List (Instr Label) :=
  [.ldr .r10 (.post .r0 4),
   .add .r11 .r10 (.asrBy .r12 .r5),
   .str .r11 (.post .r14 4),
   .subs .r1 .r1 (.imm 1),
   .when .ne (.b .duffsDeviceOuter),
   .ldmfdPc .r13 popped]

def duffsCase0 : List (Instr Label) :=
  [.ldm .ia .r14 true [.r4, .r6],
   .ldm .db .r9 true [.r10, .r11],
   .mla .r12 .r4 .r11 .r12, .mla .r12 .r6 .r10 .r12]

def duffsCase6 : List (Instr Label) :=
  [.ldm .ia .r14 true [.r4, .r6],
   .ldm .db .r9 true [.r10, .r11],
   .mla .r12 .r4 .r11 .r12, .mla .r12 .r6 .r10 .r12]

def duffsCase4 : List (Instr Label) :=
  [.ldm .ia .r14 true [.r4, .r6],
   .ldm .db .r9 true [.r10, .r11],
   .mla .r12 .r4 .r11 .r12, .mla .r12 .r6 .r10 .r12]

def duffsCase2 : List (Instr Label) :=
  [.ldm .ia .r14 true [.r4, .r6],
   .ldm .db .r9 true [.r10, .r11],
   .mla .r12 .r4 .r11 .r12, .mla .r12 .r6 .r10 .r12,
   .subs .r7 .r7 (.imm 1),
   .when .ne (.b .duffsCase0),
   .ldr .r10 (.post .r0 4),
   .add .r11 .r10 (.asrBy .r12 .r5),
   .str .r11 (.post .r14 4),
   .subs .r1 .r1 (.imm 1),
   .when .ne (.b .duffsDeviceOuter),
   .ldmfdPc .r13 popped]

def program : Program Label :=
  [(.lpcRestoreSignalAsmArm, lpcRestoreSignalAsmArm), (.order12, order12),
   (.order12a, order12a), (.order11, order11), (.order11a, order11a), (.order10, order10),
   (.order10a, order10a), (.order9, order9), (.order9a, order9a), (.order8, order8),
   (.order8a, order8a), (.order7, order7), (.order7a, order7a), (.order6, order6),
   (.order6a, order6a), (.order5, order5), (.order5a, order5a), (.order4, order4),
   (.order4a, order4a), (.order3, order3), (.order3a, order3a), (.order2, order2),
   (.order2a, order2a), (.order1, order1), (.order1a, order1a),
   (.genericRestoreSignal, genericRestoreSignal), (.duffsDeviceOuter, duffsDeviceOuter),
   (.duffsCase7, duffsCase7), (.duffsCase5, duffsCase5), (.duffsCase3, duffsCase3),
   (.duffsCase1, duffsCase1), (.duffsEnd, duffsEnd), (.duffsCase0, duffsCase0),
   (.duffsCase6, duffsCase6), (.duffsCase4, duffsCase4), (.duffsCase2, duffsCase2)]

end LpcAsm
