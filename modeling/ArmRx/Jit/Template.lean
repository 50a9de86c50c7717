import ArmRx.A64.Buffer
import ArmRx.Jit.Emit

/-!
# The assembly template

Embeds the parts of `src/jit_compiler_a64_static.S` that the generated code is
checked against: the exits the main loop branches to, the load of the masks in
the prologue, and the dataset-item template. Aliases are written as the
instructions they assemble to: `mov` is `orr` with the zero register, or `add`
with the stack pointer; `lsr` is `ubfx`, `ror` is `extr`, `cmp` is `subs`.

Label offsets are those of the assembled template (`jit_contract.h` fixes four
of them). The rest of the prologue, the loads and stores of an iteration and the
code behind the exits are left out.
-/

namespace ArmRx.Jit

open ArmRx.A64

/-! ## Labels -/

namespace Label

def vmInstructionsEnd : Nat := 49984
def vmInstructionsEndLight : Nat := 50436
def vmInstructionsEndHybrid : Nat := 50508

end Label

/-- `CodeSize`: where the dataset-item function is placed, in the template and
in the code buffer. -/
def CodeSize : Nat := 51516

/-! ## The prologue -/

/-- The saved `MemoryRegisters*`, `ma`/`mx`, group A, the masks and `FPCR`. -/
def loadRegisters : List Insn :=
  [.str 1 31 24, .ldp 9 1 1 0, .orrReg 10 31 9, .ldpQ 24 25 0 192, .ldpQ 26 27 0 224,
   .orrImm 16 31 0x00FFFFFFFFC00000, .insD 29 0 16, .insD 29 1 16, .ldrQ 30 0 64,
   .movz 16 0x80f0 3, .insD 31 0 16, .insD 31 1 16, .mrsFpcr 8, .rbit 8 8, .strPre 0 31 (-16)]

/-! ## The dataset-item template -/

/-- The words of a `.quad`. -/
def quad (v : BitVec 64) : List Slot :=
  [.word (v.setWidth 32), .word ((v >>> 32).setWidth 32)]

/-- `randomx_calc_dataset_item_aarch64` up to the branch over its constants. -/
def calcDatasetItem : List Insn :=
  [.subImm 31 31 112, .stp 0 1 31 0, .stp 2 3 31 16, .stp 4 5 31 32, .stp 6 7 31 48,
   .stp 8 9 31 64, .stp 10 11 31 80, .stp 12 13 31 96,
   .ldrLit 12 (CodeSize + 112), .orrReg 8 31 0, .orrReg 9 31 1, .orrReg 10 31 2,
   .madd 0 2 12 12, .ldrLit 13 (CodeSize + 120), .ldrLit 12 (CodeSize + 128), .eorReg 1 0 13,
   .ldrLit 13 (CodeSize + 136), .eorReg 2 0 12, .ldrLit 12 (CodeSize + 144), .eorReg 3 0 13,
   .ldrLit 13 (CodeSize + 152), .eorReg 4 0 12, .ldrLit 12 (CodeSize + 160), .eorReg 5 0 13,
   .ldrLit 13 (CodeSize + 168), .eorReg 6 0 12, .eorReg 7 0 13]

/-- `superscalarMul0`, `superscalarAdd1` to `superscalarAdd7`. -/
def superscalarConstants : List (BitVec 64) :=
  [6364136223846793005, 9298411001130361340, 12065312585734608966, 9306329213124626780,
   5281919268842080866, 10536153434571861004, 3398623926847679864, 9549104520008361294]

/-- `randomx_calc_dataset_item_aarch64_prefetch` behind its patched mask. -/
def calcDatasetItemPrefetch : List Insn := [.addReg 11 8 11 6, .prfm]

def calcDatasetItemMix : List Insn :=
  [.ldp 12 13 11 0, .eorReg 0 0 12, .eorReg 1 1 13, .ldp 12 13 11 16, .eorReg 2 2 12,
   .eorReg 3 3 13, .ldp 12 13 11 32, .eorReg 4 4 12, .eorReg 5 5 13, .ldp 12 13 11 48,
   .eorReg 6 6 12, .eorReg 7 7 13]

def calcDatasetItemStoreResult : List Insn :=
  [.stp 0 1 9 0, .stp 2 3 9 16, .stp 4 5 9 32, .stp 6 7 9 48,
   .ldp 0 1 31 0, .ldp 2 3 31 16, .ldp 4 5 31 32, .ldp 6 7 31 48, .ldp 8 9 31 64,
   .ldp 10 11 31 80, .ldp 12 13 31 96, .addImm 31 31 112]

end ArmRx.Jit
