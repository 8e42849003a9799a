import SBoy28.Lib.Traps

/-!
# From the boot sector to the kernel

The last instructions of the boot sector run in protected mode and jump to the kernel, whose first instructions set
up a stack, clear the `.bss` section, the stack included, and call `kmain`.
-/

namespace SBoy28.Boot
open Lib

section Model

/-- What the linker knows of the kernel: `_start`, the limits of `.bss`, the stack inside of it, `kmain`, and the
instruction behind the call. The kernel is loaded into conventional memory. -/
structure Image where
  start : UInt32
  sbss : UInt32
  ebss : UInt32
  stackBottom : UInt32
  kmain : UInt32
  afterCall : UInt32
  room : sbss.toNat ≤ stackBottom.toNat ∧ stackBottom.toNat + 16384 ≤ ebss.toNat
  conventional : ebss.toNat ≤ 0xA0000

def Image.stackTop (image : Image) : UInt32 := image.stackBottom + 16384

def withRegs (p : Processor) (regs : Registers) : Processor := { p with cpu := { p.cpu with regs := regs } }

/-- `mov $v, %al`. -/
def setAl (p : Processor) (v : UInt8) : Processor :=
  withRegs p { p.cpu.regs with eax := (p.cpu.regs.eax &&& 0xFFFFFF00) ||| v.toUInt32 }

/-- `mov $v, %ax`. -/
def setAx (p : Processor) (v : UInt16) : Processor :=
  withRegs p { p.cpu.regs with eax := (p.cpu.regs.eax &&& 0xFFFF0000) ||| v.toUInt32 }

/-- `init_pm` of the boot sector, to `rep stosb`. -/
def setUpBar (p : Processor) : Processor :=
  let p := (setAx p 0x10).loadSegments 0x10
  let p := withRegs p { p.cpu.regs with edi := 0xA0000 }
  let p := withRegs p { p.cpu.regs with edi := p.cpu.regs.edi + 3200 }
  let p := withRegs p { p.cpu.regs with ecx := 3200 }
  setAl p 2

/-- `init_pm`: a green bar, and the jump to the address in `kernel_exec_addr`. -/
def initPm (kernelExecAddr : ℕ) (p : Processor) : Processor :=
  let p := (setUpBar p).repStosb
  { p with cpu := { p.cpu with eip := load32 p.cpu.mem kernelExecAddr } }

/-- `_start` of `boot.s`, to `rep stosb`. -/
def setUp (image : Image) (p : Processor) : Processor :=
  let p := p.cli
  let p := withRegs p { p.cpu.regs with esp := image.stackTop }
  let p := p.push p.cpu.regs.ebx
  let p := withRegs p { p.cpu.regs with edi := image.sbss, ecx := image.ebss }
  let p := withRegs p { p.cpu.regs with ecx := p.cpu.regs.ecx - p.cpu.regs.edi }
  withRegs p { p.cpu.regs with eax := 0 }

/-- `_start`, to the first instruction of `kmain`. -/
def start (image : Image) (p : Processor) : Processor :=
  let p := (setUp image p).repStosb.push image.afterCall
  { p with cpu := { p.cpu with eip := image.kmain } }

/-- The argument of a function that has just been called. -/
def firstArgument (p : Processor) : UInt32 := load32 p.cpu.mem (p.cpu.regs.esp.toNat + 4)

end Model

section Multiboot

def mbFlag (m : Memory) (mbd bit : UInt32) : Bool := mbd ≠ 0 && (load32 m mbd.toNat &&& bit) ≠ 0

/-- A field of the information that is there when the flag is set. -/
def mbField (m : Memory) (mbd bit : UInt32) (offset : ℕ) : UInt32 :=
  if mbFlag m mbd bit then load32 m (mbd.toNat + offset) else 0

def mbGetMemLower (m : Memory) (mbd : UInt32) : UInt32 := mbField m mbd 0x1 4

def mbGetMemUpper (m : Memory) (mbd : UInt32) : UInt32 := mbField m mbd 0x1 8

def mbGetBootDevice (m : Memory) (mbd : UInt32) : UInt32 := mbField m mbd 0x2 12

def mbGetBootDrive (m : Memory) (mbd : UInt32) : UInt8 := (mbGetBootDevice m mbd >>> 24 &&& 0xFF).toUInt8

def mbGetBootPartition (m : Memory) (mbd : UInt32) : UInt8 := (mbGetBootDevice m mbd >>> 16 &&& 0xFF).toUInt8

def mbGetBootSubpartition (m : Memory) (mbd : UInt32) : UInt8 := (mbGetBootDevice m mbd >>> 8 &&& 0xFF).toUInt8

def mbGetMmapLength (m : Memory) (mbd : UInt32) : UInt32 := mbField m mbd 0x40 44

def mbGetMmapAddr (m : Memory) (mbd : UInt32) : UInt32 := mbField m mbd 0x40 48

/-- Nothing is known of the machine. -/
def Uninformed (m : Memory) (mbd : UInt32) : Prop :=
  mbGetMemLower m mbd = 0 ∧ mbGetMemUpper m mbd = 0 ∧ mbGetBootDevice m mbd = 0 ∧ mbGetBootDrive m mbd = 0 ∧
    mbGetBootPartition m mbd = 0 ∧ mbGetBootSubpartition m mbd = 0 ∧ mbGetMmapLength m mbd = 0 ∧
    mbGetMmapAddr m mbd = 0

lemma mbField_null (m : Memory) (bit : UInt32) (offset : ℕ) : mbField m 0 bit offset = 0 := rfl

lemma uninformed_null (m : Memory) : Uninformed m 0 := by
  simp only [Uninformed, mbGetMemLower, mbGetMemUpper, mbGetBootDevice, mbGetBootDrive, mbGetBootPartition,
    mbGetBootSubpartition, mbGetMmapLength, mbGetMmapAddr, mbField_null]
  decide

end Multiboot

section Entry

variable {image : Image} {p q : Processor} {kernelExecAddr : ℕ}

/-- The kernel begins with its static variables at zero, whatever was in memory, and without interrupts. -/
structure Clean (image : Image) (p r : Processor) : Prop where
  entered : r.cpu.eip = image.kmain
  stack : r.cpu.regs.esp = image.stackTop - 8
  returns : load32 r.cpu.mem r.cpu.regs.esp.toNat = image.afterCall
  interrupts : r.eflags &&& Processor.interruptFlag = 0
  argument : firstArgument r = 0
  bss : ∀ a, image.sbss.toNat ≤ a → a < image.ebss.toNat →
    (a < r.cpu.regs.esp.toNat ∨ r.cpu.regs.esp.toNat + 4 ≤ a) → r.cpu.mem a = 0
  rest : ∀ a, a < image.sbss.toNat ∨ image.ebss.toNat ≤ a → r.cpu.mem a = p.cpu.mem a

lemma Image.stackTop_toNat (image : Image) : image.stackTop.toNat = image.stackBottom.toNat + 16384 := by
  have hroom := image.room
  have hlow := image.conventional
  rw [Image.stackTop, toNat_add_of_lt]
  · rfl
  · change image.stackBottom.toNat + 16384 < 2 ^ 32
    omega

lemma Image.size_toNat (image : Image) : (image.ebss - image.sbss).toNat = image.ebss.toNat - image.sbss.toNat := by
  have hroom := image.room
  exact toNat_sub_of_le (by omega)

/-- An address of the stack, counted from its top. -/
lemma Image.stackTop_sub (image : Image) {n : UInt32} (hn : n.toNat ≤ 16384) :
    (image.stackTop - n).toNat = image.stackBottom.toNat + 16384 - n.toNat := by
  rw [← image.stackTop_toNat]
  apply toNat_sub_of_le
  rw [image.stackTop_toNat]
  omega

/-- The stack is in `.bss`, with the pointer that the boot loader has handed over. -/
lemma cleared (image : Image) (hup : p.eflags &&& Processor.directionFlag = 0) :
    (setUp image p).repStosb = filledTurns (setUp image p) (image.ebss - image.sbss).toNat := by
  have hroom := image.room
  have hlow := image.conventional
  have hsize := image.size_toNat
  apply repStosb_eq
  · exact Processor.cli_directionFlag hup
  · change image.sbss.toNat + (image.ebss - image.sbss).toNat ≤ 2 ^ 32
    omega

lemma pushed_twice (image : Image) : image.stackTop - 4 - 4 = image.stackTop - 8 := by
  rw [sub_sub]
  rfl

lemma start_esp (image : Image) (hup : p.eflags &&& Processor.directionFlag = 0) :
    (start image p).cpu.regs.esp = image.stackTop - 8 := by
  rw [start, cleared image hup]
  exact pushed_twice image

/-- The pointer is pushed, `.bss` is filled with zeros, and the return address is pushed. -/
lemma start_mem (image : Image) (hup : p.eflags &&& Processor.directionFlag = 0) :
    (start image p).cpu.mem = store32 (fillBytes (store32 p.cpu.mem (image.stackTop - 4).toNat p.cpu.regs.ebx)
      image.sbss.toNat (image.ebss - image.sbss).toNat 0) (image.stackTop - 8).toNat image.afterCall := by
  have hpushed : (setUp image p).cpu.mem = store32 p.cpu.mem (image.stackTop - 4).toNat p.cpu.regs.ebx := by
    simp only [setUp, withRegs, Processor.push, Cpu.push, Cpu.setEsp, Processor.cli]
  have hal : (setUp image p).cpu.regs.eax = 0 := rfl
  have hesp : (setUp image p).cpu.regs.esp = image.stackTop - 4 := rfl
  rw [start, cleared image hup, ← pushed_twice, ← hpushed]
  simp only [Processor.push, Cpu.push, Cpu.setEsp, filledTurns, hal, hesp]
  rfl

lemma start_bss (image : Image) (hup : p.eflags &&& Processor.directionFlag = 0) {a : ℕ}
    (hlo : image.sbss.toNat ≤ a) (hhi : a < image.ebss.toNat) (hout : a < (start image p).cpu.regs.esp.toNat ∨
      (start image p).cpu.regs.esp.toNat + 4 ≤ a) : (start image p).cpu.mem a = 0 := by
  have hsize := image.size_toNat
  rw [start_esp image hup] at hout
  rw [start_mem image hup, store32_outside _ _ hout, fillBytes_inside _ _ ⟨hlo, by omega⟩]

/-- The word above the return address is the one that was pushed, and cleared. -/
lemma start_argument (image : Image) (hup : p.eflags &&& Processor.directionFlag = 0) :
    firstArgument (start image p) = 0 := by
  have hroom := image.room
  have hesp : (start image p).cpu.regs.esp.toNat = image.stackBottom.toNat + 16384 - 8 := by
    rw [start_esp image hup]
    exact image.stackTop_sub (by decide)
  have hzero : ∀ k < 4, (start image p).cpu.mem ((start image p).cpu.regs.esp.toNat + 4 + k) = 0 := fun k hk =>
    start_bss image hup (by omega) (by omega) (Or.inr (by omega))
  calc firstArgument (start image p) = load32 (fun _ => 0) 0 := load32_congr fun k hk => hzero k hk
    _ = 0 := rfl

lemma start_clean (image : Image) (hup : p.eflags &&& Processor.directionFlag = 0) :
    Clean image p (start image p) := by
  have hroom := image.room
  have hsize := image.size_toNat
  have h4 : (image.stackTop - 4).toNat = image.stackBottom.toNat + 16384 - 4 := image.stackTop_sub (by decide)
  have h8 : (image.stackTop - 8).toNat = image.stackBottom.toNat + 16384 - 8 := image.stackTop_sub (by decide)
  constructor
  · rfl
  · exact start_esp image hup
  · rw [start_esp image hup, start_mem image hup, load32_store32]
  · rw [start, cleared image hup]
    exact Processor.cli_interruptFlag p
  · exact start_argument image hup
  · intro a hlo hhi hout
    exact start_bss image hup hlo hhi hout
  · intro a ha
    rw [start_mem image hup, store32_outside _ _ (by omega), fillBytes_outside _ _ (by omega),
      store32_outside _ _ (by omega)]

/-- The bytes of the rows 10 to 19 of the screen. -/
def InBar (a : ℕ) : Prop := 0xA0C80 ≤ a ∧ a < 0xA1900

lemma setUpBar_al (p : Processor) : (setUpBar p).cpu.regs.eax.toUInt8 = 2 := by
  have hmask : (0xFFFFFF00 : UInt32).toUInt8 = 0 := rfl
  rw [setUpBar, setAl]
  simp only [withRegs, UInt32.toUInt8_or, UInt32.toUInt8_and, hmask, UInt8.and_zero, UInt8.zero_or,
    UInt8.toUInt8_toUInt32]

lemma bar_drawn (hup : p.eflags &&& Processor.directionFlag = 0) :
    (setUpBar p).repStosb = filledTurns (setUpBar p) 3200 := by
  have hedi : (setUpBar p).cpu.regs.edi = 0xA0C80 := rfl
  have hecx : (setUpBar p).cpu.regs.ecx = 3200 := rfl
  have hall := repStosb_eq (p := setUpBar p) hup (by rw [hedi, hecx]; decide)
  rw [hecx] at hall
  exact hall

lemma initPm_mem (hup : p.eflags &&& Processor.directionFlag = 0) :
    (initPm kernelExecAddr p).cpu.mem = fillBytes p.cpu.mem 0xA0C80 3200 2 := by
  have hedi : (setUpBar p).cpu.regs.edi = 0xA0C80 := rfl
  have hmem : (setUpBar p).cpu.mem = p.cpu.mem := rfl
  rw [initPm, bar_drawn hup]
  simp only [filledTurns, setUpBar_al, hedi, hmem]
  rfl

lemma start_segments (image : Image) (hup : p.eflags &&& Processor.directionFlag = 0) :
    (start image p).ds = p.ds ∧ (start image p).es = p.es ∧ (start image p).fs = p.fs ∧
      (start image p).gs = p.gs := by
  rw [start, cleared image hup]
  simp only [Processor.push, filledTurns, setUp, withRegs, Processor.cli, and_self]

/-- From the boot sector to `kmain`. Whatever is in the registers and in memory, the kernel begins with interrupts
off, flat data segments and zeros in `.bss`, and without any information from the boot loader: the pointer that
`_start` pushes is on the stack that it clears. -/
theorem kernel_starts_clean (image : Image) (hup : p.eflags &&& Processor.directionFlag = 0)
    (hlow : kernelExecAddr + 4 ≤ 0xA0000) (hexec : load32 p.cpu.mem kernelExecAddr = image.start) :
    let q := initPm kernelExecAddr p
    let r := start image q
    q.cpu.eip = image.start ∧ Clean image q r ∧ (r.ds = 0x10 ∧ r.es = 0x10 ∧ r.fs = 0x10 ∧ r.gs = 0x10) ∧
      (∀ a, InBar a → r.cpu.mem a = 2) ∧
      (∀ a, a < image.sbss.toNat ∨ image.ebss.toNat ≤ a → ¬InBar a → r.cpu.mem a = p.cpu.mem a) ∧
      Uninformed r.cpu.mem (firstArgument r) := by
  have hmem : (initPm kernelExecAddr p).cpu.mem = fillBytes p.cpu.mem 0xA0C80 3200 2 := initPm_mem hup
  have hlimit := image.conventional
  have hq : initPm kernelExecAddr p = { filledTurns (setUpBar p) 3200 with
      cpu := { (filledTurns (setUpBar p) 3200).cpu with eip := (initPm kernelExecAddr p).cpu.eip } } := by
    rw [initPm, bar_drawn hup]
  have hup' : (initPm kernelExecAddr p).eflags &&& Processor.directionFlag = 0 := by
    rw [hq]
    exact hup
  have hclean := start_clean image hup'
  have hsegments := start_segments image hup'
  refine ⟨?_, hclean, ?_, fun a ha => ?_, fun a ha hbar => ?_, ?_⟩
  · have heip : (initPm kernelExecAddr p).cpu.eip = load32 (initPm kernelExecAddr p).cpu.mem kernelExecAddr := by
      simp only [initPm]
    rw [heip, hmem, ← hexec]
    exact load32_congr fun i hi => fillBytes_outside _ _ (by omega)
  · rw [hq] at hsegments ⊢
    exact hsegments
  · obtain ⟨hlo, hhi⟩ := ha
    rw [hclean.rest a (by omega), hmem, fillBytes_inside _ _ (by omega)]
  · unfold InBar at hbar
    rw [hclean.rest a ha, hmem, fillBytes_outside _ _ (by omega)]
  · rw [hclean.argument]
    exact uninformed_null _

def smallImage : Image := ⟨0x10000, 0x20000, 0x25000, 0x20010, 0x10400, 0x10020, by decide, by decide⟩

/-- The processor behind the jump into protected mode, with garbage in memory and a pointer in `ebx`. -/
def loaded : Processor :=
  ⟨⟨⟨0x11, 0, 0, 0x9500, 0x7C00, 0, 0, 0⟩, 0x7C90, store32 (fun _ => 0xCC) 0x7D00 0x10000⟩, 2, 8, 0, 0, 0, 0⟩

/-- The pointer is lost. -/
theorem kernel_starts_clean_pointer : loaded.cpu.regs.ebx = 0x9500 ∧
    firstArgument (start smallImage (initPm 0x7D00 loaded)) = 0 ∧
      (start smallImage (initPm 0x7D00 loaded)).cpu.mem 0x24004 = 0 := by
  obtain ⟨-, hclean, -⟩ := kernel_starts_clean smallImage (p := loaded) (by decide) (by decide)
    (load32_store32 _ _ _)
  refine ⟨rfl, hclean.argument, hclean.bss _ (by decide) (by decide) ?_⟩
  rw [hclean.stack]
  decide

end Entry

end SBoy28.Boot
