import Ccos.Bitmap

/-! The polling transfers of `driver/ata/ata.c` and the start of its queued operations, as what they
do to the ports of a controller. -/

namespace Ccos

open Lib

inductive AtaResult
  | ok
  | notInit
  | timeout
  | noDevice
  | ioError
  | invalidParam
  | unsupported
deriving DecidableEq

/-- The registers of a controller that the driver writes. -/
inductive AtaReg
  | seccount
  | lbaLo
  | lbaMid
  | lbaHi
  | device
  | command
deriving DecidableEq

abbrev Word := BitVec 16

/-- What a controller does when a port is written, or its status or data port is read. -/
structure AtaBus (Dev : Type) where
  outb : AtaReg → Byte → Dev → Dev
  outw : Word → Dev → Dev
  inb : Dev → Byte × Dev
  inw : Dev → Word × Dev

variable {Dev : Type}

/-- The number of status reads a wait makes before it gives up. -/
def ataTimeout : Nat := 100000

def ataWaitBsy (bus : AtaBus Dev) : (timeout : Nat) → Dev → AtaResult × Dev
  | 0, dev => (.timeout, dev)
  | timeout + 1, dev =>
    let look := bus.inb dev
    if look.1 &&& 0x80 = 0 then (.ok, look.2) else ataWaitBsy bus timeout look.2

/-- Read the status until the device wants data or reports an error. -/
def ataWaitDrq (bus : AtaBus Dev) : (timeout : Nat) → Dev → AtaResult × Dev
  | 0, dev => (.timeout, dev)
  | timeout + 1, dev =>
    let look := bus.inb dev
    if look.1 &&& 0x01 ≠ 0 then (.ioError, look.2)
    else if look.1 &&& 0x08 ≠ 0 ∧ look.1 &&& 0x80 = 0 then (.ok, look.2)
    else ataWaitDrq bus timeout look.2

/-- Where a transfer takes place: a drive, an address of 28 or of 48 bits, and a count. -/
structure AtaRequest where
  controller : Nat
  slave : Bool
  lba48 : Bool
  lba : Nat
  sectors : Nat
deriving DecidableEq

namespace AtaRequest

variable (request : AtaRequest)

def lbaByte (i : Nat) : Byte :=
  BitVec.ofNat 8 (request.lba >>> (8 * i))

/-- The device register: LBA mode, the drive, and the top bits of a 28-bit address. -/
def devByte : Byte :=
  0x40#8 ||| (if request.slave then 0x10#8 else 0x00#8) |||
    if request.lba48 then 0x00#8 else BitVec.ofNat 8 ((request.lba >>> 24) % 16)

/-- The writes to the other registers; a 28-bit count of 256 is written as zero, and a 48-bit request
has its low bytes written first, then its high bytes. -/
def regs : List (AtaReg × Byte) :=
  if request.lba48 then
    [(.seccount, BitVec.ofNat 8 request.sectors), (.lbaLo, request.lbaByte 0),
      (.lbaMid, request.lbaByte 1), (.lbaHi, request.lbaByte 2),
      (.seccount, BitVec.ofNat 8 (request.sectors >>> 8)), (.lbaLo, request.lbaByte 3),
      (.lbaMid, request.lbaByte 4), (.lbaHi, request.lbaByte 5)]
  else
    [(.seccount, if request.sectors = 256 then 0 else BitVec.ofNat 8 request.sectors),
      (.lbaLo, request.lbaByte 0), (.lbaMid, request.lbaByte 1), (.lbaHi, request.lbaByte 2)]

def command (write : Bool) : Byte :=
  match write, request.lba48 with
  | false, false => 0x20
  | false, true => 0x24
  | true, false => 0x30
  | true, true => 0x34

theorem lbaByte_toNat (i : Nat) :
    (request.lbaByte i).toNat = request.lba / 2 ^ (8 * i) % 2 ^ 8 := by
  rw [lbaByte, BitVec.toNat_ofNat, Nat.shiftRight_eq_div_pow]

end AtaRequest

section Transfers

variable (bus : AtaBus Dev)

def outbs (writes : List (AtaReg × Byte)) (dev : Dev) : Dev :=
  writes.foldl (fun dev write => bus.outb write.1 write.2 dev) dev

/-- Select the drive, wait until it is ready, and write the registers of a request. -/
def ataSetup (request : AtaRequest) (dev : Dev) : AtaResult × Dev :=
  let ready := ataWaitBsy bus ataTimeout (bus.outb .device request.devByte dev)
  if ready.1 = .ok then (.ok, outbs bus request.regs ready.2) else ready

/-- Wait for the data phase of a sector; a report of an error after it is an error too. -/
def ataDataPhase (dev : Dev) : AtaResult × Dev :=
  let ready := ataWaitDrq bus ataTimeout dev
  if ready.1 ≠ .ok then ready else
  let look := bus.inb ready.2
  if look.1 &&& 0x01 ≠ 0 then (.ioError, look.2) else (.ok, look.2)

def ataReadWords (sec : Nat) (buffer : Nat → Word) (dev : Dev) :
    (Nat → Word) × Dev :=
  (List.range 256).foldl (fun (state : (Nat → Word) × Dev) i =>
    (Function.update state.1 (sec * 256 + i) (bus.inw state.2).1, (bus.inw state.2).2)) (buffer, dev)

/-- The pause between two sectors: up to a thousand looks at the status. -/
def ataNextSector (bus : AtaBus Dev) : (checks : Nat) → Dev → Dev
  | 0, dev => dev
  | checks + 1, dev =>
    let look := bus.inb dev
    if look.1 &&& 0x80 ≠ 0 then (ataWaitBsy bus ataTimeout look.2).2
    else if look.1 &&& 0x08 ≠ 0 then look.2
    else ataNextSector bus checks look.2

/-- The loop over the sectors of a read, from one sector on. -/
def ataReadSectors (bus : AtaBus Dev) :
    (left sec : Nat) → (Nat → Word) → Dev → AtaResult × (Nat → Word) × Dev
  | 0, _, buffer, dev => (.ok, buffer, dev)
  | left + 1, sec, buffer, dev =>
    let phase := ataDataPhase bus dev
    if phase.1 ≠ .ok then (phase.1, buffer, phase.2) else
    let read := ataReadWords bus sec buffer phase.2
    ataReadSectors bus left (sec + 1) read.1
      (if left = 0 then read.2 else ataNextSector bus 1000 read.2)

def ataWriteWords (sec : Nat) (buffer : Nat → Word) (dev : Dev) : Dev :=
  (List.range 256).foldl (fun dev i => bus.outw (buffer (sec * 256 + i)) dev) dev

/-- Flush the cache; a device that stays busy is left to itself, and only a 48-bit flush that ends
has its status read. -/
def ataFlushCache (request : AtaRequest) (dev : Dev) : Dev :=
  if request.lba48 then
    let flushed := ataWaitBsy bus ataTimeout (bus.outb .command 0xEA dev)
    if flushed.1 = .ok then (bus.inb flushed.2).2 else flushed.2
  else (ataWaitBsy bus ataTimeout (bus.outb .command 0xE7 dev)).2

/-- The loop over the sectors of a write: a command for each sector, a flush after the last. -/
def ataWriteSectors (bus : AtaBus Dev) (request : AtaRequest) (buffer : Nat → Word) :
    (left sec : Nat) → Dev → AtaResult × Dev
  | 0, _, dev => (.ok, dev)
  | left + 1, sec, dev =>
    let phase := ataDataPhase bus (bus.outb .command (request.command true) dev)
    if phase.1 ≠ .ok then phase else
    let dev := (ataWaitBsy bus ataTimeout (ataWriteWords bus sec buffer phase.2)).2
    ataWriteSectors bus request buffer left (sec + 1)
      (if left = 0 then ataFlushCache bus request dev else dev)

variable (request : AtaRequest) (buffer : Nat → Word) (dev : Dev)

/-- A read after its parameters have been checked: one command for all sectors. -/
def ataReadChecked : AtaResult × (Nat → Word) × Dev :=
  let ready := ataSetup bus request dev
  if ready.1 ≠ .ok then (ready.1, buffer, ready.2) else
  ataReadSectors bus request.sectors 0 buffer
    (bus.outb .command (request.command false) ready.2)

/-- Read sectors with a 28-bit address; the status is read once before the registers are set. -/
def ataReadPio : AtaResult × (Nat → Word) × Dev :=
  if request.sectors = 0 ∨ 256 < request.sectors then (.invalidParam, buffer, dev)
  else ataReadChecked bus request buffer (bus.inb dev).2

/-- Read sectors with a 48-bit address. -/
def ataReadPioLba48 : AtaResult × (Nat → Word) × Dev :=
  if request.sectors = 0 then (.invalidParam, buffer, dev)
  else ataReadChecked bus request buffer dev

/-- A write after its parameters have been checked. -/
def ataWriteChecked : AtaResult × Dev :=
  let ready := ataSetup bus request dev
  if ready.1 ≠ .ok then ready else ataWriteSectors bus request buffer request.sectors 0 ready.2

/-- Write sectors with a 28-bit address. -/
def ataWritePio : AtaResult × Dev :=
  if request.sectors = 0 ∨ 256 < request.sectors then (.invalidParam, dev)
  else ataWriteChecked bus request buffer dev

/-- Write sectors with a 48-bit address. -/
def ataWritePioLba48 : AtaResult × Dev :=
  if request.sectors = 0 then (.invalidParam, dev) else ataWriteChecked bus request buffer dev

end Transfers

/-- What the driver knows of its four drives. -/
structure AtaDriver where
  initialized : Bool
  present : (device : Nat) → Bool
  lba48Supported : (device : Nat) → Bool

namespace AtaDriver

/-- How a device number, an address and a count are passed down; a 28-bit address is first cut to 32
bits. -/
def toRequest (driver : AtaDriver) (device : Int) (lba sectors : Nat) : AtaRequest :=
  let lba48 := 0x0FFFFFFF < lba && driver.lba48Supported device.toNat
  { controller := if device < 2 then 0 else 1
    slave := device % 2 = 1
    lba48, sectors
    lba := if lba48 then lba else lba % 2 ^ 32 }

/-- The checks at the head of `ata_read` and of `ata_write`. -/
def checks (driver : AtaDriver) (device : Int) (lba : Nat) : AtaResult :=
  if !driver.initialized then .notInit
  else if device < 0 ∨ 3 < device then .invalidParam
  else if !driver.present device.toNat then .noDevice
  else if 0x0FFFFFFF < lba ∧ !driver.lba48Supported device.toNat then .unsupported
  else .ok

end AtaDriver

def ataRead (driver : AtaDriver) (buses : Nat → AtaBus Dev) (device : Int) (lba : Nat)
    (buffer : Nat → Word) (sectors : Nat) (dev : Dev) : AtaResult × (Nat → Word) × Dev :=
  let request := driver.toRequest device lba sectors
  if driver.checks device lba ≠ .ok then (driver.checks device lba, buffer, dev)
  else if request.lba48 then ataReadPioLba48 (buses request.controller) request buffer dev
  else ataReadPio (buses request.controller) request buffer dev

def ataWrite (driver : AtaDriver) (buses : Nat → AtaBus Dev) (device : Int) (lba : Nat)
    (buffer : Nat → Word) (sectors : Nat) (dev : Dev) : AtaResult × Dev :=
  let request := driver.toRequest device lba sectors
  if driver.checks device lba ≠ .ok then (driver.checks device lba, dev)
  else if request.lba48 then ataWritePioLba48 (buses request.controller) request buffer dev
  else ataWritePio (buses request.controller) request buffer dev

/-- What a queued operation keeps of its arguments. -/
structure AtaAsyncOp where
  device : Int
  lba : Nat
  sectors : Nat
  useLba48 : Bool

/-- The checks of `ata_read_async` and `ata_write_async` in asynchronous mode and, if memory is
granted, the operation they queue. -/
def AtaDriver.accept (driver : AtaDriver) (granted : Bool) (device : Int) (lba sectors : Nat) :
    Except AtaResult AtaAsyncOp :=
  if !driver.initialized then .error .notInit
  else if device < 0 ∨ 3 < device ∨ sectors = 0 then .error .invalidParam
  else if !granted then .error .ioError
  else .ok { device, lba, sectors,
             useLba48 := 0x0FFFFFFF < lba && driver.lba48Supported device.toNat }

/-- The request that a queued operation is started with. -/
def AtaAsyncOp.request (op : AtaAsyncOp) : AtaRequest where
  controller := if op.device < 2 then 0 else 1
  slave := op.device % 2 = 1
  lba48 := op.useLba48
  lba := if op.useLba48 then op.lba else op.lba % 2 ^ 32
  sectors := op.sectors

/-- Start a queued operation: select the drive, wait, and write its registers and command. -/
def ataStartAsyncOp (bus : AtaBus Dev) (write : Bool) (op : AtaAsyncOp) (dev : Dev) : Dev :=
  let ready := ataWaitBsy bus ataTimeout
    (bus.outb .device (0x40#8 ||| if op.request.slave then 0x10#8 else 0x00#8) dev)
  bus.outb .command (op.request.command write)
    (outbs bus ((.device, op.request.devByte) :: op.request.regs) ready.2)

/-! What a look at the status keeps, every wait keeps; what reading a word keeps as well, a read
keeps. -/

section Keeping

variable {bus : AtaBus Dev} {holds : Dev → Prop} (kept : ∀ dev, holds dev → holds (bus.inb dev).2)
include kept

theorem ataWaitBsy_keeps (timeout : Nat) {dev : Dev} (held : holds dev) :
    holds (ataWaitBsy bus timeout dev).2 := by
  -- Every round of the wait is one look.
  induction timeout generalizing dev with
  | zero => exact held
  | succ timeout ih =>
    simp only [ataWaitBsy]
    split
    · exact kept dev held
    · exact ih (kept dev held)

theorem ataDataPhase_keeps {dev : Dev} (held : holds dev) : holds (ataDataPhase bus dev).2 := by
  -- The wait for the data and the look after it keep the property.
  have waited : ∀ timeout dev, holds dev → holds (ataWaitDrq bus timeout dev).2 := by
    intro timeout
    induction timeout with
    | zero => exact fun _ held => held
    | succ timeout ih =>
      intro dev held
      simp only [ataWaitDrq]
      split
      · exact kept dev held
      · split
        · exact kept dev held
        · exact ih _ (kept dev held)
  have ready := waited ataTimeout dev held
  simp only [ataDataPhase]
  split
  · exact ready
  · split <;> exact kept _ ready

theorem ataNextSector_keeps (checks : Nat) {dev : Dev} (held : holds dev) :
    holds (ataNextSector bus checks dev) := by
  -- A busy drive is waited for, and one that wants data ends the pause.
  induction checks generalizing dev with
  | zero => exact held
  | succ checks ih =>
    simp only [ataNextSector]
    split
    · exact ataWaitBsy_keeps kept _ (kept dev held)
    · split
      · exact kept dev held
      · exact ih (kept dev held)

theorem ataReadSectors_keeps (words : ∀ dev, holds dev → holds (bus.inw dev).2) (left sec : Nat)
    (buffer : Nat → Word) {dev : Dev} (held : holds dev) :
    holds (ataReadSectors bus left sec buffer dev).2.2 := by
  -- A sector is a data phase, its words and the pause before the next one.
  induction left generalizing sec buffer dev with
  | zero => exact held
  | succ left ih =>
    have phase := ataDataPhase_keeps kept held
    have read : holds (ataReadWords bus sec buffer (ataDataPhase bus dev).2).2 :=
      List.foldlRecOn (motive := fun state : (Nat → Word) × Dev => holds state.2) _ _ phase
        fun state held _ _ => words state.2 held
    simp only [ataReadSectors]
    split
    · exact phase
    · apply ih
      split
      · exact read
      · exact ataNextSector_keeps kept 1000 read

end Keeping

/-- A drive with registers two bytes deep, which takes the last byte written for the low one and
notes the address and the count of a 48-bit command. -/
structure DeepDrive where
  regs : AtaReg → Byte × Byte
  latched : Option (Nat × Nat)

/-- The 48-bit address and the 16-bit count in the registers. -/
def DeepDrive.decode (drive : DeepDrive) : Nat × Nat :=
  let low := fun reg => (drive.regs reg).1.toNat
  let high := fun reg => (drive.regs reg).2.toNat
  (low .lbaLo + 2 ^ 8 * low .lbaMid + 2 ^ 16 * low .lbaHi +
    2 ^ 24 * (high .lbaLo + 2 ^ 8 * high .lbaMid + 2 ^ 16 * high .lbaHi),
    low .seccount + 2 ^ 8 * high .seccount)

/-- The registers of such a drive before whatever else a controller does. -/
def AtaBus.deep (bus : AtaBus Dev) : AtaBus (Dev × DeepDrive) where
  outb reg byte dev := (bus.outb reg byte dev.1,
    if reg = .command then { dev.2 with latched := some dev.2.decode }
    else { dev.2 with regs := Function.update dev.2.regs reg (byte, (dev.2.regs reg).1) })
  outw word dev := (bus.outw word dev.1, dev.2)
  inb dev := ((bus.inb dev.1).1, (bus.inb dev.1).2, dev.2)
  inw dev := ((bus.inw dev.1).1, (bus.inw dev.1).2, dev.2)

/-- Whenever a 48-bit read gives its command, directly or from the queue, the drive has latched its
address and its count. -/
def Latches48 (request : AtaRequest) : Prop :=
  ∀ (Dev : Type) (bus : AtaBus Dev) (dev : Dev × DeepDrive), dev.2.latched = none →
    (∀ buffer, ∀ latched ∈ (ataReadPioLba48 bus.deep request buffer dev).2.2.2.latched,
      latched = (request.lba, request.sectors)) ∧
    ∀ op : AtaAsyncOp, op.request = request →
      (ataStartAsyncOp bus.deep false op dev).2.latched = some (request.lba, request.sectors)

/-- Of a 48-bit request, the drive takes the low bytes for the high ones and the high for the low. -/
theorem decode_outbs {request : AtaRequest} (wide : request.lba48 = true)
    (address : request.lba < 2 ^ 48) (count : request.sectors < 2 ^ 16) (bus : AtaBus Dev)
    (dev : Dev × DeepDrive) :
    (outbs bus.deep request.regs dev).2.decode =
      (request.lba / 2 ^ 24 + 2 ^ 24 * (request.lba % 2 ^ 24),
        request.sectors / 2 ^ 8 + 2 ^ 8 * (request.sectors % 2 ^ 8)) := by
  -- The byte that was written first has moved to the second place.
  have regs : ∀ reg, (outbs bus.deep request.regs dev).2.regs reg = match reg with
      | .lbaLo => (request.lbaByte 3, request.lbaByte 0)
      | .lbaMid => (request.lbaByte 4, request.lbaByte 1)
      | .lbaHi => (request.lbaByte 5, request.lbaByte 2)
      | .seccount => (BitVec.ofNat 8 (request.sectors >>> 8), BitVec.ofNat 8 request.sectors)
      | other => dev.2.regs other := by
    intro reg
    rw [AtaRequest.regs, if_pos wide]
    cases reg <;> rfl
  -- The bytes of the address are joined one after the other.
  have next : ∀ i, request.lba / 2 ^ i / 2 ^ 8 = request.lba / 2 ^ (i + 8) := fun i => by
    rw [Nat.div_div_eq_div_mul, Nat.pow_add]
  simp only [DeepDrive.decode, regs, AtaRequest.lbaByte_toNat, BitVec.toNat_ofNat, Nat.shiftRight_eq_div_pow,
    Nat.reduceMul, Prod.mk.injEq]
  have := next 0
  have := next 8
  have := next 16
  have := next 24
  have := next 32
  omega

/-- What the drive has latched after a 48-bit read: nothing if it stayed busy. -/
theorem ataReadChecked_latched (bus : AtaBus Dev) (request : AtaRequest) (buffer : Nat → Word)
    (dev : Dev × DeepDrive) :
    (ataReadChecked bus.deep request buffer dev).2.2.2.latched =
      let ready := ataWaitBsy bus.deep ataTimeout (bus.deep.outb .device request.devByte dev)
      if ready.1 = .ok then some (outbs bus.deep request.regs ready.2).2.decode
      else dev.2.latched := by
  -- After the command there are only looks and words, which leave the registers alone.
  by_cases ready :
    (ataWaitBsy bus.deep ataTimeout (bus.deep.outb .device request.devByte dev)).1 = .ok
  · simp only [ataReadChecked, ataSetup, ready, if_true, ne_eq, not_true_eq_false, if_false]
    exact @ataReadSectors_keeps _ bus.deep (fun now => now.2.latched = _) (fun _ same => same)
      (fun _ same => same) _ _ _ _ rfl
  · simp only [ataReadChecked, ataSetup, ready, if_false, ne_eq, not_false_eq_true, if_true]
    exact @ataWaitBsy_keeps _ bus.deep (fun now => now.2.latched = dev.2.latched)
      (fun _ same => same) _ _ rfl

/-- A drive that is never busy, always has or wants data, and keeps its device register. -/
def readyBus : AtaBus Byte where
  outb reg byte dev := if reg = .device then byte else dev
  outw _ dev := dev
  inb dev := (0x08, dev)
  inw dev := (0, dev)

theorem ataWaitBsy_ready {bus : AtaBus Dev} (quiet : ∀ dev, (bus.inb dev).1 = 0x08) (dev : Dev) :
    (ataWaitBsy bus ataTimeout dev).1 = .ok := by
  rw [show ataTimeout = 99999 + 1 from rfl, ataWaitBsy]
  simp [quiet]

theorem ataDataPhase_ready {bus : AtaBus Dev} (quiet : ∀ dev, (bus.inb dev).1 = 0x08) (dev : Dev) :
    (ataDataPhase bus dev).1 = .ok := by
  rw [ataDataPhase, show ataTimeout = 99999 + 1 from rfl, ataWaitDrq]
  simp [quiet]

/-- A drive that is ready at once lets every read through. -/
theorem ataReadChecked_ready {bus : AtaBus Dev} (quiet : ∀ dev, (bus.inb dev).1 = 0x08)
    (request : AtaRequest) (buffer : Nat → Word) (dev : Dev) :
    (ataReadChecked bus request buffer dev).1 = .ok := by
  -- No data phase of the loop fails.
  have loop : ∀ left sec buffer dev, (ataReadSectors bus left sec buffer dev).1 = .ok := by
    intro left
    induction left with
    | zero => exact fun _ _ _ => rfl
    | succ left ih =>
      intro sec buffer dev
      rw [ataReadSectors, if_neg (by simp [ataDataPhase_ready quiet])]
      exact ih ..
  simp only [ataReadChecked, ataSetup, ataWaitBsy_ready quiet, if_true, ne_eq, not_true_eq_false,
    if_false]
  exact loop ..

section Latching

variable {request : AtaRequest} (wide : request.lba48 = true) (address : request.lba < 2 ^ 48)
  (positive : 0 < request.sectors) (count : request.sectors < 2 ^ 16)
include wide address positive count

/-- On a drive that is ready the halves are swapped, so they have to be equal. -/
theorem Latches48.halves (latches : Latches48 request) :
    request.lba / 2 ^ 24 = request.lba % 2 ^ 24 ∧
      request.sectors / 2 ^ 8 = request.sectors % 2 ^ 8 := by
  -- The drive decodes the swapped halves, and it has to have latched the request.
  have read := (latches Byte readyBus (0, ⟨fun _ => (0, 0), none⟩) rfl).1 fun _ => 0
  rw [ataReadPioLba48, if_neg (by omega), ataReadChecked_latched] at read
  simp only [@ataWaitBsy_ready _ readyBus.deep fun _ => rfl, if_true,
    decode_outbs wide address count, Option.mem_def, Option.some.injEq, forall_eq',
    Prod.mk.injEq] at read
  omega

/-- The drive latches a 48-bit request exactly when the halves of its address and of its count are
equal. -/
theorem latches48_iff :
    Latches48 request ↔ request.lba / 2 ^ 24 = request.lba % 2 ^ 24 ∧
      request.sectors / 2 ^ 8 = request.sectors % 2 ^ 8 := by
  refine ⟨Latches48.halves wide address positive count, fun halves Dev bus dev fresh => ?_⟩
  -- With equal halves it does not matter which one is the low one.
  have same : ∀ dev, (outbs bus.deep request.regs dev).2.decode = (request.lba, request.sectors) := by
    intro dev
    rw [decode_outbs wide address count, Prod.mk.injEq]
    omega
  constructor
  · intro buffer latched noted
    rw [ataReadPioLba48, if_neg (by omega), ataReadChecked_latched] at noted
    simp only [same, fresh] at noted
    split at noted
    · exact (Option.some.inj noted).symm
    · simp at noted
  · rintro op rfl
    exact congrArg some (same _)

end Latching

/-- A request whose halves are equal. -/
theorem latches48_equal :
    Latches48 ⟨0, false, true, 0x1000001, 0x101⟩ ↔
      0x1000001 / 2 ^ 24 = 0x1000001 % 2 ^ 24 ∧ 0x101 / 2 ^ 8 = 0x101 % 2 ^ 8 :=
  latches48_iff rfl (by decide) (by decide) (by decide)

/-- The first address of 48 bits is latched as another one. -/
theorem latches48_swapped : ¬Latches48 ⟨0, false, true, 0x10000000, 1⟩ := fun latches =>
  absurd (latches.halves rfl (by decide) (by decide) (by decide)) (by decide)

section Checks

variable {driver : AtaDriver} {device : Int} {lba sectors : Nat} {granted : Bool}

/-- The requests that pass all checks of the synchronous functions. -/
def AtaDriver.Serves (driver : AtaDriver) (device : Int) (lba sectors : Nat) : Prop :=
  driver.checks device lba = .ok ∧ sectors ≠ 0 ∧
    ((driver.toRequest device lba sectors).lba48 = false → sectors ≤ 256)

/-- The checks pass for a drive that is there and an address that it can be given. -/
theorem AtaDriver.checks_ok_iff : driver.checks device lba = .ok ↔
    driver.initialized = true ∧ 0 ≤ device ∧ device ≤ 3 ∧ driver.present device.toNat = true ∧
      (lba < 2 ^ 28 ∨ driver.lba48Supported device.toNat = true) := by
  -- One case for each check that can fail, and one for passing all of them.
  unfold checks
  split_ifs <;> simp_all <;> grind

/-- A read that passes its checks carries its request out. -/
theorem AtaDriver.Serves.read (serves : driver.Serves device lba sectors) (buses : Nat → AtaBus Dev)
    (buffer : Nat → Word) (dev : Dev) :
    ∃ start, ataRead driver buses device lba buffer sectors dev = ataReadChecked
      (buses (driver.toRequest device lba sectors).controller) (driver.toRequest device lba sectors)
      buffer start := by
  obtain ⟨passed, nonzero, few⟩ := serves
  have count : (driver.toRequest device lba sectors).sectors = sectors := rfl
  simp only [ataRead, passed, ne_eq, not_true_eq_false, if_false, ataReadPioLba48, ataReadPio, count,
    nonzero, false_or]
  split
  next => exact ⟨dev, rfl⟩
  next narrow => exact ⟨_, if_neg (Nat.not_lt.mpr (few (by simpa using narrow)))⟩

/-- A write that passes its checks carries its request out. -/
theorem AtaDriver.Serves.write (serves : driver.Serves device lba sectors)
    (buses : Nat → AtaBus Dev) (buffer : Nat → Word) (dev : Dev) :
    ataWrite driver buses device lba buffer sectors dev = ataWriteChecked
      (buses (driver.toRequest device lba sectors).controller) (driver.toRequest device lba sectors)
      buffer dev := by
  obtain ⟨passed, nonzero, few⟩ := serves
  have count : (driver.toRequest device lba sectors).sectors = sectors := rfl
  simp only [ataWrite, passed, ne_eq, not_true_eq_false, if_false, ataWritePioLba48, ataWritePio,
    count, nonzero, false_or]
  split
  next => rfl
  next narrow => exact if_neg (Nat.not_lt.mpr (few (by simpa using narrow)))

/-- A read that succeeds has passed its checks. -/
theorem ataRead_serves {buses : Nat → AtaBus Dev} {buffer : Nat → Word} {dev : Dev}
    (ok : (ataRead driver buses device lba buffer sectors dev).1 = .ok) :
    driver.Serves device lba sectors := by
  -- Each failed check is reported, so it cannot have been one of them.
  have count : (driver.toRequest device lba sectors).sectors = sectors := rfl
  simp only [ataRead, ataReadPioLba48, ataReadPio, count] at ok
  refine ⟨?_, ?_, ?_⟩ <;> grind

/-- The synchronous read carries out the request of its arguments, whatever the drives do. -/
def ReadPasses (driver : AtaDriver) (device : Int) (lba sectors : Nat) : Prop :=
  ∀ (Dev : Type) (buses : Nat → AtaBus Dev) (buffer : Nat → Word) (dev : Dev), ∃ start,
    ataRead driver buses device lba buffer sectors dev = ataReadChecked
      (buses (driver.toRequest device lba sectors).controller) (driver.toRequest device lba sectors)
      buffer start

/-- A read passes exactly when it is served: on a drive that is ready it would succeed. -/
theorem readPasses_iff : ReadPasses driver device lba sectors ↔ driver.Serves device lba sectors := by
  refine ⟨fun passes => ?_, fun serves Dev => serves.read⟩
  obtain ⟨start, same⟩ := passes Byte (fun _ => readyBus) (fun _ => 0) 0
  exact ataRead_serves ((congrArg Prod.fst same).trans (ataReadChecked_ready (fun _ => rfl) ..))

/-- In asynchronous mode a read is accepted exactly when the synchronous one passes its checks, and
is then started with the same request. -/
def AsyncAgrees (driver : AtaDriver) (granted : Bool) (device : Int) (lba sectors : Nat) : Prop :=
  ((∃ op, driver.accept granted device lba sectors = .ok op) ↔
    ReadPasses driver device lba sectors) ∧
  ∀ op, driver.accept granted device lba sectors = .ok op →
    op.request = driver.toRequest device lba sectors

/-- The requests that are queued, and what is queued for them. -/
theorem AtaDriver.accept_iff {op : AtaAsyncOp} : driver.accept granted device lba sectors = .ok op ↔
    (driver.initialized = true ∧ 0 ≤ device ∧ device ≤ 3 ∧ sectors ≠ 0 ∧ granted = true) ∧
      op = ⟨device, lba, sectors, 0x0FFFFFFF < lba && driver.lba48Supported device.toNat⟩ := by
  unfold accept
  split_ifs <;> simp_all <;> grind

/-- Both reads agree exactly on the requests that get memory when the synchronous one serves them,
and none when it does not. -/
theorem ataReadAsync_agrees_iff :
    AsyncAgrees driver granted device lba sectors ↔
      (driver.initialized = true → 0 ≤ device → device ≤ 3 → sectors ≠ 0 →
        (granted = true ↔ driver.Serves device lba sectors)) := by
  -- A request that is served passes the checks of the queue as well.
  have serves : driver.Serves device lba sectors →
      driver.initialized = true ∧ 0 ≤ device ∧ device ≤ 3 ∧ sectors ≠ 0 := fun serves =>
    have checked := AtaDriver.checks_ok_iff.mp serves.1
    ⟨checked.1, checked.2.1, checked.2.2.1, serves.2.1⟩
  have same : ∀ op, driver.accept granted device lba sectors = .ok op →
      op.request = driver.toRequest device lba sectors := by
    intro op accepted
    obtain ⟨_, rfl⟩ := AtaDriver.accept_iff.mp accepted
    rfl
  have accepts : (∃ op, driver.accept granted device lba sectors = .ok op) ↔
      driver.initialized = true ∧ 0 ≤ device ∧ device ≤ 3 ∧ sectors ≠ 0 ∧ granted = true := by
    simp only [AtaDriver.accept_iff, exists_and_left, exists_eq, and_true]
  rw [AsyncAgrees, accepts, readPasses_iff, and_iff_left same]
  tauto

/-- Once the drive is ready, a queued read and the direct read of one request leave the same command
latched and the same last byte in every register. -/
theorem ataStartAsyncOp_registers (bus : AtaBus Dev) (op : AtaAsyncOp) (buffer : Nat → Word)
    (dev : Dev × DeepDrive) (ready : (ataSetup bus.deep op.request dev).1 = .ok) :
    let started := (ataStartAsyncOp bus.deep false op dev).2
    let read := (ataReadChecked bus.deep op.request buffer dev).2.2.2
    started.latched = read.latched ∧ ∀ reg, (started.regs reg).1 = (read.regs reg).1 := by
  have waits (first : Dev × DeepDrive) : (ataWaitBsy bus.deep ataTimeout first).2.2 = first.2 :=
    @ataWaitBsy_keeps _ bus.deep (fun now => now.2 = first.2) (fun _ same => same) _ _ rfl
  -- Nothing that a read does after its command writes a register.
  have reads (left sec : Nat) (first : Dev × DeepDrive) :
      (ataReadSectors bus.deep left sec buffer first).2.2.2 = first.2 :=
    @ataReadSectors_keeps _ bus.deep (fun now => now.2 = first.2) (fun _ same => same)
      (fun _ same => same) _ _ _ _ rfl
  simp only [ataReadChecked, ready, ne_eq, not_true_eq_false, if_false, reads]
  simp only [ataSetup, ataStartAsyncOp] at ready ⊢
  have waited := waits (bus.deep.outb .device op.request.devByte dev)
  have selected := waits (bus.deep.outb .device
    (0x40#8 ||| if op.request.slave then 0x10#8 else 0x00#8) dev)
  split at ready
  swap
  · contradiction
  rename_i idle
  rw [if_pos idle]
  generalize ataWaitBsy bus.deep ataTimeout (bus.deep.outb .device op.request.devByte dev) = one at *
  generalize ataWaitBsy bus.deep ataTimeout (bus.deep.outb .device
    (0x40#8 ||| if op.request.slave then 0x10#8 else 0x00#8) dev) = two at *
  obtain ⟨_, one, _⟩ := one
  obtain ⟨_, two, _⟩ := two
  subst waited selected
  cases wide : op.request.lba48
  all_goals
    simp only [AtaRequest.regs, wide, if_true, if_false, Bool.false_eq_true]
    refine ⟨by simp [outbs, AtaBus.deep, DeepDrive.decode], fun reg => ?_⟩
    cases reg
    all_goals simp [outbs, AtaBus.deep]

/-- A queued read of a drive that is not there is accepted. -/
theorem ataReadAsync_absent : ¬AsyncAgrees ⟨true, fun _ => false, fun _ => false⟩ true 1 0 1 := by
  intro agrees
  have passes := agrees.1.mp ⟨_, AtaDriver.accept_iff.mpr ⟨by decide, rfl⟩⟩
  exact absurd (readPasses_iff.mp passes).1 (by decide)

/-- Both transfers of a drive with 48-bit addresses are carried out, with a 28-bit command only if
all their sectors lie below `2 ^ 28`. -/
def CommandFits (driver : AtaDriver) (device : Int) (lba sectors : Nat) : Prop :=
  let request := driver.toRequest device lba sectors
  ReadPasses driver device lba sectors ∧
  (∀ (Dev : Type) (buses : Nat → AtaBus Dev) (buffer : Nat → Word) (dev : Dev),
    ataWrite driver buses device lba buffer sectors dev =
      ataWriteChecked (buses request.controller) request buffer dev) ∧
  (request.lba48 = false → lba + sectors ≤ 2 ^ 28)

/-- The command is right exactly from `2 ^ 28` on, and below it for the requests of at most 256
sectors that end there. -/
theorem ata_command_fits_iff (ready : driver.initialized = true) (low : 0 ≤ device)
    (high : device ≤ 3) (present : driver.present device.toNat = true)
    (supported : driver.lba48Supported device.toNat = true) (positive : 0 < sectors) :
    CommandFits driver device lba sectors ↔
      2 ^ 28 ≤ lba ∨ sectors ≤ 256 ∧ lba + sectors ≤ 2 ^ 28 := by
  -- Such a request passes the checks, and its size decides on the command.
  have passed : driver.checks device lba = .ok :=
    AtaDriver.checks_ok_iff.mpr ⟨ready, low, high, present, .inr supported⟩
  have wide : (driver.toRequest device lba sectors).lba48 = decide (2 ^ 28 ≤ lba) := by
    simp only [AtaDriver.toRequest, supported, Bool.and_true, decide_eq_decide]
    omega
  rw [CommandFits, readPasses_iff]
  constructor
  · rintro ⟨⟨_, _, few⟩, _, fits⟩
    simp only [wide, decide_eq_false_iff_not] at few fits
    omega
  · intro fits
    have serves : driver.Serves device lba sectors := by
      refine ⟨passed, by omega, ?_⟩
      simp only [wide, decide_eq_false_iff_not]
      omega
    refine ⟨serves, fun Dev => serves.write, ?_⟩
    simp only [wide, decide_eq_false_iff_not]
    omega

end Checks

/-- The last eight sectors below `2 ^ 28` get a 28-bit command. -/
theorem ata_command_fits_last :
    CommandFits ⟨true, fun _ => true, fun _ => true⟩ 0 (2 ^ 28 - 8) 8 ↔
      2 ^ 28 ≤ 2 ^ 28 - 8 ∨ 8 ≤ 256 ∧ 2 ^ 28 - 8 + 8 ≤ 2 ^ 28 :=
  ata_command_fits_iff rfl (by decide) (by decide) rfl rfl (by decide)

/-- So does a request that crosses `2 ^ 28`. -/
theorem ata_command_crosses :
    ¬CommandFits ⟨true, fun _ => true, fun _ => true⟩ 0 (2 ^ 28 - 1) 2 := fun fits =>
  absurd (fits.2.2 rfl) (by decide)

end Ccos
