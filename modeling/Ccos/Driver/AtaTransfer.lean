import Ccos.Driver.Ata

/-! What the polling transfers of `driver/ata/ata.c` leave in the buffer and on the disk. -/

namespace Ccos

open Lib

variable {Dev : Type}

/-- The requests whose address and count fit their registers. -/
def AtaRequest.Fits (request : AtaRequest) : Prop :=
  0 < request.sectors ∧ if request.lba48 then
    request.sectors < 2 ^ 16 ∧ request.lba + request.sectors ≤ 2 ^ 48
  else request.sectors ≤ 256 ∧ request.lba < 2 ^ 28

/-- A controller that delivers the sectors a read command asks for, seen through the words it has yet
to deliver and the last byte of its device register. -/
structure Delivers (bus : AtaBus Dev) (disk : Bool → Nat → Word) (words : Dev → Nat → Word)
    (selected : Dev → Byte) : Prop where
  look : ∀ dev, words (bus.inb dev).2 = words dev ∧ selected (bus.inb dev).2 = selected dev
  word : ∀ dev, (bus.inw dev).1 = words dev 0 ∧ ∀ i, words (bus.inw dev).2 i = words dev (i + 1)
  select : ∀ dev byte, selected (bus.outb .device byte dev) = byte
  read : ∀ dev (request : AtaRequest), request.Fits → selected dev = request.devByte →
    ∀ i < request.sectors * 256,
      words (bus.outb .command (request.command false) (outbs bus request.regs dev)) i =
        disk request.slave (request.lba * 256 + i)

section Delivery

variable {bus : AtaBus Dev} {disk : Bool → Nat → Word} {words : Dev → Nat → Word}
  {selected : Dev → Byte} (delivers : Delivers bus disk words selected)
include delivers

/-- Reading one sector stores its words in order. -/
theorem Delivers.readWords (sec : Nat) (buffer : Nat → Word) (dev : Dev) :
    let read := ataReadWords bus sec buffer dev
    (∀ k, read.1 k = if sec * 256 ≤ k ∧ k < sec * 256 + 256 then words dev (k - sec * 256)
      else buffer k) ∧ ∀ i, words read.2 i = words dev (256 + i) := by
  -- Word by word, what was stored and what is yet to be delivered.
  unfold ataReadWords
  generalize sec * 256 = first
  induction 256 with
  | zero => exact ⟨fun k => (if_neg (by omega)).symm, by simp⟩
  | succ count ih =>
    obtain ⟨stored, left⟩ := ih
    simp only [List.range_succ, List.foldl_append, List.foldl_cons, List.foldl_nil]
    refine ⟨fun k => ?_, fun i => ?_⟩
    · rw [Function.update_apply, (delivers.word _).1, stored, left]
      grind
    · rw [(delivers.word _).2, left, Nat.add_assoc, Nat.add_comm i]

/-- The loop stores the words of the sectors left, and nothing before them. -/
theorem Delivers.readSectors {left sec : Nat} {buffer : Nat → Word} {dev : Dev}
    (ok : (ataReadSectors bus left sec buffer dev).1 = .ok) (k : Nat) :
    (ataReadSectors bus left sec buffer dev).2.1 k =
      if sec * 256 ≤ k ∧ k < (sec + left) * 256 then words dev (k - sec * 256) else buffer k := by
  -- Looking at the status takes no word away, so each sector starts where the last one ended.
  induction left generalizing sec buffer dev with
  | zero => exact (if_neg (by omega)).symm
  | succ left ih =>
    have kept : ∀ now other, words other = words now → words (bus.inb other).2 = words now :=
      fun now other same => (delivers.look other).1.trans same
    have phase := @ataDataPhase_keeps _ _ _ (kept dev) dev rfl
    simp only [ataReadSectors] at ok ⊢
    split at ok
    next failed => exact absurd ok failed
    next ready =>
      rw [if_neg ready]
      obtain ⟨stored, rest⟩ := delivers.readWords sec buffer (ataDataPhase bus dev).2
      have paused : ∀ i, words (if left = 0 then (ataReadWords bus sec buffer
          (ataDataPhase bus dev).2).2 else ataNextSector bus 1000 (ataReadWords bus sec buffer
          (ataDataPhase bus dev).2).2) i = words dev (256 + i) := by
        intro i
        split
        · rw [rest, phase]
        · rw [ataNextSector_keeps (kept _) 1000 rfl, rest, phase]
      rw [ih ok, paused, stored, phase]
      grind

/-- A read that succeeds has stored what its command made the drive deliver, and nothing else. -/
theorem Delivers.readChecked {request : AtaRequest} {buffer : Nat → Word} {dev : Dev}
    (ok : (ataReadChecked bus request buffer dev).1 = .ok) :
    ∃ ready, selected ready = request.devByte ∧ ∀ k,
      (ataReadChecked bus request buffer dev).2.1 k = if k < request.sectors * 256 then
        words (bus.outb .command (request.command false) (outbs bus request.regs ready)) k
      else buffer k := by
  -- The drive stays selected while it is waited for.
  have waited := @ataWaitBsy_keeps _ bus (fun dev => selected dev = request.devByte)
    (fun dev same => (delivers.look dev).2.trans same) ataTimeout _ (delivers.select dev _)
  refine ⟨_, waited, fun k => ?_⟩
  simp only [ataReadChecked, ataSetup] at ok ⊢
  by_cases ready : (ataWaitBsy bus ataTimeout (bus.outb .device request.devByte dev)).1 = .ok
  · simp only [ready, if_true, ne_eq, not_true_eq_false, if_false] at ok ⊢
    rw [delivers.readSectors ok]
    simp
  · simp [ready] at ok

end Delivery

/-- The read operation of an ATA block device, to which `block_read_sync` hands a request over. -/
def ataBlockRead (driver : AtaDriver) (buses : Nat → AtaBus Dev) (device : Int) (block : Nat)
    (buffer : Nat → Word) (nblocks : Nat) (dev : Dev) : Int × (Nat → Word) × Dev :=
  -- The count of blocks becomes a 16-bit count of sectors on the way down.
  let read := ataRead driver buses device block buffer (nblocks % 2 ^ 16) dev
  (if read.1 = .ok then wrapInt nblocks else -2, read.2)

/-- A block read that reports success returns its count and has filled the buffer with the sectors
asked for. -/
def ReadFills (driver : AtaDriver) (device : Int) (block nblocks : Nat) : Prop :=
  ∀ (Dev : Type) (buses : Nat → AtaBus Dev) (disks : Nat → Bool → Nat → Word)
    (words : Nat → Dev → Nat → Word) (selected : Nat → Dev → Byte),
    (∀ i, Delivers (buses i) (disks i) (words i) (selected i)) →
    ∀ (buffer : Nat → Word) (dev : Dev),
      let read := ataBlockRead driver buses device block buffer nblocks dev
      0 ≤ read.1 → read.1 = nblocks ∧ ∀ i < nblocks * 256, read.2.1 i =
        disks (if device < 2 then 0 else 1) (device % 2 = 1) (block * 256 + i)

section Blocks

variable {driver : AtaDriver} {device : Int} {block nblocks : Nat}

/-- A drive that always has a zero to deliver, where every sector without a 48-bit address would
hold ones. -/
theorem readyBus_delivers :
    Delivers readyBus (fun _ k => if k < 2 ^ 48 * 256 then 0 else 1) (fun _ _ => 0) id := by
  -- A request that fits ends below the last 48-bit address.
  refine ⟨fun _ => ⟨rfl, rfl⟩, fun _ => ⟨rfl, fun _ => rfl⟩, fun _ _ => rfl, ?_⟩
  intro _ request fits _ k inside
  refine (if_pos ?_).symm
  unfold AtaRequest.Fits at fits
  split at fits <;> omega

/-- A read whose count is cut, or that goes beyond the 48-bit addresses, reports what it has not
done. -/
theorem not_readFills (serves : driver.Serves device block (nblocks % 2 ^ 16))
    (int : nblocks < 2 ^ 31) (wrong : 2 ^ 16 ≤ nblocks ∨ 2 ^ 48 < block + nblocks) :
    ¬ReadFills driver device block nblocks := by
  intro fills
  -- The drive that is always ready is read into a buffer of twos.
  obtain ⟨start, same⟩ := serves.read (fun _ => readyBus) (fun _ => 2) (0 : Byte)
  have ok := @ataReadChecked_ready _ readyBus (fun _ => rfl)
    (driver.toRequest device block (nblocks % 2 ^ 16)) (fun _ => 2) start
  obtain ⟨_, _, stored⟩ := readyBus_delivers.readChecked ok
  have filled := fills Byte (fun _ => readyBus) _ _ _ (fun _ => readyBus_delivers) (fun _ => 2) 0
  simp only [ataBlockRead, same, ok, if_true, stored, wrapInt_of_range (x := nblocks) (by omega)
    (by omega)] at filled
  have filled : ∀ i < nblocks * 256, (if i < nblocks % 2 ^ 16 * 256 then (0 : Word) else 2) =
      if block * 256 + i < 2 ^ 48 * 256 then 0 else 1 := (filled (by omega)).2
  by_cases cut : 2 ^ 16 ≤ nblocks
  · -- The first sector that was cut off still has what the buffer had before.
    have missing := filled (nblocks % 2 ^ 16 * 256) (by omega)
    rw [if_neg (by omega)] at missing
    split at missing <;> simp at missing
  · -- The last sector has no address, but a zero was stored for it.
    have some := serves.2.1
    have last := filled (nblocks * 256 - 1) (by omega)
    rw [if_pos (by omega), if_neg (by omega)] at last
    simp at last

/-- A served request fits its registers. -/
theorem AtaDriver.Serves.fits {sectors : Nat} (serves : driver.Serves device block sectors)
    (count : sectors < 2 ^ 16) (address : block + sectors ≤ 2 ^ 48) :
    (driver.toRequest device block sectors).Fits ∧
      (driver.toRequest device block sectors).lba = block := by
  obtain ⟨passed, nonzero, few⟩ := serves
  -- The command is chosen by the address, and then the count is small enough for it.
  have reach := (AtaDriver.checks_ok_iff.mp passed).2.2.2.2
  have wide : (driver.toRequest device block sectors).lba48 = decide (2 ^ 28 ≤ block) := by
    simp only [toRequest]
    grind
  simp only [AtaRequest.Fits, wide, decide_eq_false_iff_not] at few ⊢
  simp only [toRequest] at wide ⊢
  rw [wide]
  grind

end Blocks

/-- A drive whose write command starts a new transfer at the address in its registers, which it does
not change; every data word goes to the next place on the disk. -/
structure WriteDrive where
  regs : AtaReg → Byte
  disk : Nat → Word
  next : Nat
  looks : Nat

/-- The 28-bit address in the registers. -/
def WriteDrive.lba (drive : WriteDrive) : Nat :=
  (drive.regs .lbaLo).toNat + 2 ^ 8 * (drive.regs .lbaMid).toNat +
    2 ^ 16 * (drive.regs .lbaHi).toNat + 2 ^ 24 * ((drive.regs .device).toNat % 16)

/-- The ports of such a drive, with whatever it shows as its status at each look. -/
def writeBus (statuses : Nat → Byte) : AtaBus WriteDrive where
  outb reg byte drive :=
    if reg = .command then
      if byte = 0x30 then { drive with next := drive.lba * 256 } else drive
    else { drive with regs := Function.update drive.regs reg byte }
  outw word drive :=
    { drive with disk := Function.update drive.disk drive.next word, next := drive.next + 1 }
  inb drive := (statuses drive.looks, { drive with looks := drive.looks + 1 })
  inw drive := (0, drive)

/-- A write that succeeds has put the buffer on the disk in order, and changed nothing else. -/
def WriteStores (driver : AtaDriver) (device : Int) (lba sectors : Nat) : Prop :=
  ∀ (statuses : Nat → Byte) (buffer : Nat → Word) (drive : WriteDrive),
    let written := ataWrite driver (fun _ => writeBus statuses) device lba buffer sectors drive
    written.1 = .ok → ∀ k, written.2.disk k =
      if lba * 256 ≤ k ∧ k < (lba + sectors) * 256 then buffer (k - lba * 256) else drive.disk k

section Storing

variable {statuses : Nat → Byte} {buffer : Nat → Word} {request : AtaRequest}

/-- The words of a sector go to the places from the next one on. -/
theorem writeBus_words (sec : Nat) (drive : WriteDrive) :
    let after := ataWriteWords (writeBus statuses) sec buffer drive
    after.regs = drive.regs ∧ after.next = drive.next + 256 ∧ ∀ k, after.disk k =
      if drive.next ≤ k ∧ k < drive.next + 256 then buffer (sec * 256 + (k - drive.next))
      else drive.disk k := by
  -- Word by word, the place moves on and the registers stay.
  unfold ataWriteWords
  generalize sec * 256 = first
  induction 256 with
  | zero => exact ⟨rfl, rfl, fun k => (if_neg (by omega)).symm⟩
  | succ count ih =>
    obtain ⟨regs, next, disk⟩ := ih
    simp only [List.range_succ, List.foldl_append, List.foldl_cons, List.foldl_nil]
    refine ⟨regs, congrArg (· + 1) next, fun k => ?_⟩
    change Function.update _ _ _ k = _
    rw [Function.update_apply, next, disk]
    grind

/-- Waiting only looks at the drive. -/
theorem writeBus_waits (timeout : Nat) (drive : WriteDrive) :
    let after := (ataWaitBsy (writeBus statuses) timeout drive).2
    after.regs = drive.regs ∧ after.disk = drive.disk :=
  @ataWaitBsy_keeps _ (writeBus statuses)
    (fun now => now.regs = drive.regs ∧ now.disk = drive.disk) (fun _ => id) timeout drive ⟨rfl, rfl⟩

/-- One turn of the loop puts a sector of the buffer where the registers point. -/
theorem writeBus_sector (sec : Nat) (drive : WriteDrive) :
    let after := (ataWaitBsy (writeBus statuses) ataTimeout (ataWriteWords (writeBus statuses) sec
      buffer (ataDataPhase (writeBus statuses) ((writeBus statuses).outb .command 0x30 drive)).2)).2
    after.lba = drive.lba ∧ ∀ k, after.disk k =
      if drive.lba * 256 ≤ k ∧ k < drive.lba * 256 + 256 then
        buffer (sec * 256 + (k - drive.lba * 256)) else drive.disk k := by
  -- The command sets the place, the words are put there, and the waits around them only look.
  obtain ⟨regs, disk, next⟩ := @ataDataPhase_keeps _ (writeBus statuses) (fun now =>
    now.regs = drive.regs ∧ now.disk = drive.disk ∧ now.next = drive.lba * 256) (fun _ => id)
    ((writeBus statuses).outb .command 0x30 drive) ⟨rfl, rfl, rfl⟩
  obtain ⟨wordRegs, _, wordDisk⟩ := @writeBus_words statuses buffer sec
    (ataDataPhase (writeBus statuses) ((writeBus statuses).outb .command 0x30 drive)).2
  obtain ⟨waitRegs, waitDisk⟩ := @writeBus_waits statuses ataTimeout (ataWriteWords
    (writeBus statuses) sec buffer
    (ataDataPhase (writeBus statuses) ((writeBus statuses).outb .command 0x30 drive)).2)
  refine ⟨?_, fun k => ?_⟩
  · rw [WriteDrive.lba, waitRegs, wordRegs, regs, WriteDrive.lba]
  · rw [waitDisk, wordDisk, next, disk]

/-- Each command starts over, so every sector of the buffer goes to the first sector of the request
and the last one stays there. -/
theorem writeBus_sectors (narrow : request.lba48 = false) {left sec : Nat} {drive : WriteDrive}
    (ok : (ataWriteSectors (writeBus statuses) request buffer (left + 1) sec drive).1 = .ok)
    (k : Nat) :
    (ataWriteSectors (writeBus statuses) request buffer (left + 1) sec drive).2.disk k =
      if drive.lba * 256 ≤ k ∧ k < drive.lba * 256 + 256
        then buffer ((sec + left) * 256 + (k - drive.lba * 256)) else drive.disk k := by
  -- The place is where the registers point, and they never change.
  have command : request.command true = 0x30 := by simp [AtaRequest.command, narrow]
  induction left generalizing sec drive with
  | zero =>
    rw [ataWriteSectors, command] at ok ⊢
    split at ok
    next failed => exact absurd ok failed
    next ready =>
      simp only [if_neg ready, ataFlushCache, narrow, if_true, Bool.false_eq_true, if_false]
      exact (congrFun (writeBus_waits ..).2 k).trans ((writeBus_sector sec drive).2 k)
  | succ left ih =>
    rw [ataWriteSectors, command] at ok ⊢
    split at ok
    next failed => exact absurd ok failed
    next ready =>
      rw [if_neg ready]
      obtain ⟨address, disk⟩ := @writeBus_sector statuses buffer sec drive
      refine (ih ok).trans ?_
      simp only [Nat.add_eq_zero_iff, one_ne_zero, and_false, if_false, disk, address]
      grind

/-- The registers of a 28-bit request hold its address. -/
theorem writeBus_setup (narrow : request.lba48 = false) (address : request.lba < 2 ^ 28)
    {drive : WriteDrive} (selected : drive.regs .device = request.devByte) :
    let after := outbs (writeBus statuses) request.regs drive
    after.lba = request.lba ∧ after.disk = drive.disk := by
  have top : ∀ (slave : Bool) (highest : Fin 16), (0x40#8 ||| (if slave then 0x10#8 else 0x00#8) |||
      BitVec.ofNat 8 highest).toNat % 16 = highest := by decide
  have device : request.devByte.toNat % 16 = request.lba / 2 ^ 24 % 16 := by
    rw [AtaRequest.devByte, narrow, Nat.shiftRight_eq_div_pow]
    exact top request.slave ⟨request.lba / 2 ^ 24 % 16, Nat.mod_lt _ (by decide)⟩
  -- The three lower bytes are written here; the device register was written before.
  have written : (outbs (writeBus statuses) request.regs drive).regs .lbaLo = request.lbaByte 0 ∧
      (outbs (writeBus statuses) request.regs drive).regs .lbaMid = request.lbaByte 1 ∧
      (outbs (writeBus statuses) request.regs drive).regs .lbaHi = request.lbaByte 2 ∧
      (outbs (writeBus statuses) request.regs drive).regs .device = drive.regs .device ∧
      (outbs (writeBus statuses) request.regs drive).disk = drive.disk := by
    simp [AtaRequest.regs, narrow, outbs, writeBus]
  obtain ⟨lo, mid, hi, kept, disk⟩ := written
  refine ⟨?_, disk⟩
  rw [WriteDrive.lba, lo, mid, hi, kept, selected, device, request.lbaByte_toNat,
    request.lbaByte_toNat, request.lbaByte_toNat]
  omega

end Storing

section Stores

variable {driver : AtaDriver} {device : Int} {lba sectors : Nat}
  (serves : driver.Serves device lba sectors) (address : lba < 2 ^ 28)
include serves address

/-- A write of a request with 28-bit addresses leaves the last sector of its buffer in the first
sector of the request. -/
theorem ataWrite_leaves {statuses : Nat → Byte} {buffer : Nat → Word} {drive : WriteDrive}
    (ok : (ataWrite driver (fun _ => writeBus statuses) device lba buffer sectors drive).1 = .ok)
    (k : Nat) :
    (ataWrite driver (fun _ => writeBus statuses) device lba buffer sectors drive).2.disk k =
      if lba * 256 ≤ k ∧ k < lba * 256 + 256 then buffer ((sectors - 1) * 256 + (k - lba * 256))
      else drive.disk k := by
  -- The request is a 28-bit one whose address is passed on whole.
  have narrow : (driver.toRequest device lba sectors).lba48 = false := by
    simp [AtaDriver.toRequest, show ¬0x0FFFFFFF < lba by omega]
  have kept : (driver.toRequest device lba sectors).lba = lba := by
    simp [AtaDriver.toRequest, show ¬0x0FFFFFFF < lba by omega]
    omega
  obtain ⟨left, count⟩ : ∃ left, sectors = left + 1 := ⟨sectors - 1, by have := serves.2.1; omega⟩
  have waits := @writeBus_waits statuses ataTimeout ((writeBus statuses).outb .device
    (driver.toRequest device lba sectors).devByte drive)
  obtain ⟨place, disk⟩ := @writeBus_setup statuses _ narrow (by rw [kept]; exact address) _
    (congrFun waits.1 .device)
  rw [serves.write] at ok ⊢
  simp only [ataWriteChecked, ataSetup] at ok ⊢
  by_cases idle : (ataWaitBsy (writeBus statuses) ataTimeout ((writeBus statuses).outb .device
    (driver.toRequest device lba sectors).devByte drive)).1 = .ok
  · have loop : (driver.toRequest device lba sectors).sectors = left + 1 := count
    simp only [idle, if_true, ne_eq, not_true_eq_false, if_false, loop] at ok ⊢
    rw [writeBus_sectors narrow ok, place, kept, disk, waits.2, count, Nat.zero_add]
    rfl
  · simp [idle] at ok

/-- The second sector of the buffer never reaches the second sector of the request. -/
theorem not_writeStores (many : 1 < sectors) : ¬WriteStores driver device lba sectors := by
  intro stores
  -- On a drive that is always ready the write succeeds.
  have loop : ∀ (request : AtaRequest) (buffer : Nat → Word) left sec drive, (ataWriteSectors
      (writeBus fun _ => 0x08) request buffer left sec drive).1 = .ok := by
    intro request buffer left
    induction left with
    | zero => exact fun _ _ => rfl
    | succ left ih =>
      intro sec drive
      rw [ataWriteSectors, if_neg (not_not.mpr (ataDataPhase_ready (fun _ => rfl) _))]
      exact ih ..
  have ok : (ataWrite driver (fun _ => writeBus fun _ => 0x08) device lba
      (fun k => if k < 256 then 0 else 1) sectors ⟨fun _ => 0, fun _ => 0, 0, 0⟩).1 = .ok := by
    rw [serves.write]
    simp only [ataWriteChecked, ataSetup, @ataWaitBsy_ready _ (writeBus fun _ => 0x08)
      (fun _ => rfl), if_true, ne_eq, not_true_eq_false, if_false]
    exact loop ..
  have second := stores _ _ _ ok ((lba + 1) * 256)
  rw [ataWrite_leaves serves address ok, if_neg (by omega), if_pos (by omega),
    if_neg (by omega)] at second
  exact absurd second (show (0 : Word) ≠ 1 by decide)

end Stores

/-- The disk holds the buffer after every successful write exactly when there is one sector. -/
theorem ataWrite_stores_iff {driver : AtaDriver} {device : Int} {lba sectors : Nat}
    (passed : driver.checks device lba = .ok) (positive : 0 < sectors) (few : sectors ≤ 256)
    (address : lba + sectors ≤ 2 ^ 28) :
    WriteStores driver device lba sectors ↔ sectors = 1 := by
  have serves : driver.Serves device lba sectors := ⟨passed, by omega, fun _ => few⟩
  constructor
  · intro stores
    by_contra other
    exact not_writeStores serves (by omega) (by omega) stores
  · rintro rfl statuses buffer drive written ok k
    rw [ataWrite_leaves serves (by omega) ok]
    grind

/-- A single sector is stored. -/
theorem ataWrite_stores_one :
    WriteStores ⟨true, fun _ => true, fun _ => false⟩ 0 0 1 ↔ 1 = 1 :=
  ataWrite_stores_iff (by decide) (by decide) (by decide) (by decide)

/-- Of two sectors the second is put over the first. -/
theorem ataWrite_loses_second : ¬WriteStores ⟨true, fun _ => true, fun _ => false⟩ 0 0 2 :=
  not_writeStores ⟨by decide, by decide, by decide⟩ (by decide) (by decide)

end Ccos
