import UtkKernel.Foundations.CStrings
import UtkKernel.Structures.KernelError

/-! # The RAM disk (`fs/src/init_rd.c`)

The driver adds the start of the disk, the size of its header, the number of a block (of one byte) and an offset in 32
bits, and compares the first address of an access and the one behind it with the end of the disk. When neither sum
wraps, what it copies is inside of the disk. -/

namespace UtkKernel.Fs
open Foundations
set_option autoImplicit false

/-! ## The driver -/

/-- `UTK_INITRD_MAGIC` -/
def utkInitrdMagic : BitVec 64 := 0x4452494E494B5455#64

/-- `sizeof(initrd_master_block_t)` -/
def masterBlockSize : BitVec 32 := 512#32

/-- `initrd_device_t` -/
structure InitrdDevice where
  startAddr : BitVec 32
  endAddr : BitVec 32
  size : BitVec 32
  deriving DecidableEq

/-- `initrd_init_device`, of a region of memory and what the header in it says. -/
def initrdInitDevice (memBase memSize : BitVec 32) (magic : BitVec 64) (size : BitVec 32) : Except OsReturnE InitrdDevice :=
  if memBase &&& 4095#32 ≠ 0#32 then .error .osErrAlign
  else if magic ≠ utkInitrdMagic then .error .osErrWrongSignature
  else if memSize < size then .error .osErrUnauthorizedAction
  else .ok ⟨memBase, memBase + size, size⟩

/-- The address of the first byte of an access to a device, if the checks of the driver pass. -/
def initrdBlockAddr (currentDev device : InitrdDevice) (blockId size offset : BitVec 32) : Except OsReturnE (BitVec 32) :=
  if device ≠ currentDev then .error .osErrUnauthorizedAction
  else
    let blockAddr := currentDev.startAddr + blockId + masterBlockSize + offset
    if currentDev.endAddr < blockAddr ∨ currentDev.endAddr < blockAddr + size then .error .osErrOutOfBound
    else .ok blockAddr

/-- `initrd_read_blocks`: the bytes that it copies to the buffer. -/
def initrdReadBlocks (memory : BitVec 32 → Byte) (currentDev device : InitrdDevice) (blockId size offset : BitVec 32) :
    Except OsReturnE (List Byte) :=
  (initrdBlockAddr currentDev device blockId size offset).map fun blockAddr =>
    (List.range size.toNat).map fun i => memory (blockAddr + BitVec.ofNat 32 i)

/-- `initrd_write_blocks`, of a buffer of the size -/
def initrdWriteBlocks (memory : BitVec 32 → Byte) (currentDev device : InitrdDevice) (blockId size offset : BitVec 32)
    (buffer : List Byte) : OsReturnE × (BitVec 32 → Byte) :=
  match initrdBlockAddr currentDev device blockId size offset with
  | .error err => (err, memory)
  | .ok blockAddr => (.osNoErr, fun a =>
      if (a - blockAddr).toNat < size.toNat then buffer.getD (a - blockAddr).toNat 0 else memory a)

/-! ## Confinement -/

/-- The address is between the end of the header and the end of the disk. -/
def InitrdDevice.Inside (disk : InitrdDevice) (a : ℕ) : Prop := disk.startAddr.toNat + 512 ≤ a ∧ a < disk.endAddr.toNat

/-- Both operations give an error and touch nothing, or copy their bytes from one place of the disk and to it. -/
def Confined (currentDev device : InitrdDevice) (blockId size offset : BitVec 32) : Prop :=
  ∀ (memory : BitVec 32 → Byte) (buffer : List Byte),
    (∃ err, err ≠ .osNoErr ∧ initrdReadBlocks memory currentDev device blockId size offset = .error err ∧
      initrdWriteBlocks memory currentDev device blockId size offset buffer = (err, memory)) ∨
    ∃ first : ℕ, (∀ i < size.toNat, currentDev.Inside (first + i)) ∧
      initrdReadBlocks memory currentDev device blockId size offset =
        .ok ((List.range size.toNat).map fun i => memory (BitVec.ofNat 32 (first + i))) ∧
      initrdWriteBlocks memory currentDev device blockId size offset buffer = (.osNoErr, fun a =>
        if first ≤ a.toNat ∧ a.toNat < first + size.toNat then buffer.getD (a.toNat - first) 0 else memory a)

/-- The first byte that an access asks for. -/
def wantedAddr (disk : InitrdDevice) (blockId offset : BitVec 32) : ℕ :=
  disk.startAddr.toNat + 512 + blockId.toNat + offset.toNat

/-- Both sums, as far as they wrap, are not behind the end of the disk; but the bytes start before the end of the
header, or they go on behind the last address of all. -/
def WrapsInto (disk : InitrdDevice) (blockId size offset : BitVec 32) : Prop :=
  size ≠ 0#32 ∧ wantedAddr disk blockId offset % 2 ^ 32 ≤ disk.endAddr.toNat ∧
    (wantedAddr disk blockId offset + size.toNat) % 2 ^ 32 ≤ disk.endAddr.toNat ∧
    (wantedAddr disk blockId offset % 2 ^ 32 < disk.startAddr.toNat + 512 ∨
      2 ^ 32 ≤ wantedAddr disk blockId offset % 2 ^ 32 + size.toNat)

variable {disk device : InitrdDevice} {memBase memSize blockId size offset blockAddr : BitVec 32} {magic : BitVec 64}
  {diskSize : BitVec 32} {memory : BitVec 32 → Byte} {buffer : List Byte}

/-! ## Addresses -/

theorem toNat_wantedAddr (disk : InitrdDevice) (blockId offset : BitVec 32) :
    (disk.startAddr + blockId + masterBlockSize + offset).toNat = wantedAddr disk blockId offset % 2 ^ 32 := by
  have hheader : masterBlockSize.toNat = 512 := rfl
  unfold wantedAddr
  rw [BitVec.toNat_add, BitVec.toNat_add, BitVec.toNat_add, hheader]
  omega

/-- What the checks let pass. -/
theorem initrdBlockAddr_ok (h : initrdBlockAddr disk device blockId size offset = .ok blockAddr) :
    device = disk ∧ blockAddr.toNat = wantedAddr disk blockId offset % 2 ^ 32 ∧
      wantedAddr disk blockId offset % 2 ^ 32 ≤ disk.endAddr.toNat ∧
      (wantedAddr disk blockId offset + size.toNat) % 2 ^ 32 ≤ disk.endAddr.toNat := by
  have hwanted := toNat_wantedAddr disk blockId offset
  unfold initrdBlockAddr at h
  dsimp only at h
  split_ifs at h with hdevice hbound
  obtain ⟨hfirst, hbehind⟩ := not_or.mp hbound
  obtain rfl := Except.ok.inj h
  rw [BitVec.lt_def, not_lt] at hfirst hbehind
  rw [BitVec.toNat_add] at hbehind
  refine ⟨not_not.mp hdevice, hwanted, hwanted ▸ hfirst, ?_⟩
  rw [hwanted] at hbehind
  omega

theorem initrdBlockAddr_self (hfirst : wantedAddr disk blockId offset % 2 ^ 32 ≤ disk.endAddr.toNat)
    (hbehind : (wantedAddr disk blockId offset + size.toNat) % 2 ^ 32 ≤ disk.endAddr.toNat) :
    initrdBlockAddr disk disk blockId size offset = .ok (disk.startAddr + blockId + masterBlockSize + offset) := by
  have hwanted := toNat_wantedAddr disk blockId offset
  unfold initrdBlockAddr
  rw [if_neg (not_not.mpr rfl)]
  dsimp only
  rw [if_neg]
  rw [not_or, BitVec.lt_def, BitVec.lt_def, BitVec.toNat_add _ size, hwanted]
  omega

theorem initrdBlockAddr_error {err : OsReturnE} (h : initrdBlockAddr disk device blockId size offset = .error err) :
    err ≠ .osNoErr := by
  unfold initrdBlockAddr at h
  dsimp only at h
  split_ifs at h
  · rw [← Except.error.inj h]
    exact OsReturnE.noConfusion
  · rw [← Except.error.inj h]
    exact OsReturnE.noConfusion

/-! ## Accesses that are confined -/

/-- Bytes that do not wrap are copied from one place of the disk and to it. -/
theorem copied_of_noWrap (h : initrdBlockAddr disk device blockId size offset = .ok blockAddr)
    (hwrap : blockAddr.toNat + size.toNat ≤ 2 ^ 32) (memory : BitVec 32 → Byte) (buffer : List Byte) :
    initrdReadBlocks memory disk device blockId size offset =
        .ok ((List.range size.toNat).map fun i => memory (BitVec.ofNat 32 (blockAddr.toNat + i))) ∧
      initrdWriteBlocks memory disk device blockId size offset buffer = (.osNoErr, fun a =>
        if blockAddr.toNat ≤ a.toNat ∧ a.toNat < blockAddr.toNat + size.toNat then buffer.getD (a.toNat - blockAddr.toNat) 0
        else memory a) := by
  constructor
  · unfold initrdReadBlocks
    rw [h]
    refine congrArg Except.ok (List.map_congr_left fun i hi => congrArg memory ?_)
    rw [BitVec.ofNat_add, BitVec.ofNat_toNat, BitVec.setWidth_eq]
  · unfold initrdWriteBlocks
    rw [h]
    refine congrArg (Prod.mk OsReturnE.osNoErr) (funext fun a => ?_)
    have hlt := a.isLt
    by_cases hin : blockAddr.toNat ≤ a.toNat
    · have hsub : (a - blockAddr).toNat = a.toNat - blockAddr.toNat := BitVec.toNat_sub_of_le hin
      rw [hsub]
      exact if_congr (by omega) rfl rfl
    · have hsub : (a - blockAddr).toNat = 2 ^ 32 - blockAddr.toNat + a.toNat := by
        rw [BitVec.toNat_sub]
        omega
      rw [if_neg (by omega), if_neg (by omega)]

theorem confined_of_not_wrapsInto (hnot : device = disk → ¬WrapsInto disk blockId size offset)
    (hdisk : disk.startAddr.toNat + 512 ≤ 2 ^ 32) : Confined disk device blockId size offset := by
  intro memory buffer
  cases h : initrdBlockAddr disk device blockId size offset with
  | error err =>
    refine .inl ⟨err, initrdBlockAddr_error h, ?_, ?_⟩
    · unfold initrdReadBlocks
      rw [h]
      rfl
    · unfold initrdWriteBlocks
      rw [h]
  | ok blockAddr =>
    obtain ⟨hdevice, haddr, hfirst, hbehind⟩ := initrdBlockAddr_ok h
    have hlt := disk.endAddr.isLt
    have hsizeLt := blockAddr.isLt
    rcases Nat.eq_zero_or_pos size.toNat with hnone | hsome
    · obtain ⟨hread, hwrite⟩ := copied_of_noWrap h (by omega) memory buffer
      exact .inr ⟨blockAddr.toNat, fun i hi => by omega, hread, hwrite⟩
    · have hsize : size ≠ 0#32 := fun hzero => by
        rw [hzero] at hsome
        exact absurd hsome (lt_irrefl _)
      have hplace : ¬(wantedAddr disk blockId offset % 2 ^ 32 < disk.startAddr.toNat + 512 ∨
          2 ^ 32 ≤ wantedAddr disk blockId offset % 2 ^ 32 + size.toNat) :=
        fun hbad => hnot hdevice ⟨hsize, hfirst, hbehind, hbad⟩
      obtain ⟨hread, hwrite⟩ := copied_of_noWrap h (by omega) memory buffer
      refine .inr ⟨blockAddr.toNat, fun i hi => ?_, hread, hwrite⟩
      unfold InitrdDevice.Inside
      omega

/-! ## Accesses that are not -/

/-- A memory that shows what is on the disk. -/
def shown (disk : InitrdDevice) (a : BitVec 32) : Byte :=
  if disk.startAddr.toNat + 512 ≤ a.toNat ∧ a.toNat < disk.endAddr.toNat then 1#8 else 0#8

theorem not_confined_of_wrapsInto (hwraps : WrapsInto disk blockId size offset) :
    ¬Confined disk disk blockId size offset := by
  obtain ⟨hsize, hfirst, hbehind, hbad⟩ := hwraps
  intro hconfined
  have hpos : 0 < size.toNat := Nat.pos_of_ne_zero fun h0 => hsize (BitVec.eq_of_toNat_eq h0)
  have haddr := toNat_wantedAddr disk blockId offset
  have h := initrdBlockAddr_self hfirst hbehind
  have hread : initrdReadBlocks (shown disk) disk disk blockId size offset = .ok ((List.range size.toNat).map fun i =>
      shown disk (disk.startAddr + blockId + masterBlockSize + offset + BitVec.ofNat 32 i)) := by
    unfold initrdReadBlocks
    rw [h]
    rfl
  obtain ⟨err, -, herror, -⟩ | ⟨first, hinside, hok, -⟩ := hconfined (shown disk) []
  · exact nomatch hread.symm.trans herror
  have hbytes := Except.ok.inj (hread.symm.trans hok)
  -- some byte that is read is not one of the disk
  obtain ⟨i, hi, houtside⟩ : ∃ i < size.toNat,
      shown disk (disk.startAddr + blockId + masterBlockSize + offset + BitVec.ofNat 32 i) = 0#8 := by
    have hend := disk.endAddr.isLt
    rcases hbad with hbefore | hwrap
    · refine ⟨0, hpos, if_neg ?_⟩
      rw [BitVec.add_zero, haddr]
      omega
    · refine ⟨2 ^ 32 - 1 - wantedAddr disk blockId offset % 2 ^ 32, by omega, if_neg ?_⟩
      rw [BitVec.toNat_add, haddr, BitVec.toNat_ofNat]
      omega
  have hsame := congrArg (·[i]?) hbytes
  rw [List.getElem?_map, List.getElem?_map, List.getElem?_range hi, Option.map_some, Option.map_some, houtside] at hsame
  obtain ⟨hlow, hhigh⟩ := hinside i hi
  have hend := disk.endAddr.isLt
  have hshown : shown disk (BitVec.ofNat 32 (first + i)) = 1#8 := by
    refine if_pos ?_
    rw [BitVec.toNat_ofNat, Nat.mod_eq_of_lt (by omega)]
    exact ⟨hlow, hhigh⟩
  rw [hshown] at hsame
  exact absurd (Option.some.inj hsame) (by decide)

/-- The header of a disk that was accepted does not end behind the last address. -/
theorem header_inside (hinit : initrdInitDevice memBase memSize magic diskSize = .ok disk) :
    disk.startAddr.toNat + 512 ≤ 2 ^ 32 := by
  unfold initrdInitDevice at hinit
  split_ifs at hinit with halign hmagic hsize
  obtain rfl := Except.ok.inj hinit
  have haligned : memBase.toNat &&& 4095 = 0 := by
    have hzero := congrArg BitVec.toNat (not_not.mp halign)
    rw [BitVec.toNat_and] at hzero
    exact hzero
  have hmod : memBase.toNat % 4096 = 0 := by
    rw [← Nat.and_two_pow_sub_one_eq_mod _ 12]
    exact haligned
  have hlt := memBase.isLt
  change memBase.toNat + 512 ≤ 2 ^ 32
  omega

/-- On a disk that was accepted, an access is confined exactly when it does not wrap into the disk. -/
theorem confined_iff (memBase memSize : BitVec 32) (magic : BitVec 64) (diskSize : BitVec 32) (disk device : InitrdDevice)
    (blockId size offset : BitVec 32) (hinit : initrdInitDevice memBase memSize magic diskSize = .ok disk) :
    Confined disk device blockId size offset ↔ (device = disk → ¬WrapsInto disk blockId size offset) := by
  refine ⟨fun hconfined hdevice hwraps => ?_, fun hnot => confined_of_not_wrapsInto hnot (header_inside hinit)⟩
  exact not_confined_of_wrapsInto hwraps (hdevice ▸ hconfined)

/-- A disk of one page. -/
def pageDisk : InitrdDevice := ⟨0x1000#32, 0x2000#32, 0x1000#32⟩

/-- The first block behind the header is read and written. -/
theorem confined_first : Confined pageDisk pageDisk 0#32 512#32 0#32 :=
  (confined_iff 0x1000#32 0x1000#32 utkInitrdMagic 0x1000#32 pageDisk pageDisk 0#32 512#32 0#32 (by decide)).mpr fun _ => by
    unfold WrapsInto wantedAddr
    decide

/-- A block behind 4 GiB is the one at the address zero. -/
theorem confined_wraps : ¬Confined pageDisk pageDisk 0xFFFFEE00#32 512#32 0#32 :=
  not_confined_of_wrapsInto (by
    unfold WrapsInto wantedAddr
    decide)

end UtkKernel.Fs
