import Mathlib.Data.BitVec
import UtkKernel.Foundations.Loops
import UtkKernel.Structures.KernelError

/-! # Tables of the firmware (`arch/board/x86/src/acpi.c`)

A table is at an address of the memory, its length in its header. A walk over a table says which bytes it reads and
what it hands on. The header of a table belongs to it whatever the length says; that it is read is not listed. What a
walk reads is mapped before (`acpi_map_data`), without a look at it. -/

namespace UtkKernel.Acpi
open Foundations
set_option autoImplicit false

/-- The bytes of the address space. -/
abbrev FirmwareMemory := BitVec 32 → BitVec 8

def read32 (mem : FirmwareMemory) (a : BitVec 32) : BitVec 32 := mem (a + 3) ++ mem (a + 2) ++ mem (a + 1) ++ mem a

/-- So many bytes from an address on. -/
def bytesFrom (a : BitVec 32) (count : ℕ) : List (BitVec 32) := (List.range count).map fun i => a + BitVec.ofNat 32 i

/-- The sum of the bytes of a table, of which only the low byte counts. -/
def byteSum (mem : FirmwareMemory) (table : BitVec 32) (count : ℕ) : BitVec 8 := ((bytesFrom table count).map mem).sum

/-! ## Headers -/

def acpiRsdtSig : BitVec 32 := 0x54445352#32
def acpiXsdtSig : BitVec 32 := 0x54445358#32
def acpiFacpSig : BitVec 32 := 0x50434146#32
def acpiApicSig : BitVec 32 := 0x43495041#32
def acpiDsdtSig : BitVec 32 := 0x54445344#32

def headerSignature (mem : FirmwareMemory) (table : BitVec 32) : BitVec 32 := read32 mem table

def headerLength (mem : FirmwareMemory) (table : BitVec 32) : BitVec 32 := read32 mem (table + 4)

/-- `sizeof(acpi_header_t)` -/
def headerSize : ℕ := 36

/-- `sizeof(acpi_madt_t)` -/
def madtSize : ℕ := 44

/-! ## Lists of tables -/

/-- What a walk over a list of tables leaves: the bytes it read, the addresses it handed to the dispatcher, and the
error of the assertion that stopped it. -/
structure TableRun where
  reads : List (BitVec 32)
  tables : List (BitVec 32)
  err : OsReturnE
  deriving DecidableEq, Repr

structure SumState where
  i : BitVec 8
  sum : BitVec 8
  reads : List (BitVec 32)
  deriving DecidableEq, Repr

/-- `for(i = 0; i < rsdt_ptr->header.length; ++i)`, with an index of 8 bits. -/
def sumStep (mem : FirmwareMemory) (table : BitVec 32) (s : SumState) : SumState ⊕ SumState :=
  if s.i.toNat < (headerLength mem table).toNat then
    .inr ⟨s.i + 1, s.sum + mem (table + s.i.zeroExtend 32), s.reads ++ [table + s.i.zeroExtend 32]⟩
  else .inl s

structure RangeState where
  rangeBegin : BitVec 32
  reads : List (BitVec 32)
  tables : List (BitVec 32)
  deriving DecidableEq, Repr

/-- `while(range_begin < range_end)`: what `acpi_parse_dt` returns for an address, if it does. -/
def rangeStep (dispatch : BitVec 32 → Option OsReturnE) (mem : FirmwareMemory) (rangeEnd : BitVec 32) (s : RangeState) :
    TableRun ⊕ RangeState :=
  if s.rangeBegin < rangeEnd then
    let address := read32 mem s.rangeBegin
    let reads := s.reads ++ bytesFrom s.rangeBegin 4
    match dispatch address with
    | none => .inr s
    | some err =>
      if err = .osNoErr then .inr ⟨s.rangeBegin + 4, reads, s.tables ++ [address]⟩
      else .inl ⟨reads, s.tables ++ [address], err⟩
  else .inl ⟨s.reads, s.tables, .osNoErr⟩

/-- What `acpi_parse_rsdt` and `acpi_parse_xsdt` do; the pointers in the entries have 32 bits in both. -/
def parseTables (signature : BitVec 32) (dispatch : BitVec 32 → Option OsReturnE) (mem : FirmwareMemory) (fuel : ℕ)
    (table : BitVec 32) : Option TableRun :=
  if table = 0 then some ⟨[], [], .osErrNullPointer⟩
  else
    (loop (sumStep mem table) fuel ⟨0, 0, []⟩).bind fun s =>
      if s.sum ≠ 0 then some ⟨s.reads, [], .osErrChecksumFailed⟩
      else if headerSignature mem table ≠ signature then some ⟨s.reads, [], .osErrWrongSignature⟩
      else
        loop (rangeStep dispatch mem (table + headerLength mem table)) fuel
          ⟨table + BitVec.ofNat 32 headerSize, s.reads, []⟩

/-- `acpi_parse_rsdt` -/
def acpiParseRsdt := parseTables acpiRsdtSig

/-- `acpi_parse_xsdt` -/
def acpiParseXsdt := parseTables acpiXsdtSig

/-! ## The MADT -/

def apicTypeLocalApic : BitVec 8 := 0
def apicTypeIoApic : BitVec 8 := 1
def apicTypeInterruptOverride : BitVec 8 := 2

def maxCpuCount : ℕ := 4
def maxIoApicCount : ℕ := 1

/-- What a walk over a MADT leaves: the bytes it read, the entries it put in the vectors (which it also counts), and the
error of the assertion that stopped it. -/
structure ApicRun where
  reads : List (BitVec 32)
  cpuLapics : List (BitVec 32)
  ioApics : List (BitVec 32)
  err : OsReturnE
  deriving DecidableEq, Repr

structure ApicState where
  madtEntry : BitVec 32
  reads : List (BitVec 32)
  cpuLapics : List (BitVec 32)
  ioApics : List (BitVec 32)
  deriving DecidableEq, Repr

/-- `madt_entry += header->length` -/
def nextEntry (mem : FirmwareMemory) (entry : BitVec 32) : BitVec 32 := entry + (mem (entry + 1)).zeroExtend 32

/-- `while (madt_entry < madt_limit)`: `pushes` says whether a push finds memory, by the number of those before. -/
def apicStep (pushes : ℕ → Bool) (mem : FirmwareMemory) (madtLimit : BitVec 32) (s : ApicState) : ApicRun ⊕ ApicState :=
  let entry := s.madtEntry
  if entry < madtLimit then
    if mem entry = apicTypeLocalApic then
      if s.cpuLapics.length < maxCpuCount then
        if pushes (s.cpuLapics.length + s.ioApics.length) then
          .inr ⟨nextEntry mem entry, s.reads ++ [entry, entry + 1], s.cpuLapics ++ [entry], s.ioApics⟩
        else .inl ⟨s.reads ++ [entry], s.cpuLapics, s.ioApics, .osErrMalloc⟩
      else .inr ⟨nextEntry mem entry, s.reads ++ [entry, entry + 2, entry + 1], s.cpuLapics, s.ioApics⟩
    else if mem entry = apicTypeIoApic then
      if s.ioApics.length < maxIoApicCount then
        if pushes (s.cpuLapics.length + s.ioApics.length) then
          .inr ⟨nextEntry mem entry, s.reads ++ [entry, entry + 1], s.cpuLapics, s.ioApics ++ [entry]⟩
        else .inl ⟨s.reads ++ [entry], s.cpuLapics, s.ioApics, .osErrMalloc⟩
      else .inr ⟨nextEntry mem entry, s.reads ++ [entry, entry + 2, entry + 1], s.cpuLapics, s.ioApics⟩
    else .inr ⟨nextEntry mem entry, s.reads ++ [entry, entry + 1], s.cpuLapics, s.ioApics⟩
  else .inl ⟨s.reads, s.cpuLapics, s.ioApics, .osNoErr⟩

/-- `acpi_parse_apic` -/
def acpiParseApic (pushes : ℕ → Bool) (mem : FirmwareMemory) (fuel : ℕ) (madt : BitVec 32) : Option ApicRun :=
  let reads := bytesFrom madt (headerLength mem madt).toNat
  if madt = 0 then some ⟨[], [], [], .osErrNullPointer⟩
  else if byteSum mem madt (headerLength mem madt).toNat ≠ 0 then some ⟨reads, [], [], .osErrChecksumFailed⟩
  else if headerSignature mem madt ≠ acpiApicSig then some ⟨reads, [], [], .osErrWrongSignature⟩
  else
    loop (apicStep pushes mem (madt + headerLength mem madt)) fuel ⟨madt + BitVec.ofNat 32 madtSize, reads, [], []⟩

structure OverrideState where
  base : BitVec 32
  reads : List (BitVec 32)
  deriving DecidableEq, Repr

/-- `while(base < limit)`: the bytes that are read and the interrupt. -/
def overrideStep (mem : FirmwareMemory) (irqNumber limit : BitVec 32) (s : OverrideState) :
    List (BitVec 32) × BitVec 32 ⊕ OverrideState :=
  if s.base < limit then
    if mem s.base = apicTypeInterruptOverride then
      if (mem (s.base + 3)).zeroExtend 32 = irqNumber then
        .inl (s.reads ++ [s.base, s.base + 3] ++ bytesFrom (s.base + 4) 4, read32 mem (s.base + 4))
      else .inr ⟨nextEntry mem s.base, s.reads ++ [s.base, s.base + 3, s.base + 1]⟩
    else .inr ⟨nextEntry mem s.base, s.reads ++ [s.base, s.base + 1]⟩
  else .inl (s.reads, irqNumber)

/-- `acpi_get_remaped_irq`: the bytes that are read and what is returned; `madt` is 0 where there is none. -/
def acpiGetRemapedIrq (acpiInitialized : Bool) (mem : FirmwareMemory) (fuel : ℕ) (madt irqNumber : BitVec 32) :
    Option (List (BitVec 32) × BitVec 32) :=
  if acpiInitialized = false then some ([], -1)
  else if madt = 0 then some ([], irqNumber)
  else
    loop (overrideStep mem irqNumber (madt + headerLength mem madt)) fuel ⟨madt + BitVec.ofNat 32 madtSize, []⟩

/-! ## The dispatcher -/

/-- `acpi_parse_dsdt` -/
def acpiParseDsdt (mem : FirmwareMemory) (dsdt : BitVec 32) : OsReturnE :=
  if dsdt = 0 then .osErrNullPointer
  else if byteSum mem dsdt (headerLength mem dsdt).toNat ≠ 0 then .osErrChecksumFailed
  else if headerSignature mem dsdt ≠ acpiDsdtSig then .osErrWrongSignature
  else .osNoErr

/-- `acpi_parse_fadt`; the address of the DSDT is behind the header and the one of the FACS. -/
def acpiParseFadt (mem : FirmwareMemory) (fadt : BitVec 32) : OsReturnE :=
  if fadt = 0 then .osErrNullPointer
  else if byteSum mem fadt (headerLength mem fadt).toNat ≠ 0 then .osErrChecksumFailed
  else if headerSignature mem fadt ≠ acpiFacpSig then .osErrWrongSignature
  else acpiParseDsdt mem (read32 mem (fadt + 40))

/-- `acpi_parse_dt` -/
def acpiParseDt (pushes : ℕ → Bool) (mem : FirmwareMemory) (fuel : ℕ) (header : BitVec 32) : Option OsReturnE :=
  if header = 0 then some .osErrNullPointer
  else if headerSignature mem header = acpiFacpSig then some (acpiParseFadt mem header)
  else if headerSignature mem header = acpiApicSig then (acpiParseApic pushes mem fuel header).map ApicRun.err
  else some .osNoErr

end UtkKernel.Acpi
