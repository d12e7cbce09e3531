import UtkKernel.Foundations.CStrings
import UtkKernel.Structures.KernelError

/-! # The USTAR file system (`fs/src/ustar_fs.c`)

A partition is a list of blocks of 512 bytes, which go by their inodes. Each access of the device may fail, and a
write that fails changes nothing. Loops take fuel, since the size field of a header may lead a scan in a circle. A
function gives `none` where it has not ended yet, where it accesses memory outside of its arrays, and where the
source panics. The fields of a node that nothing here reads are left out. -/

namespace UtkKernel.Fs
open Foundations
set_option autoImplicit false

/-! ## Headers -/

def ustarFilenameMaxLength : ℕ := 100
def ustarBlockSize : ℕ := 512
def ustarFsizeFieldLength : ℕ := 12

/-- `USTAR_MAGIC` -/
def ustarMagic : List Byte := [0x75, 0x73, 0x74, 0x61, 0x72, 0x20]

/-- `'/'` -/
def slash : Byte := 0x2F

/-- `VFS_FILE_TYPE_E` -/
inductive VfsFileType where
  | file
  | folder
  | hardLink
  | symLink
  | charDev
  | blockDev
  | dir
  | namedPipe
  | other
  deriving DecidableEq, Repr

/-- `USTAR_DEV_OP_E` -/
inductive UstarDevOp where
  | write
  | read
  | flush
  deriving DecidableEq, Repr

/-- A block of the device; as a header it is a `ustar_block_t`. -/
@[ext] structure UstarBlock where
  bytes : List Byte
  length_eq : bytes.length = ustarBlockSize
  deriving DecidableEq

namespace UstarBlock

def field (b : UstarBlock) (offset size : ℕ) : List Byte := (b.bytes.drop offset).take size

def mode (b : UstarBlock) : List Byte := b.field 100 8
def size (b : UstarBlock) : List Byte := b.field 124 12
def type (b : UstarBlock) : Byte := b.bytes.getD 156 0
def magic (b : UstarBlock) : List Byte := b.field 257 6

/-- `file_name`, as a string of at most as many bytes as the field has. -/
def name (b : UstarBlock) : CString := .ofBuffer (b.bytes.take ustarFilenameMaxLength)

/-- Is `file_name[0]` zero? -/
def unnamed (b : UstarBlock) : Bool := b.bytes.headD 0 = 0

/-- Bytes are written in the block, as far as they fit. -/
def write (b : UstarBlock) (offset : ℕ) (bytes : List Byte) : UstarBlock :=
  if h : offset + bytes.length ≤ ustarBlockSize then
    ⟨overwrite b.bytes offset bytes, (length_overwrite (h.trans_eq b.length_eq.symm)).trans b.length_eq⟩
  else b

end UstarBlock

/-- `ustar_check_block` -/
def ustarCheckBlock (b : UstarBlock) : OsReturnE :=
  if strncmp 6 b.magic ustarMagic ≠ 0 then .osErrWrongPartitionType else .osNoErr

/-- `oct2uint`; a `char` is signed. -/
def oct2uint (oct : List Byte) (size : ℕ) : BitVec 32 :=
  (cstr (oct.take size)).foldl (fun out c => (out <<< 3) ||| (c.signExtend 32 - 48#32)) 0#32

/-- What `uint2oct` has in `tmp`, the lowest digit first. -/
def octDigits : ℕ → BitVec 32 → List Byte
  | 0, _ => []
  | room + 1, value => if value = 0#32 then [] else (0x30 + (value % 8#32).setWidth 8) :: octDigits room (value / 8#32)

/-- `uint2oct`: the field that it writes. A zero has no terminator. -/
def uint2oct (value : BitVec 32) (size : ℕ) : List Byte :=
  if value = 0#32 then List.replicate size 0x30
  else
    let tmp := octDigits 32 value
    overwrite (overwrite (List.replicate size 0x30) (size - tmp.length - 1) tmp.reverse) (size - 1) [0]

/-- `ustar_to_vfs_type` -/
def ustarToVfsType (type : Byte) : VfsFileType :=
  if type = 0x30 then .file
  else if type = 0x31 then .hardLink
  else if type = 0x32 then .symLink
  else if type = 0x33 then .charDev
  else if type = 0x34 then .blockDev
  else if type = 0x35 then .dir
  else if type = 0x36 then .namedPipe
  else .other

/-! ## Paths -/

/-- The last slash at or below a position, if it is not the first character; else the first position. -/
def lastSlash (path : List Byte) : ℕ → ℕ
  | 0 => 0
  | len + 1 => if path.getD (len + 1) 0 ≠ slash then lastSlash path len else len + 1

/-- `ustar_get_path`: what it writes. It reads before a path of one character. -/
def ustarGetPath (path : CString) : Option CString :=
  if path.chars.length < 2 then none
  else
    let len := lastSlash path.chars (path.chars.length - 2)
    some (.ofBuffer (path.chars.take (if len ≠ 0 then len + 1 else 0)))

/-- `ustar_get_filename`: the string that it leaves in a buffer of the length of a name. Without a terminator in what
it writes, the string goes on behind it. -/
def ustarGetFilename (path : CString) : Option CString :=
  if path.chars.length = 0 ∨ ustarFilenameMaxLength ≤ path.chars.length then none
  else if path.chars.getD (path.chars.length - 1) 0 = slash then some path
  else
    let len := lastSlash path.chars (path.chars.length - 1)
    some (.ofBuffer (path.chars.drop (if len ≠ 0 then len + 1 else 0)))

/-- `is_root`. The buffer is as large as it has to be, if there is one. -/
def isRoot (kmalloc : ℕ → Option (List Byte)) (path file : CString) : Option Bool :=
  match kmalloc (4 * file.chars.length) with
  | none => some false
  | some _ => (ustarGetPath file).map fun buffer =>
      decide (path.chars.length = buffer.chars.length ∧ strncmp path.chars.length path.chars buffer.chars = 0)

/-! ## The device -/

structure Partition where
  blocks : List UstarBlock
  fault : UstarDevOp → BitVec 32 → OsReturnE

/-- A node, from `ustar_set_vnode`. -/
structure Vnode where
  type : VfsFileType
  name : CString
  size : BitVec 32
  fsInode : BitVec 32
  deriving DecidableEq

namespace Partition

/-- The block that an inode stands for; its byte offset is computed in 32 bits. -/
def blockIndex (inode : BitVec 32) : ℕ := (inode * 512#32).toNat / ustarBlockSize

/-- `ustar_access_blocks_from_device` for one block, with its three operations. -/
def readBlock (d : Partition) (inode : BitVec 32) : Except OsReturnE UstarBlock :=
  if d.fault .read inode ≠ .osNoErr then .error (d.fault .read inode)
  else
    match d.blocks[blockIndex inode]? with
    | none => .error .osErrOutOfBound
    | some b => .ok b

def writeBlock (d : Partition) (inode : BitVec 32) (b : UstarBlock) : OsReturnE × Partition :=
  if d.fault .write inode ≠ .osNoErr then (d.fault .write inode, d)
  else if blockIndex inode < d.blocks.length then
    (.osNoErr, { d with blocks := d.blocks.set (blockIndex inode) b })
  else (.osErrOutOfBound, d)

def flushBlock (d : Partition) (inode : BitVec 32) : OsReturnE := d.fault .flush inode

/-! ## Scans -/

/-- The inode behind a header and the data of its file. -/
def nextInode (b : UstarBlock) (inode : BitVec 32) : BitVec 32 :=
  let size := oct2uint b.size (ustarFsizeFieldLength - 1) + 512#32
  let size := if size % 512#32 ≠ 0#32 then size + 512#32 else size
  inode + size / 512#32

/-- `ustar_get_next_file` -/
def ustarGetNextFile (d : Partition) : ℕ → UstarBlock → BitVec 32 → Option (UstarBlock × BitVec 32)
  | 0, _, _ => none
  | fuel + 1, b, inode =>
    if ustarCheckBlock b ≠ .osNoErr then some (b.write 0 [0], inode)
    else
      match d.readBlock (nextInode b inode) with
      | .error _ => some (b.write 0 [0], nextInode b inode)
      | .ok b' =>
        if b'.unnamed then ustarGetNextFile d fuel b' (nextInode b inode) else some (b', nextInode b inode)

/-- The loop of `ustar_search_file`. -/
def searchFrom (d : Partition) (path : CString) :
    ℕ → UstarBlock → BitVec 32 → Option (Except OsReturnE (UstarBlock × BitVec 32))
  | 0, _, _ => none
  | fuel + 1, b, inode =>
    if b.unnamed then some (.error .osErrFileNotFound)
    else if strncmp ustarFilenameMaxLength path.chars b.bytes = 0 then
      if ustarCheckBlock b ≠ .osNoErr then some (.error (ustarCheckBlock b)) else some (.ok (b, inode))
    else (d.ustarGetNextFile fuel b inode).bind fun r => searchFrom d path fuel r.1 r.2

/-- The block and the inode that a scan starts with. -/
def firstBlock (d : Partition) (inode : BitVec 32) : Except OsReturnE UstarBlock :=
  match d.readBlock inode with
  | .error err => .error err
  | .ok b => if ustarCheckBlock b ≠ .osNoErr then .error (ustarCheckBlock b) else .ok b

/-- `ustar_search_file`: the block of the file and its inode, or an error. -/
def ustarSearchFile (d : Partition) (fuel : ℕ) (path : CString) :
    Option (Except OsReturnE (UstarBlock × BitVec 32)) :=
  if ustarFilenameMaxLength < path.chars.length then some (.error .osErrFileNotFound)
  else
    match d.firstBlock 0#32 with
    | .error err => some (.error err)
    | .ok b => d.searchFrom path fuel b 0#32

/-- The loop of `ustar_get_item_count`. The length of a name that fills its field is counted on in the fields behind
it. -/
def countFrom (d : Partition) (path : CString) : ℕ → UstarBlock → BitVec 32 → ℕ → Option (Except OsReturnE ℕ)
  | 0, _, _, _ => none
  | fuel + 1, b, inode, itemCount =>
    if b.unnamed then some (.ok itemCount)
    else if ustarCheckBlock b ≠ .osNoErr then some (.error (ustarCheckBlock b))
    else
      let inside := strncmp path.chars.length b.bytes path.chars = 0 ∧
        (cstr b.bytes).length ≠ path.chars.length
      (d.ustarGetNextFile fuel b inode).bind fun r =>
        countFrom d path fuel r.1 r.2 (if inside then itemCount + 1 else itemCount)

/-- `ustar_get_item_count` -/
def ustarGetItemCount (d : Partition) (fuel : ℕ) (path : CString) : Option (Except OsReturnE ℕ) :=
  (d.ustarSearchFile fuel path).bind fun r =>
    match r with
    | .error err => some (.error err)
    | .ok (b, inode) =>
      if ustarToVfsType b.type ≠ .dir then some (.error .osErrFileNotFound) else d.countFrom path fuel b inode 0

/-! ## Opening and listing -/

/-- `ustar_set_vnode` -/
def ustarSetVnode (b : UstarBlock) (inode : BitVec 32) (path : CString) : Option Vnode :=
  (ustarGetFilename path).map fun filename =>
    ⟨ustarToVfsType b.type, filename, oct2uint b.size ustarFsizeFieldLength, inode⟩

/-- `ustar_open_file`, which repeats the search. -/
def ustarOpenFile (d : Partition) (fuel : ℕ) (path : CString) : Option (Except OsReturnE Vnode) :=
  (d.ustarSearchFile fuel path).bind fun r =>
    match r with
    | .error err => some (.error err)
    | .ok (b, inode) => (ustarSetVnode b inode path).map .ok

/-- What `ustar_list_directory` reports and leaves in its buffer. -/
structure Listing where
  err : OsReturnE
  buffer : List Byte
  itemCount : ℕ

/-- The loop of `ustar_list_directory`. The terminator of a listing that does not fit is written at the number of
bytes that are left, which may be one behind the buffer. -/
def listFrom (kmalloc : ℕ → Option (List Byte)) (d : Partition) (v : Vnode) :
    ℕ → UstarBlock → BitVec 32 → List Byte → ℕ → ℕ → Option Listing
  | 0, _, _, _, _, _ => none
  | fuel + 1, b, inode, buffer, sizeLeft, itemCount =>
    if b.unnamed then
      some ⟨.osNoErr, if sizeLeft < buffer.length then overwrite buffer (buffer.length - sizeLeft - 1) [0] else buffer,
        itemCount⟩
    else if ustarCheckBlock b ≠ .osNoErr then some ⟨ustarCheckBlock b, buffer, itemCount⟩
    else
      let dirLength := v.name.chars.length
      let nameLength := (cstr b.bytes).length
      let next := fun buffer sizeLeft itemCount => (d.ustarGetNextFile fuel b inode).bind fun r =>
        listFrom kmalloc d v fuel r.1 r.2 buffer sizeLeft itemCount
      if strncmp dirLength b.bytes v.name.chars = 0 ∧ nameLength ≠ dirLength then
        (isRoot kmalloc v.name (.ofBuffer b.bytes)).bind fun inRoot =>
          if inRoot then
            if nameLength + 1 < sizeLeft then
              let name := strncpy (nameLength - dirLength) (b.bytes.drop dirLength)
              next (overwrite buffer (buffer.length - sizeLeft) (name ++ [0]))
                (sizeLeft - (nameLength - dirLength) - 1) (itemCount + 1)
            else if sizeLeft < buffer.length then some ⟨.osErrOutOfBound, overwrite buffer sizeLeft [0], itemCount⟩
            else none
          else next buffer sizeLeft itemCount
      else next buffer sizeLeft itemCount

/-- `ustar_list_directory` -/
def ustarListDirectory (kmalloc : ℕ → Option (List Byte)) (d : Partition) (fuel : ℕ) (v : Vnode)
    (buffer : Option (List Byte)) : Option Listing :=
  match buffer with
  | none => some ⟨.osErrNullPointer, [], 0⟩
  | some buffer =>
    match d.firstBlock v.fsInode with
    | .error err => some ⟨err, buffer, 0⟩
    | .ok b =>
      if ustarToVfsType b.type ≠ .dir then some ⟨.osErrFileNotFound, buffer, 0⟩
      else d.listFrom kmalloc v fuel b v.fsInode buffer buffer.length 0

/-! ## Reading -/

/-- `ustar_access_blocks_from_device` for several blocks, which it reads one after the other. -/
def readBlocks (d : Partition) : ℕ → BitVec 32 → Except OsReturnE (List Byte)
  | 0, _ => .ok []
  | blockCounts + 1, inode =>
    match d.readBlock inode with
    | .error err => .error err
    | .ok b => (readBlocks d blockCounts (inode + 1#32)).map fun bytes => b.bytes ++ bytes

/-- `ustar_read_file`: an error, or the bytes that it copies. -/
def ustarReadFile (kmalloc : ℕ → Option (List Byte)) (d : Partition) (v : Vnode) (cursor size : BitVec 32) :
    Option (Except OsReturnE (List Byte)) :=
  match d.firstBlock v.fsInode with
  | .error err => some (.error err)
  | .ok b =>
    let fileSize := oct2uint b.size ustarFsizeFieldLength
    if ustarToVfsType b.type ≠ .file then some (.error .osErrFileNotFound)
    else if fileSize ≤ cursor ∨ size = 0#32 then some (.ok [])
    else
      let size := if fileSize < cursor + size then fileSize - cursor else size
      let blocksToRead := size / 512#32
      let blocksToRead := if size % 512#32 ≠ 0#32 then blocksToRead + 1#32 else blocksToRead
      let blocksToRead := if 512#32 < cursor % 512#32 + size % 512#32 then blocksToRead + 1#32 else blocksToRead
      let offset := (cursor % 512#32).toNat
      match kmalloc (blocksToRead * 512#32).toNat with
      | none => some (.error .osErrMalloc)
      | some _ =>
        match d.readBlocks ((blocksToRead * 512#32).toNat / ustarBlockSize) (v.fsInode + 1#32 + cursor / 512#32) with
        | .error err => some (.error err)
        | .ok bytes =>
          if offset + size.toNat ≤ bytes.length then some (.ok ((bytes.drop offset).take size.toNat)) else none

/-! ## Truncating -/

/-- `ustar_truncate_file` -/
def ustarTruncateFile (d : Partition) (fuel : ℕ) (path : CString) (newSize : BitVec 32) :
    Option (OsReturnE × Partition) :=
  (d.ustarSearchFile fuel path).map fun r =>
    match r with
    | .error err => (err, d)
    | .ok (b, inode) =>
      if ustarToVfsType b.type ≠ .file then (.osErrFileNotFound, d)
      else if oct2uint b.size ustarFsizeFieldLength < newSize then (.osErrUnauthorizedAction, d)
      else d.writeBlock inode (b.write 124 (uint2oct newSize ustarFsizeFieldLength))

/-! ## Removing -/

/-- `ustar_remove_file` -/
def ustarRemoveFile (d : Partition) (fuel : ℕ) (path : CString) : Option (OsReturnE × Partition) :=
  (d.ustarSearchFile fuel path).bind fun r =>
    match r with
    | .error err => some (err, d)
    | .ok (b, inode) =>
      let blank :=
        let w := d.writeBlock inode (b.write 0 (List.replicate ustarFilenameMaxLength 0))
        if w.1 ≠ .osNoErr then w else (w.2.flushBlock inode, w.2)
      if ustarToVfsType b.type = .dir then
        (d.ustarGetItemCount fuel path).map fun c =>
          match c with
          | .error err => (err, d)
          | .ok itemCount => if itemCount ≠ 0 then (.osErrDirNotEmpty, d) else blank
      else some blank

/-! ## Renaming -/

/-- The new name is written over the old one, with a terminator behind it. -/
def named (b : UstarBlock) (path : CString) : UstarBlock := b.write 0 (path.chars ++ [0])

/-- Is there a directory that the new path lies in? -/
def hasParent (d : Partition) (fuel : ℕ) (path : CString) : Option Bool :=
  (ustarGetPath path).bind fun shortPath =>
    if shortPath.chars = [] then some true
    else (d.ustarSearchFile fuel shortPath).map fun r =>
      match r with
      | .error _ => false
      | .ok (b, _) => decide (ustarToVfsType b.type = .dir)

/-- The names of a listing. -/
def tableNames (table : List Byte) : ℕ → List CString
  | 0 => []
  | itemCount + 1 => .ofBuffer table :: tableNames (table.drop ((cstr table).length + 1)) itemCount

/-- A name behind a path, in a buffer of the length of a name. -/
def joined (path name : CString) : Option CString :=
  if path.chars.length + name.chars.length + 1 ≤ ustarFilenameMaxLength then
    some ⟨path.chars ++ name.chars, fun h => (List.mem_append.mp h).elim path.noNul name.noNul⟩
  else none

/-- The names in a directory that is renamed, if they can be renamed too. -/
def directoryNames (kmalloc : ℕ → Option (List Byte)) (d : Partition) (fuel : ℕ) (oldPath newPath : CString) :
    Option (Except OsReturnE (List CString)) :=
  (d.ustarOpenFile fuel oldPath).bind fun v =>
    match v with
    | .error err => some (.error err)
    | .ok v =>
      (d.ustarGetItemCount fuel oldPath).bind fun c =>
        match c with
        | .error err => some (.error err)
        | .ok itemCount =>
          (d.ustarListDirectory kmalloc fuel v (kmalloc (itemCount * (ustarFilenameMaxLength + 1)))).map fun l =>
            let names := tableNames l.buffer l.itemCount
            if l.err ≠ .osNoErr then .error l.err
            else if oldPath.chars.length < newPath.chars.length ∧
                ∃ name ∈ names, ustarFilenameMaxLength < newPath.chars.length + name.chars.length then
              .error .osErrNameTooLong
            else .ok names

/-- `ustar_rename_file` -/
def ustarRenameFile (kmalloc : ℕ → Option (List Byte)) :
    ℕ → Partition → CString → CString → Option (OsReturnE × Partition)
  | 0, _, _, _ => none
  | fuel + 1, d, oldPath, newPath =>
    if ustarFilenameMaxLength < newPath.chars.length then some (.osErrFileNotFound, d)
    else
      (d.hasParent fuel newPath).bind fun parent =>
        if parent = false then some (.osErrFileNotFound, d)
        else
          (d.ustarSearchFile fuel oldPath).bind fun r =>
            match r with
            | .error err => some (err, d)
            | .ok (b, inode) =>
              if ustarToVfsType b.type = .dir then
                if newPath.chars.getLastD slash ≠ slash then some (.osErrFileNotFound, d)
                else
                  (d.directoryNames kmalloc fuel oldPath newPath).bind fun names =>
                    match names with
                    | .error err => some (err, d)
                    | .ok names =>
                      let w := d.writeBlock inode (named b newPath)
                      if w.1 ≠ .osNoErr then some w
                      else
                        (names.foldlM (fun d name =>
                          (joined oldPath name).bind fun oldName =>
                            (joined newPath name).bind fun newName =>
                              (ustarRenameFile kmalloc fuel d oldName newName).bind fun m =>
                                if m.1 ≠ .osNoErr then none else some m.2) w.2).map fun d =>
                          (d.flushBlock inode, d)
              else
                let w := d.writeBlock inode (named b newPath)
                if w.1 ≠ .osNoErr then some w else some (w.2.flushBlock inode, w.2)

end Partition
end UtkKernel.Fs
