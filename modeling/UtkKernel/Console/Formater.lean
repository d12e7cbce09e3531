import UtkKernel.Foundations.CStrings

/-! # Formatted output (`io/src/kernel_output.c`, `lib/libc/src/itoa.c`, `lib/libc/src/uitoa.c`)

The formatter goes through the characters of a format, before its NUL, with the modifiers of a sequence as a state. The
arguments are the words of 32 bits on the stack, the low one first where an argument has two; `none` is where there are
none left. What is printed is a list of characters. -/

namespace UtkKernel.Console
open Foundations
set_option autoImplicit false

/-! ## Integers -/

/-- `hex_table` -/
def hexTable (d : ℕ) : Byte := if d < 10 then BitVec.ofNat 8 (0x30 + d) else BitVec.ofNat 8 (0x41 + (d - 10))

/-- The digits in `tmp`, the lowest one first. -/
def uitoaTmp : ℕ → ℕ → ℕ → List Byte
  | 0, _, _ => []
  | fuel + 1, i, base => if i ≠ 0 then hexTable (i % base) :: uitoaTmp fuel (i / base) base else []

/-- `uitoa` of a number of 64 bits, which has at most 64 digits. -/
def uitoa (i base : ℕ) : List Byte := if i = 0 ∨ base > 16 then [0x30] else (uitoaTmp 64 i base).reverse

/-- `itoa`, into an empty buffer. -/
def itoa (i : BitVec 64) (base : ℕ) : List Byte :=
  if base > 16 then []
  else if base = 10 ∧ i.toInt < 0 then 0x2D :: uitoa (-i).toNat base
  else uitoa i.toNat base

def toupper (string : List Byte) : List Byte := string.map fun c => if c > 96 ∧ c < 123 then c - 32 else c

def tolower (string : List Byte) : List Byte := string.map fun c => if c > 64 ∧ c < 91 then c + 32 else c

/-! ## Sequences -/

/-- The modifiers of a sequence; the length and the padding are numbers of 8 bits. -/
structure FmtMods where
  modifier : Bool
  lengthMod : ℕ
  paddingMod : ℕ
  upperMod : Bool
  padCharMod : Byte
  deriving DecidableEq, Repr

def FmtMods.reset : FmtMods := ⟨false, 4, 0, false, 0x20⟩

/-- `GET_SEQ_VAL` -/
def getSeqVal (lengthMod : ℕ) (args : List (BitVec 32)) : Option (ℕ × List (BitVec 32)) :=
  let lengthMod := if lengthMod > 8 then 8 else lengthMod
  if lengthMod = 8 then
    match args with
    | low :: high :: rest => some (low.toNat + 2 ^ 32 * high.toNat, rest)
    | _ => none
  else
    match args with
    | word :: rest =>
      some (if lengthMod = 1 then word.toNat % 2 ^ 8 else if lengthMod = 2 then word.toNat % 2 ^ 16 else word.toNat, rest)
    | [] => none

/-- `PAD_SEQ` and the sequence. -/
def padSeq (m : FmtMods) (seq : List Byte) : List Byte := List.replicate (m.paddingMod - seq.length) m.padCharMod ++ seq

/-- A hexadecimal sequence in the case that is asked for. -/
def hexSeq (m : FmtMods) (val : ℕ) : List Byte :=
  padSeq m (if m.upperMod then toupper (uitoa val 16) else tolower (uitoa val 16))

/-- A digit of the padding. -/
def padDigit (m : FmtMods) (d : ℕ) : FmtMods :=
  if d = 0 ∧ m.paddingMod = 0 then { m with padCharMod := 0x30 }
  else { m with paddingMod := (m.paddingMod * 10 + d) % 2 ^ 8 }

/-- What a character in a sequence does: it is a modifier, or it ends the sequence with what is printed. -/
inductive FmtStep where
  | mods (m : FmtMods)
  | print (text : List Byte) (args : List (BitVec 32))

/-- `switch(str[pos])`: `strAt` gives the string at an address. -/
def formatChar (strAt : BitVec 32 → List Byte) (m : FmtMods) (c : Byte) (args : List (BitVec 32)) : Option FmtStep :=
  if c = 0x68 then some (.mods { m with lengthMod := m.lengthMod / 2 })
  else if c = 0x6C then some (.mods { m with lengthMod := m.lengthMod * 2 % 2 ^ 8 })
  else if c = 0x73 then
    match args with
    | word :: rest => some (.print (strAt word) rest)
    | [] => none
  else if c = 0x64 ∨ c = 0x69 then
    (getSeqVal m.lengthMod args).map fun r => .print (padSeq m (itoa (BitVec.ofNat 64 r.1) 10)) r.2
  else if c = 0x75 then (getSeqVal m.lengthMod args).map fun r => .print (padSeq m (uitoa r.1 10)) r.2
  else if c = 0x58 then (getSeqVal m.lengthMod args).map fun r => .print (hexSeq { m with upperMod := true } r.1) r.2
  else if c = 0x78 then (getSeqVal m.lengthMod args).map fun r => .print (hexSeq m r.1) r.2
  else if c = 0x50 ∨ c = 0x70 then
    let m := { m with upperMod := if c = 0x50 then true else m.upperMod, paddingMod := 8, padCharMod := 0x30, lengthMod := 4 }
    (getSeqVal m.lengthMod args).map fun r => .print (hexSeq m r.1) r.2
  else if c = 0x63 then (getSeqVal 1 args).map fun r => .print [BitVec.ofNat 8 r.1] r.2
  else if c ≥ 0x30 ∧ c ≤ 0x39 then some (.mods (padDigit m (c.toNat - 0x30)))
  else some (.mods m)

/-- `formater`: what is printed and the arguments that are left. -/
def formater (strAt : BitVec 32 → List Byte) : FmtMods → List Byte → List (BitVec 32) →
    Option (List Byte × List (BitVec 32))
  | _, [], args => some ([], args)
  | m, c :: str, args =>
    if c = 0x25 then
      if m.modifier then (formater strAt .reset str args).map fun r => (c :: r.1, r.2)
      else formater strAt { m with modifier := true } str args
    else if m.modifier then
      match formatChar strAt m c args with
      | none => none
      | some (.mods m) => formater strAt m str args
      | some (.print text args) => (formater strAt .reset str args).map fun r => (text ++ r.1, r.2)
    else (formater strAt .reset str args).map fun r => (c :: r.1, r.2)

end UtkKernel.Console
