import LineScript.Calendar
import LineScript.Digest.Basic
import LineScript.Digest.Crc32
import LineScript.Value.Convert

/-!
# Zip archives

An archive is the records of its members, one after the other, then a directory of them, then a record that
tells where the directory is. Members are stored as they are.
-/

namespace LineScript.Zip

open Text Digest

structure Member where
  name : List Char
  content : Bytes
  mode : Nat
  /-- When the file was changed last, in seconds since 1970. -/
  modified : Int

/-! ### Writing -/

/-- Names beyond the first 128 characters are marked. -/
def Member.flags (m : Member) : Nat := if m.name.all fun c => c.toNat < 128 then 0 else 0x800

def Member.nameBytes (m : Member) : Bytes := encode m.name

/-- The time of day in steps of two seconds. -/
def Member.timeField (m : Member) : Nat :=
  let t := (Calendar.Time.ofUnix m.modified).seconds
  t / 3600 * 2048 + t / 60 % 60 * 32 + t % 60 / 2

/-- The date, with years from 1980 on. -/
def Member.dateField (m : Member) : Nat :=
  let d := Calendar.ofDays (Calendar.Time.ofUnix m.modified).days
  (d.year - 1980).toNat * 512 + d.month * 32 + d.day

/-- The fields that both records of a member have. -/
def Member.fields (m : Member) : Bytes :=
  littleEndian m.flags 2 ++ littleEndian 0 2 ++ littleEndian m.timeField 2 ++ littleEndian m.dateField 2 ++
    littleEndian (Crc32.checksum m.content).toNat 4 ++ littleEndian m.content.length 4 ++
    littleEndian m.content.length 4 ++ littleEndian m.nameBytes.length 2 ++ littleEndian 0 2

def memberMark : Bytes := [0x50, 0x4b, 3, 4]

def directoryMark : Bytes := [0x50, 0x4b, 1, 2]

def endMark : Bytes := [0x50, 0x4b, 5, 6]

/-- The version of the format that is needed. -/
def formatVersion : UInt8 := 20

/-- The record of a member with its content. -/
def Member.record (m : Member) : Bytes :=
  memberMark ++ [formatVersion, 0] ++ m.fields ++ m.nameBytes ++ m.content

/-- The line of the directory for a member whose record is at `offset`. -/
def Member.directoryLine (m : Member) (offset : Nat) : Bytes :=
  directoryMark ++ [formatVersion, 3, formatVersion, 0] ++ m.fields ++ littleEndian 0 6 ++
    littleEndian ((0o100000 + m.mode) * 65536) 4 ++ littleEndian offset 4 ++ m.nameBytes

def records (ms : List Member) : Bytes := ms.flatMap Member.record

def directory (offset : Nat) : List Member → Bytes
  | [] => []
  | m :: ms => m.directoryLine offset ++ directory (offset + m.record.length) ms

def write (ms : List Member) : Bytes :=
  let body := records ms
  let dir := directory 0 ms
  body ++ dir ++ endMark ++ littleEndian 0 4 ++ littleEndian ms.length 2 ++ littleEndian ms.length 2 ++
    littleEndian dir.length 4 ++ littleEndian body.length 4 ++ littleEndian 0 2

/-! ### Reading -/

/-- What a directory says about a member. -/
structure Entry where
  name : List Char
  nameBytes : Bytes
  method : Nat
  crc : Nat
  stored : Nat
  offset : Nat

def bad {α : Type} (text : String) : Except Fault α := .error (.primitive .archive text)

def number (bs : Bytes) (start width : Nat) : Nat := ofLittleEndian ((bs.drop start).take width)

/-- The 128 characters that bytes from 128 on stand for in names that are not marked. -/
def oldNames : List Char :=
  ("ÇüéâäàåçêëèïîìÄÅÉæÆôöòûùÿÖÜ¢£¥₧ƒáíóúñÑªº¿⌐¬½¼¡«»░▒▓│┤╡╢╖╕╣║╗╝╜╛┐└┴┬├─┼╞╟╚╔╩╦╠═╬╧╨╤╥╙╘╒╓╫╪┘┌" ++
    "█▄▌▐▀αßΓπΣσµτΦΘΩδ∞φε∩≡±≥≤⌠⌡÷≈°∙·√ⁿ²■\u00a0").toList

def nameOf (flags : Nat) (bs : Bytes) : Except Fault (List Char) :=
  if flags / 0x800 % 2 = 1 then Value.decodeUtf8 bs
  else .ok (bs.map fun b => if b.toNat < 128 then Char.ofNat b.toNat else oldNames.getD (b.toNat - 128) ' ')

def endSize : Nat := 22

/-- Positions at which the last record may start, the last first. -/
def endStarts (bs : Bytes) : Option Nat :=
  let starts := (List.range (bs.length + 1 - endMark.length)).filter fun i =>
    (bs.drop i).take endMark.length = endMark
  starts.getLast?.filter fun i => i + endSize ≤ bs.length

def findEnd (bs : Bytes) : Option Nat := if bs.length < endSize then none else endStarts bs

def lineSize : Nat := 46

/-- Reads the lines of a directory. `shift` is how far the archive starts behind the start of the file. -/
def readDirectory (shift : Int) : Nat → Bytes → Except Fault (List Entry)
  | 0, _ => .ok []
  | fuel + 1, bs => do
    if bs.isEmpty then return []
    if bs.length < lineSize then bad "Truncated central directory"
    if bs.take 4 ≠ directoryMark then bad "Bad magic number for central directory"
    let nameSize := number bs 28 2
    let nameBytes := (bs.drop lineSize).take nameSize
    let name ← nameOf (number bs 8 2) nameBytes
    let entry : Entry :=
      { name := name.takeWhile (· ≠ '\x00'), nameBytes, method := number bs 10 2, crc := number bs 16 4,
        stored := number bs 20 4, offset := ((number bs 42 4 : Int) + shift).toNat }
    let rest := bs.drop (lineSize + nameSize + number bs 30 2 + number bs 32 2)
    return entry :: (← readDirectory shift fuel rest)

def entries (bs : Bytes) : Except Fault (List Entry) := do
  match findEnd bs with
  | none => bad "File is not a zip file"
  | some position =>
    let record := bs.drop position
    let size := number record 12 4
    let offset := number record 16 4
    if position < size then bad "Bad offset for central directory"
    let start := position - size
    readDirectory ((start : Int) - offset) (size + 1) ((bs.drop start).take size)

def recordSize : Nat := 30

def content (bs : Bytes) (e : Entry) : Except Fault Bytes := do
  let record := bs.drop e.offset
  if record.length < recordSize then bad "Truncated file header"
  if record.take 4 ≠ memberMark then bad "Bad magic number for file header"
  let nameSize := number record 26 2
  let nameBytes := (record.drop recordSize).take nameSize
  if nameBytes ≠ e.nameBytes then
    bad ("File name in directory " ++ Fault.quote (String.ofList e.name) ++ " and header " ++
      String.ofList (quotedBytes nameBytes) ++ " differ.")
  if e.method ≠ 0 then
    throw (.primitive .unsupported "That compression method is not supported")
  let data := (record.drop (recordSize + nameSize + number record 28 2)).take e.stored
  if (Crc32.checksum data).toNat ≠ e.crc then
    bad ("Bad CRC-32 for file " ++ Fault.quote (String.ofList e.name))
  return data

/-- Names and contents of all members; of members with one name the last one counts. -/
def read (bs : Bytes) : Except Fault (List (List Char × Bytes)) := do
  let es ← entries bs
  es.mapM fun e => do
    let last := (es.reverse.find? (·.name = e.name)).getD e
    return (e.name, ← content bs last)

end LineScript.Zip
