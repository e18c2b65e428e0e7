/-
BrokerExam/Report/HexDump.lean

Bytes in rows of sixteen, in hexadecimal and as characters, and a marker under a
range of them.

    Hex (bytes 0-11)                                | ASCII
    ------------------------------------------------+------------------
    48 65 6c 6c 6f 20 57 6f 72 6c 64 21             | Hello World!
                 ^--------^                               ^--^

A dump may be a window on a longer byte string; `start` is then the index of its
first byte there.
-/
import BrokerExam.Text.Hex
import BrokerExam.Fault

namespace BrokerExam

structure HexDump where
  bytes : Bytes
  start : Nat := 0
  deriving DecidableEq, Repr

namespace HexDump

def bytesPerRow : Nat := 16

/-- Two digits and a blank for each byte. -/
def hexWidth : Nat := bytesPerRow * 3

/-- The column of the first character: the hexadecimal digits and a bar. -/
def asciiColumn : Nat := hexWidth + 2

/-- How many bytes are shown before the one a window is for. -/
def contextBefore : Nat := 5

/-- One row, beginning a few bytes before the index `offset` of this dump. -/
def windowAt (d : HexDump) (offset : Nat) : HexDump :=
  let start := min (offset - contextBefore) d.bytes.length
  { bytes := (d.bytes.drop start).take bytesPerRow, start := d.start + start }

/-- The byte as a character, if it is a printable one of ASCII. -/
def character (b : UInt8) : Char :=
  if 32 ≤ b ∧ b ≤ 126 then Char.ofNat b.toNat else '.'

/-- One row, filled up with blanks. -/
def row (bs : Bytes) : List Char :=
  let hex := bs.flatMap fun b => Hex.digits b ++ [' ']
  hex ++ List.replicate (hexWidth - hex.length) ' ' ++ ['|', ' '] ++ bs.map character

/-- At most `fuel` rows. -/
def rowsOf : (fuel : Nat) → Bytes → List (List Char)
  | 0, _ => []
  | _, [] => []
  | fuel + 1, bs => row (bs.take bytesPerRow) :: rowsOf fuel (bs.drop bytesPerRow)

/-- The rows of all bytes; there are at most as many rows as bytes. -/
def rows (d : HexDump) : List (List Char) := rowsOf d.bytes.length d.bytes

def format (d : HexDump) : String := "\n".intercalate (d.rows.map String.ofList)

/-- The text, filled up with blanks to a width. -/
def padded (text : String) (width : Nat) : String :=
  text ++ String.ofList (List.replicate (width - text.length) ' ')

def formatWithHeading (d : HexDump) : String :=
  let heading := s!"Hex (bytes {d.start}-{d.start + d.bytes.length - 1})"
  let rule (n : Nat) := String.ofList (List.replicate n '-')
  padded heading hexWidth ++ "| ASCII\n" ++ rule hexWidth ++ "+" ++ rule (bytesPerRow + 2) ++ "\n"
    ++ d.format

/-- The line, filled up to the column `first`, with a marker from there to the column `last`. -/
def mark (line : List Char) (first last : Nat) : List Char :=
  let line := line ++ List.replicate (first - line.length) ' ' ++ ['^']
  if first < last then line ++ List.replicate (last - first - 1) '-' ++ ['^'] else line

/-- A window for the range from `first` to `last`, both included, and a marker under it in both
columns.  A range that goes beyond the window is cut off at its last byte. -/
def formatWithRange (d : HexDump) (first last : Nat) : Except Fault String :=
  let window := d.windowAt first
  if first < window.start then .error .subtractOverflow
  else
    let low := first - window.start
    let high := max low (min (max last first - window.start) (window.bytes.length - 1))
    let pointer := mark (mark [] (low * 3 + 1) (high * 3 + 1)) (asciiColumn + low)
      (asciiColumn + high)
    .ok (window.formatWithHeading ++ "\n" ++ String.ofList pointer)

/-- As `formatWithRange`, for a single byte. -/
def formatWithOffset (d : HexDump) (offset : Nat) : Except Fault String :=
  d.formatWithRange offset offset

end HexDump
end BrokerExam
