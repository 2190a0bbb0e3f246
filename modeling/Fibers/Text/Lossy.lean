/-!
Reading bytes as UTF-8 without ever failing. A sequence that is not well
formed becomes one replacement character, and reading goes on at the first
byte that could not continue it.
-/

namespace Fibers.Text

/-- How far a character has been read. -/
inductive Reading
  | start
  /-- `missing` bytes are missing, the next of them between `low` and `high`. -/
  | inside (missing : Nat) (code : Nat) (low high : UInt8)

def replacement : Char := '\uFFFD'

/-- The first byte of a character. -/
def begin (byte : UInt8) : List Char × Reading :=
  let n := byte.toNat
  if byte < 0x80 then ([Char.ofNat n], .start)
  else if byte < 0xC2 then ([replacement], .start)
  else if byte < 0xE0 then ([], .inside 1 (n - 0xC0) 0x80 0xBF)
  else if byte = 0xE0 then ([], .inside 2 (n - 0xE0) 0xA0 0xBF)
  else if byte = 0xED then ([], .inside 2 (n - 0xE0) 0x80 0x9F)
  else if byte < 0xF0 then ([], .inside 2 (n - 0xE0) 0x80 0xBF)
  else if byte = 0xF0 then ([], .inside 3 (n - 0xF0) 0x90 0xBF)
  else if byte < 0xF4 then ([], .inside 3 (n - 0xF0) 0x80 0xBF)
  else if byte = 0xF4 then ([], .inside 3 (n - 0xF0) 0x80 0x8F)
  else ([replacement], .start)

def advance : Reading → UInt8 → List Char × Reading
  | .start, byte => begin byte
  | .inside missing code low high, byte =>
    if low ≤ byte ∧ byte ≤ high then
      let code := code * 64 + byte.toNat % 64
      if missing = 1 then ([Char.ofNat code], .start)
      else ([], .inside (missing - 1) code 0x80 0xBF)
    else
      let (chars, reading) := begin byte
      (replacement :: chars, reading)

def readFrom : Reading → List UInt8 → List Char
  | .start, [] => []
  | .inside .., [] => [replacement]
  | reading, byte :: rest =>
    let (chars, next) := advance reading byte
    chars ++ readFrom next rest

/-- The text that a sequence of bytes stands for. -/
def ofBytes (bytes : List UInt8) : String := String.ofList (readFrom .start bytes)

/-- A text that ends at its first zero byte. -/
def ofTerminated (bytes : List UInt8) : String := ofBytes (bytes.takeWhile (· ≠ 0))

/-- A text without zero characters: each becomes a space. -/
def withoutNul (text : String) : String :=
  text.map fun c => if c = Char.ofNat 0 then ' ' else c

end Fibers.Text
