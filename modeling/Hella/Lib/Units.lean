import Mathlib.Data.List.DropRight
import Mathlib.Data.List.Basic

/-!
# Texts as UTF-16 units

Java counts and cuts texts by their `char`s, which are UTF-16 units. A cut can leave half
of a pair, which no character stands for.
-/
namespace Units

/-- The units of a character. -/
def ofChar (c : Char) : List UInt16 :=
  if c.toNat < 0x10000 then [c.toNat.toUInt16]
  else [(0xd800 + (c.toNat - 0x10000) / 0x400).toUInt16, (0xdc00 + (c.toNat - 0x10000) % 0x400).toUInt16]

def ofString (text : String) : List UInt16 := text.toList.flatMap ofChar

def isHigh (u : UInt16) : Bool := 0xd800 ≤ u.toNat && u.toNat < 0xdc00

def isLow (u : UInt16) : Bool := 0xdc00 ≤ u.toNat && u.toNat < 0xe000

/-- The character of a unit by itself; half of a pair is written as a question mark. -/
def char (u : UInt16) : Char := if isHigh u || isLow u then '?' else Char.ofNat u.toNat

def chars : List UInt16 → List Char
  | [] => []
  | [u] => [char u]
  | u :: v :: rest =>
    if isHigh u && isLow v then Char.ofNat (0x10000 + (u.toNat - 0xd800) * 0x400 + (v.toNat - 0xdc00)) :: chars rest
    else char u :: chars (v :: rest)

def toString (units : List UInt16) : String := String.ofList (chars units)

/-- What `trim` takes off: everything up to the space. -/
def isBlank (u : UInt16) : Bool := decide (u.toNat ≤ 0x20)

/-- `String.trim`. -/
def trim (units : List UInt16) : List UInt16 := (units.dropWhile isBlank).rdropWhile isBlank

end Units
