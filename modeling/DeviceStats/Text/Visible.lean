import DeviceStats.Unicode.Category
import DeviceStats.Unicode.Property

/-!
# Text/Visible — texts shown in messages

A text is shown in quotes, with escapes in place of characters that do not show by themselves:
controls, formats, separators, unassigned code points and marks that merge with their neighbour.
-/

namespace DeviceStats.Text

open Unicode (CharSet Category.unionAll Category.separator Category.other Property.graphemeExtend)

/-- The characters that do not show by themselves. -/
def invisible : CharSet := .union (Category.unionAll [Category.separator, Category.other])
  Property.graphemeExtend

/-- Whether a character is shown as it is.  Of the ASCII characters the blank and all after it but
the last are. -/
def isVisible (c : Char) : Bool :=
  if c.toNat < 0x80 then 0x20 ≤ c.toNat && c.toNat < 0x7F else !invisible.mem c

/-- The hexadecimal digits of a number, without leading zeros. -/
def hexDigits (n : Nat) : List Char := Nat.toDigits 16 n

/-- How a character is shown inside quotes. -/
def showChar (c : Char) : List Char :=
  if c = '\x00' then ['\\', '0']
  else if c = '\t' then ['\\', 't']
  else if c = '\n' then ['\\', 'n']
  else if c = '\r' then ['\\', 'r']
  else if c = '"' then ['\\', '"']
  else if c = '\\' then ['\\', '\\']
  else if isVisible c then [c]
  else ['\\', 'u', '\x7b'] ++ hexDigits c.toNat ++ ['\x7d']

/-- A text in quotes, ready for a message. -/
def shown (s : String) : String := String.ofList ('"' :: s.toList.flatMap showChar ++ ['"'])

end DeviceStats.Text
