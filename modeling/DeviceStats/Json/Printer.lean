import DeviceStats.Json.Value

/-!
# Json/Printer — values as text

`Value.text` writes a value without blanks, `Value.pretty` with one entry a line and two blanks for
each level.  Both keep the order of names.  Text is quoted by `quoteChars`, which escapes
quotes, backslashes and the characters below `U+0020` and nothing else.
-/

namespace DeviceStats.Json

/-! ## Text -/

def hexDigit (n : Nat) : Char := if n < 10 then Char.ofNat (48 + n) else Char.ofNat (87 + n)

/-- A character inside quotes. -/
def escapeChar (c : Char) : List Char :=
  if c = '"' then ['\\', '"']
  else if c = '\\' then ['\\', '\\']
  else if c = '\n' then ['\\', 'n']
  else if c = '\t' then ['\\', 't']
  else if c = '\r' then ['\\', 'r']
  else if c = '\x08' then ['\\', 'b']
  else if c = '\x0C' then ['\\', 'f']
  else if c.toNat < 0x20 then
    ['\\', 'u', '0', '0', hexDigit (c.toNat / 16), hexDigit (c.toNat % 16)]
  else [c]

/-- A text in quotes. -/
def quoteChars (cs : List Char) : List Char := '"' :: (cs.flatMap escapeChar ++ ['"'])

namespace Value

/-! ## Without blanks -/

mutual

/-- The value as characters without blanks. -/
def chars : Value → List Char
  | .null => "null".toList
  | .bool true => "true".toList
  | .bool false => "false".toList
  | .num n => n.text.toList
  | .str s => quoteChars s.toList
  | .arr items => '[' :: (charsItems items ++ [']'])
  | .obj fields => '\x7b' :: (charsFields fields ++ ['\x7d'])

def charsItems : List Value → List Char
  | [] => []
  | [v] => v.chars
  | v :: vs => v.chars ++ ',' :: charsItems vs

def charsFields : List (String × Value) → List Char
  | [] => []
  | [(k, v)] => quoteChars k.toList ++ ':' :: v.chars
  | (k, v) :: rest => quoteChars k.toList ++ ':' :: (v.chars ++ ',' :: charsFields rest)

end

/-- The value as text without blanks. -/
def text (v : Value) : String := String.ofList v.chars

/-! ## One entry a line -/

/-- A new line at a level. -/
def newline (level : Nat) : List Char := '\n' :: List.replicate (2 * level) ' '

mutual

def prettyChars (level : Nat) : Value → List Char
  | .arr (v :: vs) =>
    '[' :: (prettyItems (level + 1) (v :: vs) ++ (newline level ++ [']']))
  | .obj (kv :: rest) =>
    '\x7b' :: (prettyFields (level + 1) (kv :: rest) ++ (newline level ++ ['\x7d']))
  | .null => "null".toList
  | .bool true => "true".toList
  | .bool false => "false".toList
  | .num n => n.text.toList
  | .str s => quoteChars s.toList
  | .arr [] => ['[', ']']
  | .obj [] => ['\x7b', '\x7d']

def prettyItems (level : Nat) : List Value → List Char
  | [] => []
  | [v] => newline level ++ prettyChars level v
  | v :: vs => newline level ++ (prettyChars level v ++ ',' :: prettyItems level vs)

def prettyFields (level : Nat) : List (String × Value) → List Char
  | [] => []
  | [(k, v)] => newline level ++ (quoteChars k.toList ++ ':' :: ' ' :: prettyChars level v)
  | (k, v) :: rest =>
    newline level ++
      (quoteChars k.toList ++ ':' :: ' ' :: (prettyChars level v ++ ',' :: prettyFields level rest))

end

/-- The value as text with one entry a line. -/
def pretty (v : Value) : String := String.ofList (prettyChars 0 v)

end Value

end DeviceStats.Json
