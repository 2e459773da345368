import Dana.Json.Basic

/-!
# Writing JSON text

A value is laid out over lines, with two blanks for each level. An empty array
or object takes no line of its own.
-/

namespace Dana

namespace Json

/-- Lower-case hexadecimal digit of a number below 16. -/
def hexDigit (n : Nat) : Char :=
  if n < 10 then Char.ofNat (48 + n) else Char.ofNat (87 + n)

/-- A character inside a string literal. -/
def escape (c : Char) : List Char :=
  if c = '"' then ['\\', '"']
  else if c = '\\' then ['\\', '\\']
  else if c = '\x08' then ['\\', 'b']
  else if c = '\x0c' then ['\\', 'f']
  else if c = '\n' then ['\\', 'n']
  else if c = '\r' then ['\\', 'r']
  else if c = '\t' then ['\\', 't']
  else if c.toNat < 32 then ['\\', 'u', '0', '0', hexDigit (c.toNat / 16), hexDigit (c.toNat % 16)]
  else [c]

/-- A string literal. -/
def quote (s : String) : List Char :=
  '"' :: s.toList.flatMap escape ++ ['"']

def digits (n : Nat) : List Char :=
  Nat.toDigits 10 n

def intChars : Int → List Char
  | .ofNat n => digits n
  | .negSucc n => '-' :: digits (n + 1)

/-- A line break and the indentation of level `n`. -/
def newline (n : Nat) : List Char :=
  '\n' :: List.replicate (2 * n) ' '

mutual

def layout (level : Nat) : Json → List Char
  | .null => "null".toList
  | .bool true => "true".toList
  | .bool false => "false".toList
  | .int n => intChars n
  | .real literal => literal.toList
  | .str s => quote s
  | .arr [] => ['[', ']']
  | .arr (j :: js) =>
    '[' :: (newline (level + 1) ++ layout (level + 1) j ++ layoutItems (level + 1) js
      ++ newline level ++ [']'])
  | .obj [] => ['\x7b', '\x7d']
  | .obj ((name, j) :: ms) =>
    '\x7b' :: (newline (level + 1) ++ quote name ++ [':', ' '] ++ layout (level + 1) j
      ++ layoutMembers (level + 1) ms ++ newline level ++ ['\x7d'])
  | .garbled => "\"\\ud800\"".toList

def layoutItems (level : Nat) : List Json → List Char
  | [] => []
  | j :: js => ',' :: (newline level ++ layout level j ++ layoutItems level js)

def layoutMembers (level : Nat) : List (String × Json) → List Char
  | [] => []
  | (name, j) :: ms =>
    ',' :: (newline level ++ quote name ++ [':', ' '] ++ layout level j ++ layoutMembers level ms)

end

def render (j : Json) : String :=
  String.ofList (layout 0 j)

end Json

end Dana
