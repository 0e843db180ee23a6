import DocMapper.Json.Basic
import DocMapper.Number.Shortest
import DocMapper.Text.Hex

/-! # The text of a value

Values are written as compact JSON: no blanks, the entries of an object in their order, and in
texts only quotes, backslashes and control characters escaped. -/

namespace DocMapper.Json

/-- Floating-point numbers are positional from 0.00001 up to, but without, 1e+16. -/
def numberLayout : Layout := ⟨-5, 15⟩

def writeNumber : Number → String
  | .int i => toString i
  | .float x => x.write numberLayout

/-- A character as it stands inside a quoted text. -/
def escapeChar (c : Char) : List Char :=
  if c == '"' then ['\\', '"']
  else if c == '\\' then ['\\', '\\']
  else if c == '\x08' then ['\\', 'b']
  else if c == '\x0c' then ['\\', 'f']
  else if c == '\n' then ['\\', 'n']
  else if c == '\r' then ['\\', 'r']
  else if c == '\t' then ['\\', 't']
  else if c.toNat < 0x20 then '\\' :: 'u' :: Text.Hex.write 4 c.toNat
  else [c]

def quote (s : String) : String :=
  String.ofList ('"' :: s.toList.flatMap escapeChar ++ ['"'])

mutual

def write : Json → String
  | .null => "null"
  | .bool true => "true"
  | .bool false => "false"
  | .number n => writeNumber n
  | .string s => quote s
  | .array items => "[" ++ writeItems items ++ "]"
  | .object fields => "\x7b" ++ writeEntries fields ++ "\x7d"

def writeItems : List Json → String
  | [] => ""
  | [v] => v.write
  | v :: rest => v.write ++ "," ++ writeItems rest

def writeEntries : List (String × Json) → String
  | [] => ""
  | [(k, v)] => quote k ++ ":" ++ v.write
  | (k, v) :: rest => quote k ++ ":" ++ v.write ++ "," ++ writeEntries rest

end

end DocMapper.Json
