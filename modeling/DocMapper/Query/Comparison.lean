import DocMapper.Error
import DocMapper.Text.Blank
import DocMapper.Text.Case

/-! # Comparisons and directions

The comparisons between a column and a value that a query can spell out, and the directions in which
it can sort. Both are read from texts with blanks around them and in any case. -/

namespace DocMapper

/-- A comparison of a column with one value. -/
inductive Comparison where
  | equal | notEqual | greater | atLeast | less | atMost | like
  deriving DecidableEq

namespace Comparison

def all : List Comparison := [equal, notEqual, greater, atLeast, less, atMost, like]

def symbol : Comparison → String
  | equal => "="
  | notEqual => "!="
  | greater => ">"
  | atLeast => ">="
  | less => "<"
  | atMost => "<="
  | like => "LIKE"

def parse (s : String) : Except QueryFault Comparison :=
  match Text.upper (Text.trim s) with
  | "=" | "==" => .ok equal
  | "!=" | "<>" => .ok notEqual
  | ">" => .ok greater
  | ">=" => .ok atLeast
  | "<" => .ok less
  | "<=" => .ok atMost
  | "LIKE" => .ok like
  | other => .error (.unsupportedComparison other)

end Comparison

/-- A direction of sorting. -/
inductive SortDirection where
  | ascending | descending
  deriving DecidableEq, Inhabited

namespace SortDirection

def parse (s : String) : Except ArgumentFault SortDirection :=
  match Text.lower (Text.trim s) with
  | "asc" | "ascending" | "1" => .ok ascending
  | "desc" | "descending" | "-1" => .ok descending
  | other => .error (.sortDirection other)

/-- The number that stands for a direction in a sort. -/
def toInt : SortDirection → Int
  | ascending => 1
  | descending => -1

def name : SortDirection → String
  | ascending => "asc"
  | descending => "desc"

end SortDirection

end DocMapper
