import BoardPlotter.Decimal.Layout
import BoardPlotter.Text.Quoted

/-!
# Values

What configuration files hold and what log records carry: a tree of plain data.
Fields of a map keep their order. A value is written in the spelling of
messages or in the one of JSON; lists and maps look alike in both.
-/

namespace BoardPlotter

inductive Value where
  | null
  | bool (b : Bool)
  | int (n : Int)
  | float (x : Float)
  | text (s : String)
  | list (xs : List Value)
  | map (fields : List (String × Value))
  deriving Inhabited

/-- How the leaves of a value are written. -/
structure Spelling where
  null : String
  yes : String
  no : String
  number : Float → String
  quote : String → String

namespace Value

mutual

def write (s : Spelling) : Value → String
  | null => s.null
  | bool b => if b then s.yes else s.no
  | int n => toString n
  | float x => s.number x
  | text t => s.quote t
  | list xs => "[" ++ ", ".intercalate (writeAll s xs) ++ "]"
  | map fields => "\x7b" ++ ", ".intercalate (writeFields s fields) ++ "\x7d"

def writeAll (s : Spelling) : List Value → List String
  | [] => []
  | x :: xs => write s x :: writeAll s xs

def writeFields (s : Spelling) : List (String × Value) → List String
  | [] => []
  | (key, x) :: fields => (s.quote key ++ ": " ++ write s x) :: writeFields s fields

end

end Value

namespace Spelling

def message : Spelling := ⟨"None", "True", "False", Double.text, Text.quoted⟩

/-- Messages of ASCII characters alone. -/
def messageAscii : Spelling := ⟨"None", "True", "False", Double.text, Text.quotedAscii⟩

/-- Numbers that are not finite have names although the format has none. -/
def jsonNumber (x : Float) : String :=
  if x.isNaN then "NaN"
  else if x.isInf then (if x < 0.0 then "-Infinity" else "Infinity")
  else Double.text x

/-- A character of a JSON string; everything but printable ASCII is escaped, by
its number in UTF-16. -/
def jsonEscape (c : Char) : String :=
  let n := c.toNat
  let unit (u : Nat) := "\\u" ++ Text.hexDigits 4 u
  if c == '"' || c == '\\' then String.ofList ['\\', c]
  else if c == '\n' then "\\n"
  else if c == '\r' then "\\r"
  else if c == '\t' then "\\t"
  else if n = 8 then "\\b"
  else if n = 12 then "\\f"
  else if 32 ≤ n ∧ n < 127 then c.toString
  else if n < 0x10000 then unit n
  else unit (0xd800 + (n - 0x10000) / 0x400) ++ unit (0xdc00 + (n - 0x10000) % 0x400)

def jsonQuote (s : String) : String := "\"" ++ String.join (s.toList.map jsonEscape) ++ "\""

def json : Spelling := ⟨"null", "true", "false", jsonNumber, jsonQuote⟩

end Spelling

namespace Value

/-- The value as it stands in messages, texts in quotes. -/
def shown (v : Value) : String := v.write .message

/-- The value as a message, a text as it is. -/
def plain : Value → String
  | text s => s
  | v => v.shown

/-- The kind of a value in messages. -/
def kind : Value → String
  | null => "NoneType"
  | bool _ => "bool"
  | int _ => "int"
  | float _ => "float"
  | text _ => "str"
  | list _ => "list"
  | map _ => "dict"

/-- Neither null, false, zero nor empty. -/
def isPresent : Value → Bool
  | null => false
  | bool b => b
  | int n => n != 0
  | float x => !(x == 0.0)
  | text s => s != ""
  | list xs => !xs.isEmpty
  | map fields => !fields.isEmpty

end Value

/-- Named values in order. -/
abbrev Fields := List (String × Value)

namespace Fields

/-- Sets a field: one that is there keeps its place. -/
def set (fields : Fields) (key : String) (v : Value) : Fields :=
  if fields.any (·.1 == key) then fields.map fun f => if f.1 == key then (key, v) else f
  else fields ++ [(key, v)]

/-- Sets fields one after the other. -/
def merge (fields more : Fields) : Fields := more.foldl (fun fs f => fs.set f.1 f.2) fields

/-- Takes fields away. -/
def without (fields : Fields) (keys : List String) : Fields :=
  fields.filter fun f => !keys.contains f.1

end Fields

end BoardPlotter
