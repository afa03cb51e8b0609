import BoardPlotter.Text.Printable

/-!
# Quoted text

Text inside messages stands in quotes: single ones, or double ones where it
holds a single quote and no double one. What cannot be printed is escaped.
-/

namespace BoardPlotter.Text

def hexDigits (width n : Nat) : String :=
  let ds := Nat.toDigits 16 n
  String.ofList (List.replicate (width - ds.length) '0' ++ ds)

/-- A character by its number, in two, four or eight hexadecimal digits. -/
def escapeCode (c : Char) : String :=
  let n := c.toNat
  if n < 0x100 then "\\x" ++ hexDigits 2 n
  else if n < 0x10000 then "\\u" ++ hexDigits 4 n
  else "\\U" ++ hexDigits 8 n

/-- One character between quotes `q`. -/
def escape (q c : Char) : String :=
  if c == q || c == '\\' then String.ofList ['\\', c]
  else if c == '\t' then "\\t"
  else if c == '\n' then "\\n"
  else if c == '\r' then "\\r"
  else if isPrintable c then c.toString
  else escapeCode c

def quoteMark (s : String) : Char :=
  if s.contains '\'' && !s.contains '"' then '"' else '\''

def quoted (s : String) : String :=
  let q := quoteMark s
  q.toString ++ String.join (s.toList.map (escape q)) ++ q.toString

/-- Quoted text of ASCII characters alone. -/
def quotedAscii (s : String) : String :=
  String.join ((quoted s).toList.map fun c => if c.toNat < 128 then c.toString else escapeCode c)

end BoardPlotter.Text
