import BoardPlotter.Files.Writing
import BoardPlotter.Markup.Encoding

/-!
# Character sets of files

Text becomes bytes in a character set with a name. Sets of more than one byte
per character may begin with a mark that tells their order.
-/

namespace BoardPlotter

inductive Charset where
  | utf8 (marked : Bool)
  | utf16 (bigEndian marked : Bool)
  | utf32 (bigEndian marked : Bool)
  | latin1
  | ascii
  | windows1252
  deriving DecidableEq, Repr

/-- Why text does not become bytes. -/
inductive CharsetError where
  | unknown
  | character
  deriving DecidableEq, Repr

namespace Charset

/-- Names in lower case, their marks as underscores. -/
def names : List (String × Charset) :=
  [("utf_8", utf8 false), ("utf8", utf8 false), ("u8", utf8 false), ("utf", utf8 false),
    ("cp65001", utf8 false), ("utf_8_sig", utf8 true), ("utf8_sig", utf8 true),
    ("utf_16", utf16 false true), ("utf16", utf16 false true), ("u16", utf16 false true),
    ("utf_16_le", utf16 false false), ("utf_16le", utf16 false false),
    ("utf_16_be", utf16 true false), ("utf_16be", utf16 true false),
    ("utf_32", utf32 false true), ("utf32", utf32 false true), ("u32", utf32 false true),
    ("utf_32_le", utf32 false false), ("utf_32le", utf32 false false),
    ("utf_32_be", utf32 true false), ("utf_32be", utf32 true false),
    ("latin_1", latin1), ("latin1", latin1), ("latin", latin1), ("l1", latin1), ("8859", latin1),
    ("cp819", latin1), ("iso8859", latin1), ("iso8859_1", latin1), ("iso_8859_1", latin1),
    ("ascii", ascii), ("us_ascii", ascii), ("646", ascii), ("us", ascii),
    ("cp1252", windows1252), ("1252", windows1252), ("windows_1252", windows1252)]

def ofName? (s : String) : Option Charset :=
  let plain := s.toList.map fun c => if c == '-' || c == ' ' || c == '.' then '_' else c.toLower
  names.lookup (String.ofList plain)

/-- A number in bytes, the lowest first unless the highest comes first. -/
def bytesOf (bigEndian : Bool) (count n : Nat) : Bytes :=
  let low := (List.range count).map fun k => (n >>> (8 * k) % 256).toUInt8
  if bigEndian then low.reverse else low

/-- The units of a character in UTF-16. -/
def units (c : Char) : List Nat :=
  let n := c.toNat
  if n < 0x10000 then [n]
  else [0xd800 + (n - 0x10000) / 0x400, 0xdc00 + (n - 0x10000) % 0x400]

/-- The mark that tells the order of bytes. -/
def mark : Char := '\ufeff'

/-- The bytes of one character; some characters have none. -/
def bytes? (s : Charset) (c : Char) : Option Bytes :=
  let n := c.toNat
  match s with
  | utf8 _ => some c.toString.toUTF8.toList
  | utf16 bigEndian _ => some ((units c).flatMap (bytesOf bigEndian 2))
  | utf32 bigEndian _ => some (bytesOf bigEndian 4 n)
  | latin1 => if n < 256 then some [n.toUInt8] else none
  | ascii => if n < 128 then some [n.toUInt8] else none
  | windows1252 =>
    if n < 128 ∨ 160 ≤ n ∧ n < 256 then some [n.toUInt8]
    else (Markup.windows1252Table.findIdx? (· == n)).map fun k => [(128 + k).toUInt8]

def isMarked : Charset → Bool
  | utf8 marked | utf16 _ marked | utf32 _ marked => marked
  | _ => false

def encode (s : Charset) (text : String) : Except CharsetError Bytes :=
  match (if s.isMarked then mark :: text.toList else text.toList).mapM s.bytes? with
  | some bs => .ok bs.flatten
  | none => .error .character

end Charset

/-- Text in a character set of that name. -/
def encodeAs (name text : String) : Except CharsetError Bytes :=
  match Charset.ofName? name with
  | some s => s.encode text
  | none => .error .unknown

/-- Why text is not written. -/
inductive TextError where
  | charset (e : CharsetError)
  | system (e : OsError)
  deriving DecidableEq, Repr

/-- Writes text as a file, whole or not at all; text that has no bytes leaves the
tree as it is. -/
def Tree.writeText (faults : WriteStep → Option OsCause) (mark : String) (t : Tree) (p : Place)
    (name text : String) : Tree × Option TextError :=
  match encodeAs name text with
  | .error e => (t, some (.charset e))
  | .ok content =>
    let (t, e) := t.write faults mark p content
    (t, e.map .system)

/-- Writes text where no step fails for an outer cause. -/
def Tree.saveText (t : Tree) (p : Place) (name text : String) : Tree × Option TextError :=
  t.writeText (fun _ => none) ((t.ensure p.parent).1.mark p) p name text

end BoardPlotter
