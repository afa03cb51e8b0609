import BoardPlotter.Markup.Character

/-!
# Encodings of documents

The bytes of a document are read in the encoding that its first bytes show or
its declaration names.
-/

namespace BoardPlotter.Markup

inductive Encoding where
  | utf8
  | utf16 (bigEndian : Bool)
  | latin1
  | ascii
  | windows1252
  deriving DecidableEq, Repr

/-- The characters that take the place of controls in the Windows code page;
zero where there is none. -/
def windows1252Table : List Nat :=
  [0x20ac, 0, 0x201a, 0x192, 0x201e, 0x2026, 0x2020, 0x2021, 0x2c6, 0x2030, 0x160, 0x2039,
    0x152, 0, 0x17d, 0, 0, 0x2018, 0x2019, 0x201c, 0x201d, 0x2022, 0x2013, 0x2014, 0x2dc,
    0x2122, 0x161, 0x203a, 0x153, 0, 0x17e, 0x178]

/-- Pairs of bytes as numbers. -/
def units (bigEndian : Bool) : List UInt8 → Option (List Nat)
  | [] => some []
  | [_] => none
  | a :: b :: rest =>
    (units bigEndian rest).map fun us =>
      (if bigEndian then a.toNat * 256 + b.toNat else b.toNat * 256 + a.toNat) :: us

/-- Units as characters; a lone surrogate is none. -/
def ofUnits : List Nat → Option (List Char)
  | [] => some []
  | u :: us =>
    if u < 0xd800 ∨ 0xe000 ≤ u then (ofUnits us).map (Char.ofNat u :: ·)
    else
      match us with
      | v :: vs =>
        if u < 0xdc00 ∧ 0xdc00 ≤ v ∧ v < 0xe000 then
          (ofUnits vs).map (Char.ofNat (0x10000 + (u - 0xd800) * 0x400 + (v - 0xdc00)) :: ·)
        else none
      | [] => none

def Encoding.decode? (e : Encoding) (bytes : List UInt8) : Option (List Char) :=
  match e with
  | .utf8 => (String.fromUTF8? ⟨bytes.toArray⟩).map String.toList
  | .utf16 bigEndian => (units bigEndian bytes).bind ofUnits
  | .latin1 => some (bytes.map fun b => Char.ofNat b.toNat)
  | .ascii => if bytes.all (· < 128) then some (bytes.map fun b => Char.ofNat b.toNat) else none
  | .windows1252 =>
    bytes.mapM fun b =>
      let n := b.toNat
      if n < 128 ∨ 160 ≤ n then some (Char.ofNat n)
      else
        match windows1252Table.getD (n - 128) 0 with
        | 0 => none
        | n => some (Char.ofNat n)

/-- What the start of a document declares. -/
structure Declaration where
  encoding : Option String
  standalone : Bool
  deriving DecidableEq, Repr

namespace Declaration

def none : Declaration := ⟨.none, false⟩

def isValueChar (c : Char) : Bool :=
  (c.isAlphanum && c.toNat < 128) || c == '.' || c == '-' || c == '_'

/-- One quoted item of a declaration, behind a space: its value and the rest. -/
def item? (word : String) (cs : List Char) : Option (String × List Char) := do
  let r ← space? cs
  let r ← behind? word.toList r
  match dropSpace r with
  | '=' :: r =>
    match dropSpace r with
    | q :: r =>
      if q == '"' || q == '\'' then
        let value := r.takeWhile (· != q)
        if value.all isValueChar then
          match r.dropWhile (· != q) with
          | _ :: rest => some (String.ofList value, rest)
          | [] => failure
        else failure
      else failure
    | [] => failure
  | _ => failure

/-- The declaration at the head of a document, and the rest. There may be none,
but not a malformed one. -/
def read? (cs : List Char) : Option (Declaration × List Char) :=
  match behind? "<?xml".toList cs with
  | .none => some (none, cs)
  | some r =>
    if !(r.head?.any isSpace) then some (none, cs)
    else do
      let (_, r) ← item? "version" r
      let (encoding, r) :=
        match item? "encoding" r with
        | some (e, r) => (some e, r)
        | .none => (.none, r)
      let (standalone, r) :=
        match item? "standalone" r with
        | some (s, r) => (some s, r)
        | .none => (.none, r)
      if !(encoding.all fun e => e.toList.head?.any Char.isAlpha) then failure
      if !(standalone.all fun s => s == "yes" || s == "no") then failure
      let r ← behind? "?>".toList (dropSpace r)
      return (⟨encoding, standalone == some "yes"⟩, r)

end Declaration

/-- Why a document has no text. -/
inductive EncodingFault where
  | malformed
  | unknown
  deriving DecidableEq, Repr

namespace Encoding

/-- The encoding that the first bytes show, and how many of them are a mark. -/
def detect : List UInt8 → Encoding × Nat
  | 0xef :: 0xbb :: 0xbf :: _ => (.utf8, 3)
  | 0xfe :: 0xff :: _ => (.utf16 true, 2)
  | 0xff :: 0xfe :: _ => (.utf16 false, 2)
  | 0 :: _ :: _ => (.utf16 true, 0)
  | _ :: 0 :: _ => (.utf16 false, 0)
  | _ => (.utf8, 0)

def isWide : Encoding → Bool
  | utf16 _ => true
  | _ => false

/-- The encoding of a declared name, for a document whose first bytes show
another one of the same width. -/
def ofName (shown : Encoding) (name : String) : Except EncodingFault Encoding :=
  let name := name.toLower
  let declared : Option Encoding :=
    if name == "utf-8" then some utf8
    else if name == "utf-16" then some (if shown.isWide then shown else utf16 true)
    else if name == "utf-16be" then some (utf16 true)
    else if name == "utf-16le" then some (utf16 false)
    else if name == "us-ascii" || name == "ascii" then some ascii
    else if ["iso-8859-1", "iso8859-1", "latin-1", "latin1", "l1", "iso_8859-1"].contains name then
      some latin1
    else if ["windows-1252", "cp1252", "1252"].contains name then some windows1252
    else none
  match declared with
  | some e =>
    if e.isWide || shown.isWide then
      if e = shown then .ok e else .error .malformed
    else .ok e
  | none => .error .unknown

/-- The text of a document. -/
def textOf (bytes : List UInt8) : Except EncodingFault (List Char) := do
  let (shown, mark) := detect bytes
  let bytes := bytes.drop mark
  let look := if shown.isWide then shown else latin1
  let head := (look.decode? bytes).getD []
  let encoding ←
    match Declaration.read? head with
    | some (⟨some name, _⟩, _) => ofName shown name
    | _ => pure shown
  match encoding.decode? bytes with
  | some cs => return cs
  | none => throw .malformed

end Encoding

end BoardPlotter.Markup
