import Coroscript.Source.Utf8

namespace Coroscript.Shell

/-! Byte texts. A script handles bytes; a text of it holds each byte as the
character with that number. -/

def ofBytes (bytes : List UInt8) : String :=
  .ofList (bytes.map fun byte => Char.ofNat byte.toNat)

def toBytes (text : String) : List UInt8 :=
  text.toList.map fun c => c.toNat.toUInt8

/-- The byte text of a text. -/
def ofText (text : String) : String :=
  ofBytes (encodeUtf8 text)

/-- The text that a byte text spells. -/
def toText (bytes : String) : String :=
  decodeUtf8Lossy (toBytes bytes)

/-! Names in messages. They are quoted in such a way that a shell reads the same
name. -/

def isPrintable (c : Char) : Bool :=
  ' ' ≤ c && c ≤ '~'

/-- The characters that a shell does not read as themselves. -/
def isSpecial (c : Char) : Bool :=
  " !\"$&'()*:;<=>?[\\^`|".toList.contains c

def needsQuotes (name : String) : Bool :=
  match name.toList with
  | [] => true
  | first :: rest =>
      first == '#' || first == '~' ||
        (rest.isEmpty && (first == '\x7b' || first == '\x7d')) ||
        (first :: rest).any fun c => isSpecial c || !isPrintable c

def octalEscape (c : Char) : List Char :=
  let n := c.toNat
  ['\\', Nat.digitChar (n / 64), Nat.digitChar (n / 8 % 8), Nat.digitChar (n % 8)]

/-- How a character that cannot be shown is written after `$'`. -/
def hiddenEscape (c : Char) : List Char :=
  match c with
  | '\x07' => ['\\', 'a']
  | '\x08' => ['\\', 'b']
  | '\t' => ['\\', 't']
  | '\n' => ['\\', 'n']
  | '\x0b' => ['\\', 'v']
  | '\x0c' => ['\\', 'f']
  | '\r' => ['\\', 'r']
  | _ => octalEscape c

/-- The inside of a quoted name; `hidden` tells whether an escape is open. -/
def quoteInside (hidden : Bool) : List Char → List Char
  | [] => []
  | c :: rest =>
      if !isPrintable c then
        (if hidden then [] else ['\x27', '$', '\x27']) ++ hiddenEscape c ++ quoteInside true rest
      else if c = '\x27' then ['\x27', '\\', '\x27', '\x27'] ++ quoteInside false rest
      else (if hidden then ['\x27', '\x27'] else []) ++ c :: quoteInside false rest

/-- The characters that may stand between double quotes with an apostrophe. -/
def besideApostrophe (c : Char) : Bool :=
  c.isAlphanum || " '#~%+,-./:]_\x7b\x7d".toList.contains c

/-- A name in quotes. -/
def quoted (name : String) : String :=
  let text := name.toList
  if text.contains '\x27' && text.all besideApostrophe then "\"" ++ name ++ "\""
  else "'" ++ String.ofList (quoteInside false text) ++ "'"

/-- A name in quotes if it needs them. -/
def quotedIfNeeded (name : String) : String :=
  if needsQuotes name then quoted name else name

end Coroscript.Shell
