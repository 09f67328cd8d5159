import Patchbay.Text.Hidden

/-!
# Quoted strings

Two ways to write a string between double quotes: as a JSON string, and as a rendering in
which everything that would not show is spelled out by its code point.
-/

namespace Patchbay.Quoted

/-- A number in lower-case hexadecimal digits. -/
def hex (n : Nat) : String := String.ofList (Nat.toDigits 16 n)

/-- A number in at least `width` hexadecimal digits. -/
def hexPadded (width n : Nat) : String :=
  let ds := Nat.toDigits 16 n
  String.ofList (List.replicate (width - ds.length) '0' ++ ds)

/-- A character inside a JSON string: quotes, backslashes and control characters are escaped,
all else stands for itself. -/
def jsonChar (c : Char) : String :=
  match c with
  | '"' => "\\\""
  | '\\' => "\\\\"
  | '\n' => "\\n"
  | '\r' => "\\r"
  | '\t' => "\\t"
  | '\x08' => "\\b"
  | '\x0c' => "\\f"
  | c => if c.toNat < 0x20 then "\\u" ++ hexPadded 4 c.toNat else String.singleton c

/-- A string as JSON text. -/
def json (s : String) : String :=
  "\"" ++ s.toList.foldl (fun acc c => acc ++ jsonChar c) "" ++ "\""

/-- A character inside a rendered string: quotes, backslashes and line controls are escaped, and
a character that does not show is written as its code point. -/
def renderedChar (c : Char) : String :=
  match c with
  | '"' => "\\\""
  | '\\' => "\\\\"
  | '\n' => "\\n"
  | '\r' => "\\r"
  | '\t' => "\\t"
  | '\x00' => "\\0"
  | c =>
    if Text.isHidden c then "\\u\x7b" ++ hex c.toNat ++ "\x7d" else String.singleton c

/-- A string as it stands in a rendering of a structured value. -/
def rendered (s : String) : String :=
  "\"" ++ s.toList.foldl (fun acc c => acc ++ renderedChar c) "" ++ "\""

end Patchbay.Quoted
