import Patchbay.Json.Nesting
import Patchbay.Json.Outline
import Patchbay.Json.Scan

/-!
# Reading JSON text

`Json.read` takes the whole text of one value, blanks around it allowed. Whole numbers that
fit 64 bits stay whole numbers; a longer one, and every number with a fraction or an
exponent, is a double, and a number past the largest double is refused. Containers nest at
most 127 deep (`depthLimit`).

`Json.readOutline` takes the parts of a value that an outline asks for. They are held to the same
rules, and the values that it does not ask for have only to be well formed.

The reader keeps the fields of an object as they were written; `Json.parse` brings them into
key order.
-/

namespace Patchbay.Json

/-- What is read of the front of a text, and the rest. -/
abbrev Read (α : Type) := Option (α × List Char)

/-- The value of a decimal digit. -/
def digit? (c : Char) : Option Nat := if c.isDigit then some (c.toNat - '0'.toNat) else none

/-! ### Numbers -/

/-- The part of a number that has been read: its digits as a whole number, how many places the
decimal point is to be moved, and whether 64 bits are full, so that further digits no longer
count. -/
structure Digits where
  value : Nat
  shift : Int
  full : Bool

/-- Takes one more digit, which stands behind the decimal point or before it. -/
def Digits.push (fraction : Bool) (s : Digits) (d : Nat) : Digits :=
  if s.full || 0x10000000000000000 ≤ s.value * 10 + d then
    ⟨s.value, if fraction then s.shift else s.shift + 1, true⟩
  else
    ⟨s.value * 10 + d, if fraction then s.shift - 1 else s.shift, false⟩

/-- Takes the digits at the front of a text. -/
def takeDigits (fraction : Bool) (s : Digits) : List Char → Digits × List Char
  | [] => (s, [])
  | c :: cs =>
    match digit? c with
    | some d => takeDigits fraction (s.push fraction d) cs
    | none => (s, c :: cs)

/-- The digits of an exponent, of which there must be one. -/
def exponentDigits (sign : Int) : List Char → Read Int
  | [] => none
  | c :: cs =>
    if c.isDigit then
      let ds := (c :: cs).takeWhile Char.isDigit
      let n : Nat := ds.foldl (fun n c => n * 10 + (c.toNat - '0'.toNat)) 0
      some (sign * n, (c :: cs).dropWhile Char.isDigit)
    else none

/-- The exponent after its mark: a sign, and at least one digit. -/
def readExponent : List Char → Read Int
  | '+' :: rest => exponentDigits 1 rest
  | '-' :: rest => exponentDigits (-1) rest
  | cs => exponentDigits 1 cs

/-- A double from its digits and an exponent. An exponent of more than 31 bits stands for a
number too large, or for zero. -/
def finishDouble (negative : Bool) (s : Digits) (exponent : Int) (cs : List Char) : Read Json :=
  if 0x80000000 ≤ exponent.natAbs then
    if s.value ≠ 0 ∧ 0 < exponent then none
    else some (.double (if negative then Double.zero.neg else Double.zero), cs)
  else
    (Double.ofDecimal negative s.value (s.shift + exponent)).map fun d => (.double d, cs)

/-- The rest of a number behind all its digits: an exponent, or nothing. -/
def readScale (negative : Bool) (s : Digits) : List Char → Read Json
  | 'e' :: rest | 'E' :: rest =>
    (readExponent rest).bind fun (e, rest) => finishDouble negative s e rest
  | cs => finishDouble negative s 0 cs

/-- The rest of a number behind its whole digits. -/
def readFraction (negative : Bool) (s : Digits) : List Char → Read Json
  | '.' :: c :: rest =>
    if c.isDigit then
      let (s, rest) := takeDigits true { s with full := false } (c :: rest)
      readScale negative s rest
    else none
  | '.' :: [] => none
  | cs => readScale negative s cs

/-- A number that has neither a fraction nor an exponent. -/
def wholeNumber (negative : Bool) (n : Nat) : Json :=
  if !negative then .int n
  else if n = 0 ∨ 0x8000000000000000 < n then .double (Double.ofInt n).neg
  else .int (-(n : Int))

/-- The rest of a number behind its whole digits, which are a single zero or do not start with
one: nothing, or what makes it a double. -/
def readRest (negative zero : Bool) (s : Digits) (cs : List Char) : Read Json :=
  match cs with
  | '.' :: _ | 'e' :: _ | 'E' :: _ => readFraction negative s cs
  | d :: _ =>
    if zero && d.isDigit then none
    else if s.full then finishDouble negative s 0 cs
    else some (wholeNumber negative s.value, cs)
  | [] =>
    if s.full then finishDouble negative s 0 [] else some (wholeNumber negative s.value, [])

/-- A number behind its sign: no leading zeros. -/
def readUnsigned (negative : Bool) : List Char → Read Json
  | [] => none
  | c :: cs =>
    if !c.isDigit then none
    else if c == '0' then readRest negative true ⟨0, 0, false⟩ cs
    else
      let (s, rest) := takeDigits false ⟨0, 0, false⟩ (c :: cs)
      readRest negative false s rest

/-- A number: no sign but a minus. -/
def readNumber : List Char → Read Json
  | '-' :: rest => readUnsigned true rest
  | cs => readUnsigned false cs

/-! ### Strings -/

/-- Four hexadecimal digits. -/
def readHex4 : List Char → Read Nat
  | a :: b :: c :: d :: rest =>
    match hexDigit? a, hexDigit? b, hexDigit? c, hexDigit? d with
    | some a, some b, some c, some d => some (((a * 16 + b) * 16 + c) * 16 + d, rest)
    | _, _, _, _ => none
  | _ => none

/-- The character of an escape by code units; two halves of a pair make one character, and a
half on its own is refused. -/
def readUnicode (cs : List Char) : Read Char :=
  match readHex4 cs with
  | none => none
  | some (hi, rest) =>
    if 0xD800 ≤ hi ∧ hi < 0xDC00 then
      match rest with
      | '\\' :: 'u' :: rest =>
        match readHex4 rest with
        | none => none
        | some (lo, rest) =>
          if 0xDC00 ≤ lo ∧ lo < 0xE000 then
            some (Char.ofNat (0x10000 + (hi - 0xD800) * 0x400 + (lo - 0xDC00)), rest)
          else none
      | _ => none
    else if 0xDC00 ≤ hi ∧ hi < 0xE000 then none
    else some (Char.ofNat hi, rest)

/-- The character of an escape, behind its backslash. -/
def readEscape : List Char → Read Char
  | '"' :: rest => some ('"', rest)
  | '\\' :: rest => some ('\\', rest)
  | '/' :: rest => some ('/', rest)
  | 'b' :: rest => some ('\x08', rest)
  | 'f' :: rest => some ('\x0c', rest)
  | 'n' :: rest => some ('\n', rest)
  | 'r' :: rest => some ('\r', rest)
  | 't' :: rest => some ('\t', rest)
  | 'u' :: rest => readUnicode rest
  | _ => none

/-- The rest of a string behind its opening quote; `acc` holds what was read, last first. The
fuel bounds the number of characters. -/
def readString : Nat → List Char → List Char → Read String
  | 0, _, _ => none
  | _, _, [] => none
  | fuel + 1, acc, c :: rest =>
    if c == '"' then some (String.ofList acc.reverse, rest)
    else if c == '\\' then
      match readEscape rest with
      | none => none
      | some (c, rest) => readString fuel (c :: acc) rest
    else if c.toNat < 0x20 then none
    else readString fuel (c :: acc) rest

/-! ### Values -/

/-- The items of an array behind its opening bracket, or behind a comma. The first has the index
`i`, and `item` reads the one at an index. -/
def readItems (item : Nat → List Char → Read Json) :
    Nat → Nat → List Json → List Char → Read (List Json)
  | 0, _, _, _ => none
  | fuel + 1, i, acc, cs =>
    match item i cs with
    | none => none
    | some (a, rest) =>
      match skipBlanks rest with
      | ',' :: rest => readItems item fuel (i + 1) (a :: acc) rest
      | ']' :: rest => some ((a :: acc).reverse, rest)
      | _ => none

/-- The fields of an object behind its opening brace, or behind a comma; `value` reads what stands
under a key, and may leave it out. -/
def readFields (value : String → List Char → Read (Option Json)) :
    Nat → List (String × Json) → List Char → Read (List (String × Json))
  | 0, _, _ => none
  | fuel + 1, acc, cs =>
    match skipBlanks cs with
    | '"' :: rest =>
      match readString (rest.length + 1) [] rest with
      | none => none
      | some (key, rest) =>
        match skipBlanks rest with
        | ':' :: rest =>
          match value key rest with
          | none => none
          | some (a, rest) =>
            let acc := (a.map fun a => (key, a)).toList ++ acc
            match skipBlanks rest with
            | ',' :: rest => readFields value fuel acc rest
            | '\x7d' :: rest => some (acc.reverse, rest)
            | _ => none
        | _ => none
    | _ => none

/-- The parts of the value at the front of a text that an outline asks for; containers may nest
`depth` deep. -/
def readValue : Nat → Outline → List Char → Read Json
  | depth, outline, cs =>
    match skipBlanks cs with
    | 'n' :: 'u' :: 'l' :: 'l' :: rest => some (.null, rest)
    | 't' :: 'r' :: 'u' :: 'e' :: rest => some (.bool true, rest)
    | 'f' :: 'a' :: 'l' :: 's' :: 'e' :: rest => some (.bool false, rest)
    | '"' :: rest => (readString (rest.length + 1) [] rest).map fun (s, rest) => (.str s, rest)
    | '[' :: rest =>
      match depth with
      | 0 => none
      | depth + 1 =>
        match skipBlanks rest with
        | ']' :: rest => some (.arr [], rest)
        | rest =>
          (readItems (fun i => readValue depth (outline.item i)) rest.length 0 [] rest).map
            fun (items, rest) => (.arr items, rest)
    | '\x7b' :: rest =>
      match depth with
      | 0 => none
      | depth + 1 =>
        match skipBlanks rest with
        | '\x7d' :: rest => some (.obj [], rest)
        | rest =>
          let value (key : String) (cs : List Char) : Read (Option Json) :=
            match outline.field? key with
            | some part => (readValue depth part cs).map fun (a, rest) => (some a, rest)
            | none => (passValue cs).map fun rest => (none, rest)
          (readFields value rest.length [] rest).map fun (fields, rest) => (.obj fields, rest)
    | cs => readNumber cs

/-- The parts of a whole text that an outline asks for, fields as written. -/
def readOutline (outline : Outline) (text : String) : Option Json :=
  match readValue depthLimit outline text.toList with
  | some (v, rest) => if (skipBlanks rest).isEmpty then some v else none
  | none => none

/-- The value a whole text stands for, fields as written. -/
def read (text : String) : Option Json := readOutline .whole text

/-- The value a whole text stands for. -/
def parse (text : String) : Option Json := (read text).map normalize

end Patchbay.Json
