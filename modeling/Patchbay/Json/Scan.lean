/-!
# Scanning JSON text

The extent of a value without its meaning. A value that nobody asks for is passed over, and has
only to be well formed: its numbers may be of any size, its escapes may name half of a pair of
code units, and its containers may nest to any depth.

`passValue` keeps the containers that are open on a stack, so that deep nesting costs no more
than a long list.
-/

namespace Patchbay.Json

/-- Characters that may stand between the parts of a text. -/
def isBlank (c : Char) : Bool := c == ' ' || c == '\n' || c == '\t' || c == '\r'

/-- Drops blanks. -/
def skipBlanks (cs : List Char) : List Char := cs.dropWhile isBlank

/-- The value of a hexadecimal digit. -/
def hexDigit? (c : Char) : Option Nat :=
  if '0' ≤ c ∧ c ≤ '9' then some (c.toNat - '0'.toNat)
  else if 'a' ≤ c ∧ c ≤ 'f' then some (c.toNat - 'a'.toNat + 10)
  else if 'A' ≤ c ∧ c ≤ 'F' then some (c.toNat - 'A'.toNat + 10)
  else none

/-! ### Values without parts -/

/-- Passes over a string behind its opening quote. -/
def passString : List Char → Option (List Char)
  | '"' :: rest => some rest
  | '\\' :: 'u' :: a :: b :: c :: d :: rest =>
    if [a, b, c, d].all fun x => (hexDigit? x).isSome then passString rest else none
  | '\\' :: c :: rest =>
    if c ∈ ['"', '\\', '/', 'b', 'f', 'n', 'r', 't'] then passString rest else none
  | c :: rest => if c.toNat < 0x20 || c == '\\' then none else passString rest
  | [] => none

/-- Passes over digits, of which there must be one. -/
def passDigits : List Char → Option (List Char)
  | c :: rest => if c.isDigit then some (rest.dropWhile Char.isDigit) else none
  | [] => none

/-- Passes over an exponent, if there is one. -/
def passExponent : List Char → Option (List Char)
  | mark :: rest =>
    if mark == 'e' || mark == 'E' then
      match rest with
      | '+' :: digits | '-' :: digits => passDigits digits
      | digits => passDigits digits
    else some (mark :: rest)
  | [] => some []

/-- Passes over what follows the whole digits of a number. -/
def passFraction : List Char → Option (List Char)
  | '.' :: rest => (passDigits rest).bind passExponent
  | cs => passExponent cs

/-- Passes over a number without its sign: no zero stands before another digit. -/
def passUnsigned : List Char → Option (List Char)
  | '0' :: rest => if rest.head?.any Char.isDigit then none else passFraction rest
  | cs => (passDigits cs).bind passFraction

/-- Passes over a value that is no container. -/
def passSingle : List Char → Option (List Char)
  | 'n' :: 'u' :: 'l' :: 'l' :: rest => some rest
  | 't' :: 'r' :: 'u' :: 'e' :: rest => some rest
  | 'f' :: 'a' :: 'l' :: 's' :: 'e' :: rest => some rest
  | '"' :: rest => passString rest
  | '-' :: rest => passUnsigned rest
  | cs => passUnsigned cs

/-! ### Containers -/

/-- A container that is open. -/
inductive Container where
  | array
  | object
deriving DecidableEq, Repr

/-- What is due next while a value is passed over. -/
inductive Due where
  | value
  /-- A key, and the colon behind it. -/
  | key
  /-- What may follow a value: a comma, or the end of the innermost container. -/
  | separator
deriving DecidableEq, Repr

/-- Passes over the rest of a value, where the containers `outer` are open, innermost first. Every
turn takes a character, so that fuel beyond the length of the text is enough. -/
def passFrom : Nat → Due → List Container → List Char → Option (List Char)
  | 0, _, _, _ => none
  | _ + 1, .separator, [], cs => some cs
  | fuel + 1, .separator, .array :: outer, cs =>
    match skipBlanks cs with
    | ',' :: rest => passFrom fuel .value (.array :: outer) rest
    | ']' :: rest => passFrom fuel .separator outer rest
    | _ => none
  | fuel + 1, .separator, .object :: outer, cs =>
    match skipBlanks cs with
    | ',' :: rest => passFrom fuel .key (.object :: outer) rest
    | '\x7d' :: rest => passFrom fuel .separator outer rest
    | _ => none
  | fuel + 1, .key, outer, cs =>
    match skipBlanks cs with
    | '"' :: rest =>
      match (passString rest).map skipBlanks with
      | some (':' :: rest) => passFrom fuel .value outer rest
      | _ => none
    | _ => none
  | fuel + 1, .value, outer, cs =>
    match skipBlanks cs with
    | '[' :: rest =>
      match skipBlanks rest with
      | ']' :: rest => passFrom fuel .separator outer rest
      | rest => passFrom fuel .value (.array :: outer) rest
    | '\x7b' :: rest =>
      match skipBlanks rest with
      | '\x7d' :: rest => passFrom fuel .separator outer rest
      | rest => passFrom fuel .key (.object :: outer) rest
    | cs =>
      match passSingle cs with
      | some rest => passFrom fuel .separator outer rest
      | none => none

/-- Passes over the value at the front of a text. -/
def passValue (cs : List Char) : Option (List Char) := passFrom (cs.length + 2) .value [] cs

end Patchbay.Json
