/-!
# Nesting of JSON text

A reader follows containers only to a certain depth (`depthLimit`). `tooDeep?` finds the place at
which a text first goes deeper: the bracket that opens one container too many. Brackets inside of
strings do not count, so a scan has to know whether it stands in one.
-/

namespace Patchbay

/-- A place in a text; lines, and the bytes of a line, are counted from one. -/
structure TextPlace where
  line : Nat := 1
  column : Nat := 1
deriving DecidableEq, Repr

namespace TextPlace

/-- The place behind a character. -/
def after (p : TextPlace) (c : Char) : TextPlace :=
  if c = '\n' then ⟨p.line + 1, 1⟩ else { p with column := p.column + c.utf8Size }

/-- The wording of a place. -/
def describe (p : TextPlace) : String :=
  "line " ++ toString p.line ++ " column " ++ toString p.column

end TextPlace

namespace Json

/-- How deep containers may nest. -/
def depthLimit : Nat := 127

/-- Where a scan for brackets stands. -/
inductive Stand where
  | outside
  | inString
  /-- Behind a backslash in a string. -/
  | escaped
deriving DecidableEq, Repr

/-- Where a scan stands behind a character. -/
def Stand.after : Stand → Char → Stand
  | .outside, c => if c = '"' then .inString else .outside
  | .inString, c => if c = '"' then .outside else if c = '\\' then .escaped else .inString
  | .escaped, _ => .inString

/-- The place of the first bracket that opens a container inside of `limit` others, where `opened`
ones are open already. -/
def tooDeepFrom (limit : Nat) : Stand → Nat → TextPlace → List Char → Option TextPlace
  | _, _, _, [] => none
  | stand, opened, place, c :: rest =>
    let next (opened : Nat) := tooDeepFrom limit (stand.after c) opened (place.after c) rest
    if stand = .outside ∧ (c = '[' ∨ c = '\x7b') then
      if limit ≤ opened then some place else next (opened + 1)
    else if stand = .outside ∧ (c = ']' ∨ c = '\x7d') then next (opened - 1)
    else next opened

/-- The place at which a text goes too deep, if it does. -/
def tooDeep? (text : String) : Option TextPlace :=
  tooDeepFrom depthLimit .outside 0 {} text.toList

/-- Why a text cannot be read. -/
inductive ReadFault where
  | tooDeep (place : TextPlace)
  | malformed
deriving DecidableEq, Repr

/-- Why a text that cannot be read cannot be. -/
def faultOf (text : String) : ReadFault :=
  match tooDeep? text with
  | some place => .tooDeep place
  | none => .malformed

/-- The wording of a fault. -/
def ReadFault.message : ReadFault → String
  | .tooDeep place => "recursion limit exceeded at " ++ place.describe
  | .malformed => "malformed text"

/-- Within the limit a bracket is only counted. -/
theorem tooDeepFrom_open {limit opened : Nat} (h : opened < limit) (place : TextPlace)
    (rest : List Char) :
    tooDeepFrom limit .outside opened place ('[' :: rest)
      = tooDeepFrom limit .outside (opened + 1) (place.after '[') rest := by
  simp [tooDeepFrom, Stand.after, Nat.not_le.mpr h]

end Json

end Patchbay
