import Patchbay.Number.Double

/-!
# JSON values

Numbers come in two forms that are never equal to each other: whole numbers within 64 bits
keep all their digits (`Json.int`), and everything else is a double. The fields of an
object are held in key order, each key once (`Json.object`), so that two objects that
differ only in the order they were written in are one value. Only records on their way to
a text keep an order of their own (`Json.obj`).
-/

namespace Patchbay

/-- A JSON value. -/
inductive Json where
  | null
  | bool (b : Bool)
  | int (n : Int)
  | double (d : Double)
  | str (s : String)
  | arr (items : List Json)
  | obj (fields : List (String × Json))

instance : Inhabited Json := ⟨.null⟩

/-! ### Fields in key order -/

/-- Puts a pair at its key's place, replacing the pair that has this key. -/
def insertKey {α : Type} (key : String) (a : α) : List (String × α) → List (String × α)
  | [] => [(key, a)]
  | (k, b) :: rest =>
    if key < k then (key, a) :: (k, b) :: rest
    else if key = k then (key, a) :: rest
    else (k, b) :: insertKey key a rest

/-- Pairs in key order; of two pairs with one key the later one stays. -/
def sortKeys {α : Type} (pairs : List (String × α)) : List (String × α) :=
  pairs.foldl (fun acc p => insertKey p.1 p.2 acc) []

/-- The first value under a key. -/
def lookupKey {α : Type} (key : String) : List (String × α) → Option α
  | [] => none
  | (k, a) :: rest => if k = key then some a else lookupKey key rest

theorem lookupKey_insertKey {α : Type} (key : String) (a : α) (pairs : List (String × α)) :
    lookupKey key (insertKey key a pairs) = some a := by
  induction pairs with
  | nil => simp [insertKey, lookupKey]
  | cons p rest ih =>
    simp only [insertKey]
    split
    · simp [lookupKey]
    · split
      · simp [lookupKey]
      · rename_i h
        simp [lookupKey, Ne.symm h, ih]

theorem lookupKey_insertKey_of_ne {α : Type} {key other : String} (h : other ≠ key) (a : α)
    (pairs : List (String × α)) :
    lookupKey other (insertKey key a pairs) = lookupKey other pairs := by
  induction pairs with
  | nil => simp [insertKey, lookupKey, Ne.symm h]
  | cons p rest ih =>
    simp only [insertKey]
    split
    · simp [lookupKey, Ne.symm h]
    · split
      · rename_i h'
        subst h'
        simp [lookupKey, Ne.symm h]
      · simp [lookupKey, ih]

namespace Json

/-- An object from fields in any order. -/
def object (fields : List (String × Json)) : Json := .obj (sortKeys fields)

/-- An object without the fields that are absent. -/
def objectOf (fields : List (Option (String × Json))) : Json := object (fields.filterMap id)

/-! ### Equality -/

mutual

/-- Equality of values: numbers of one form are compared as numbers. -/
def same : Json → Json → Bool
  | .null, .null => true
  | .bool a, .bool b => a == b
  | .int a, .int b => a == b
  | .double a, .double b => a.same b
  | .str a, .str b => a == b
  | .arr a, .arr b => sameItems a b
  | .obj a, .obj b => sameFields a b
  | _, _ => false

/-- Equality of arrays, item by item. -/
def sameItems : List Json → List Json → Bool
  | [], [] => true
  | a :: as, b :: bs => a.same b && sameItems as bs
  | _, _ => false

/-- Equality of fields in key order. -/
def sameFields : List (String × Json) → List (String × Json) → Bool
  | [], [] => true
  | (k, a) :: as, (l, b) :: bs => k == l && a.same b && sameFields as bs
  | _, _ => false

end

mutual

/-- The same value with the fields of every object in key order, each key once. -/
def normalize : Json → Json
  | .arr items => .arr (normalizeItems items)
  | .obj fields => .obj (sortKeys (normalizeFields fields))
  | other => other

/-- Normalizes every item. -/
def normalizeItems : List Json → List Json
  | [] => []
  | a :: as => a.normalize :: normalizeItems as

/-- Normalizes the value of every field. -/
def normalizeFields : List (String × Json) → List (String × Json)
  | [] => []
  | (k, a) :: as => (k, a.normalize) :: normalizeFields as

end

/-! ### Views -/

/-- Whether a value is `null`. -/
def isNull : Json → Bool
  | .null => true
  | _ => false

/-- The text of a string. -/
def str? : Json → Option String
  | .str s => some s
  | _ => none

/-- The truth value of a boolean. -/
def bool? : Json → Option Bool
  | .bool b => some b
  | _ => none

/-- The items of an array. -/
def arr? : Json → Option (List Json)
  | .arr items => some items
  | _ => none

/-- The fields of an object. -/
def obj? : Json → Option (List (String × Json))
  | .obj fields => some fields
  | _ => none

/-- A whole number within the range of 64 bits with a sign. -/
def int64? : Json → Option Int64
  | .int n =>
    if -0x8000000000000000 ≤ n ∧ n < 0x8000000000000000 then some (Int64.ofInt n) else none
  | _ => none

/-- A whole number within the range of 64 bits without a sign. -/
def nat64? : Json → Option Nat
  | .int n => if 0 ≤ n ∧ n < 0x10000000000000000 then some n.toNat else none
  | _ => none

/-- Any number as a double; a whole number goes to the nearest one. -/
def double? : Json → Option Double
  | .int n => some (Double.ofInt n)
  | .double d => some d
  | _ => none

/-- The value under a key of an object. -/
def get? (v : Json) (key : String) : Option Json := v.obj?.bind (lookupKey key)

end Json

end Patchbay
