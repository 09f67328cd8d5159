import Patchbay.Constraint.Wire
import Patchbay.Proofs.Json.Tokens

/-!
# Values that are read back

The compact text of a value is read back as that value (`Json.readOutline_compact`), if its numbers
are legible (`Json.Legible`), its containers do not nest too deep, and the outline covers it
(`Json.Covers`): it asks for every field there is.
-/

namespace Patchbay

/-- The text of the number is read back as the number. -/
def Double.Legible (d : Double) : Prop :=
  Json.readNumber (d.render .json).toList = some (.double d, [])

namespace Json

mutual

/-- Whole numbers are within 64 bits, and the texts of doubles are read back. -/
def Legible : Json → Prop
  | .int n => -0x8000000000000000 ≤ n ∧ n < 0x10000000000000000
  | .double d => d.Legible
  | .arr items => LegibleItems items
  | .obj fields => LegibleFields fields
  | .null | .bool _ | .str _ => True

/-- All items are legible. -/
def LegibleItems : List Json → Prop
  | [] => True
  | a :: as => a.Legible ∧ LegibleItems as

/-- The values of all fields are legible. -/
def LegibleFields : List (String × Json) → Prop
  | [] => True
  | (_, a) :: as => a.Legible ∧ LegibleFields as

end

deriving instance DecidableEq for Double

instance (d : Double) : Decidable d.Legible :=
  match h : readNumber (d.render .json).toList with
  | some (.double e, []) =>
    if he : e = d then .isTrue (by rw [Double.Legible, h, he])
    else .isFalse (by rw [Double.Legible, h]; simpa using he)
  | none | some (.double _, _ :: _) | some (.null, _) | some (.bool _, _) | some (.int _, _)
  | some (.str _, _) | some (.arr _, _) | some (.obj _, _) =>
    .isFalse (by simp [Double.Legible, h])

mutual

/-- Whether a value is legible. -/
def decideLegible : (v : Json) → Decidable v.Legible
  | .int n => inferInstanceAs (Decidable (-0x8000000000000000 ≤ n ∧ n < 0x10000000000000000))
  | .double d => inferInstanceAs (Decidable d.Legible)
  | .arr items => decideLegibleItems items
  | .obj fields => decideLegibleFields fields
  | .null | .bool _ | .str _ => .isTrue trivial

/-- Whether all items are legible. -/
def decideLegibleItems : (items : List Json) → Decidable (LegibleItems items)
  | [] => .isTrue trivial
  | a :: as => @instDecidableAnd _ _ (decideLegible a) (decideLegibleItems as)

/-- Whether the values of all fields are legible. -/
def decideLegibleFields : (fields : List (String × Json)) → Decidable (LegibleFields fields)
  | [] => .isTrue trivial
  | (_, a) :: as => @instDecidableAnd _ _ (decideLegible a) (decideLegibleFields as)

end

instance : DecidablePred Legible := decideLegible

mutual

/-- An outline asks for all of a value. -/
def Covers (o : Outline) : Json → Prop
  | .arr items => CoversItems o 0 items
  | .obj fields => CoversFields o fields
  | .null | .bool _ | .int _ | .double _ | .str _ => True

/-- An outline asks for all of the items from an index on. -/
def CoversItems (o : Outline) (i : Nat) : List Json → Prop
  | [] => True
  | a :: as => Covers (o.item i) a ∧ CoversItems o (i + 1) as

/-- An outline asks for all fields. -/
def CoversFields (o : Outline) : List (String × Json) → Prop
  | [] => True
  | (k, a) :: as => (∃ part, o.field? k = some part ∧ Covers part a) ∧ CoversFields o as

end

variable {o : Outline} {v : Json} {rest : List Char} {depth : Nat}

mutual

theorem covers_whole : ∀ v : Json, Covers .whole v
  | .arr items => coversItems_whole 0 items
  | .obj fields => coversFields_whole fields
  | .null | .bool _ | .int _ | .double _ | .str _ => trivial

theorem coversItems_whole (i : Nat) : ∀ items : List Json, CoversItems .whole i items
  | [] => trivial
  | a :: as => ⟨covers_whole a, coversItems_whole (i + 1) as⟩

theorem coversFields_whole : ∀ fields : List (String × Json), CoversFields .whole fields
  | [] => trivial
  | (_, a) :: as => ⟨⟨.whole, rfl, covers_whole a⟩, coversFields_whole as⟩

end

/-! ### First characters -/

/-- The first character of a number. -/
def StartsNumber (c : Char) : Prop := c = '-' ∨ c.isDigit = true

theorem exists_cons_of_readNumber {cs : List Char} {r : Json × List Char}
    (h : readNumber cs = some r) : ∃ c cs', cs = c :: cs' ∧ StartsNumber c := by
  cases cs with
  | nil => cases h
  | cons c cs =>
    refine ⟨c, cs, rfl, ?_⟩
    by_cases hminus : c = '-'
    · exact .inl hminus
    · cases hdigit : c.isDigit with
      | true => exact .inr hdigit
      | false => simp [readNumber, hminus, readUnsigned, hdigit] at h

/-- A character that a value may start with. -/
structure StartsValue (c : Char) : Prop where
  not_blank : isBlank c = false
  not_bracket : c ≠ ']'
  not_brace : c ≠ '\x7d'

theorem StartsNumber.startsValue {c : Char} (h : StartsNumber c) : StartsValue c := by
  rcases h with rfl | h
  · exact ⟨rfl, by decide, by decide⟩
  · refine ⟨?_, ?_, ?_⟩
    · rw [Bool.eq_false_iff]
      intro hblank
      simp only [isBlank, Bool.or_eq_true, beq_iff_eq] at hblank
      rcases hblank with ((rfl | rfl) | rfl) | rfl <;> cases h
    · rintro rfl
      cases h
    · rintro rfl
      cases h

theorem exists_compact_eq_cons (h : v.Legible) :
    ∃ c cs, v.compact.toList = c :: cs ∧ StartsValue c := by
  cases v with
  | null => exact ⟨'n', _, rfl, rfl, by decide, by decide⟩
  | bool b => cases b <;> exact ⟨_, _, rfl, rfl, by decide, by decide⟩
  | int n =>
    obtain ⟨c, cs, hcs, hc⟩ := exists_cons_of_readNumber (readNumber_toString h.1 h.2)
    exact ⟨c, cs, hcs, hc.startsValue⟩
  | double d =>
    obtain ⟨c, cs, hcs, hc⟩ := exists_cons_of_readNumber h
    exact ⟨c, cs, hcs, hc.startsValue⟩
  | str s =>
    have hquoted := toList_quoted s []
    rw [List.append_nil] at hquoted
    exact ⟨'"', _, hquoted, rfl, by decide, by decide⟩
  | arr items => exact ⟨'[', _, by simp [compact]; rfl, rfl, by decide, by decide⟩
  | obj fields => exact ⟨'\x7b', _, by simp [compact]; rfl, rfl, by decide, by decide⟩

theorem skipBlanks_cons {c : Char} (h : isBlank c = false) (cs : List Char) :
    skipBlanks (c :: cs) = c :: cs := by
  simp [skipBlanks, h]

/-! ### Values without parts -/

/-- The text of a string is longer than the string. -/
theorem length_lt_of_quoted (s : String) (rest : List Char) : s.toList.length <
    (s.toList.flatMap (fun c => (Quoted.jsonChar c).toList) ++ '"' :: rest).length + 1 := by
  have hpos : ∀ c, 1 ≤ (Quoted.jsonChar c).toList.length := by
    intro c
    unfold Quoted.jsonChar
    split
    all_goals first | decide | skip
    split <;> simp
  have hle : ∀ cs : List Char,
      cs.length ≤ (cs.flatMap fun c => (Quoted.jsonChar c).toList).length := by
    intro cs
    induction cs with
    | nil => exact Nat.le_refl 0
    | cons c cs ih =>
      have hc := hpos c
      simp only [List.length_cons, List.flatMap_cons, List.length_append]
      omega
  have hs := hle s.toList
  rw [List.length_append]
  omega

theorem readValue_of_startsNumber {c : Char} (h : StartsNumber c) (depth : Nat) (o : Outline)
    (cs : List Char) : readValue depth o (c :: cs) = readNumber (c :: cs) := by
  have hne : ∀ d, ¬ StartsNumber d → c ≠ d := by
    rintro d hd rfl
    exact hd h
  have hn : c ≠ 'n' := hne 'n' (by simp [StartsNumber])
  have ht : c ≠ 't' := hne 't' (by simp [StartsNumber])
  have hf : c ≠ 'f' := hne 'f' (by simp [StartsNumber])
  have hquote : c ≠ '"' := hne '"' (by simp [StartsNumber])
  have hbracket : c ≠ '[' := hne '[' (by simp [StartsNumber])
  have hbrace : c ≠ '\x7b' := hne '\x7b' (by simp [StartsNumber])
  unfold readValue
  rw [skipBlanks_cons h.startsValue.not_blank]
  split <;> simp_all

/-- A text that is a number is read as one. -/
theorem readValue_of_readNumber {cs : List Char} (h : readNumber cs = some (v, []))
    (hrest : Closes rest) :
    readValue depth o (cs ++ rest) = some (v, rest) := by
  obtain ⟨c, cs, rfl, hc⟩ := exists_cons_of_readNumber h
  rw [List.cons_append, readValue_of_startsNumber hc, ← List.cons_append, readNumber_append hrest,
    h]
  rfl

theorem readValue_quoted (s : String) :
    readValue depth o ((Quoted.json s).toList ++ rest) = some (.str s, rest) := by
  rw [toList_quoted]
  unfold readValue
  rw [skipBlanks_cons rfl]
  simp only
  rw [readString_quoted s rest (length_lt_of_quoted s rest)]
  rfl

/-! ### Containers -/

theorem readValue_arr_nil : readValue (depth + 1) o ('[' :: ']' :: rest) =
    some (.arr [], rest) := by
  unfold readValue
  simp [skipBlanks, isBlank]

/-- What is read of an array that is not empty. -/
theorem readValue_arr {c : Char} (h : StartsValue c) (cs : List Char) :
    readValue (depth + 1) o ('[' :: c :: cs) =
      (readItems (fun i => readValue depth (o.item i)) (c :: cs).length 0 [] (c :: cs)).map
        fun (items, rest) => (.arr items, rest) := by
  rw [readValue]
  simp only [skipBlanks_cons (show isBlank '[' = false from rfl), skipBlanks_cons h.not_blank]
  split
  · rename_i heq
    exact absurd (List.cons.inj heq).1 h.not_bracket
  · rfl

theorem readValue_obj_nil :
    readValue (depth + 1) o ('\x7b' :: '\x7d' :: rest) = some (.obj [], rest) := by
  unfold readValue
  simp [skipBlanks, isBlank]

/-- The parts of the value under a key that an outline asks for. -/
def readUnder (depth : Nat) (o : Outline) (key : String) (cs : List Char) : Read (Option Json) :=
  match o.field? key with
  | some part => (readValue depth part cs).map fun (a, rest) => (some a, rest)
  | none => (passValue cs).map fun rest => (none, rest)

theorem readValue_obj (cs : List Char) :
    readValue (depth + 1) o ('\x7b' :: '"' :: cs) =
      (readFields (readUnder depth o) ('"' :: cs).length [] ('"' :: cs)).map
        fun (fields, rest) => (.obj fields, rest) := by
  rw [readValue]
  simp only [skipBlanks_cons (show isBlank '\x7b' = false from rfl),
    skipBlanks_cons (show isBlank '"' = false from rfl)]
  rfl

/-- Items after the first one follow a comma. -/
theorem toList_compactItems (a : Json) (as : List Json) : (compactItems (a :: as)).toList =
    a.compact.toList ++ if as = [] then [] else ',' :: (compactItems as).toList := by
  cases as <;> simp [compactItems]

theorem toList_compactFields (k : String) (a : Json) (as : List (String × Json)) :
    (compactFields ((k, a) :: as)).toList = (Quoted.json k).toList ++ ':' :: (a.compact.toList ++
      if as = [] then [] else ',' :: (compactFields as).toList) := by
  cases as <;> simp [compactFields]

theorem length_le_compactItems (items : List Json) :
    items.length ≤ (compactItems items).toList.length + 1 := by
  induction items with
  | nil => simp
  | cons a as ih =>
    rw [toList_compactItems]
    split
    · subst as
      simp
    · simp only [List.length_cons, List.length_append]
      omega

theorem length_le_compactFields (fields : List (String × Json)) :
    fields.length ≤ (compactFields fields).toList.length + 1 := by
  induction fields with
  | nil => simp
  | cons f as ih =>
    obtain ⟨k, a⟩ := f
    rw [toList_compactFields]
    split
    · subst as
      simp
    · simp only [List.length_cons, List.length_append]
      omega

section

variable {item : Nat → List Char → Read Json} {fuel i : Nat} {a : Json} {acc : List Json}
  {cs : List Char}

theorem readItems_last (h : item i cs = some (a, ']' :: rest)) :
    readItems item (fuel + 1) i acc cs = some ((a :: acc).reverse, rest) := by
  rw [readItems, h]
  simp only [skipBlanks_cons (show isBlank ']' = false from rfl)]

theorem readItems_comma (h : item i cs = some (a, ',' :: rest)) :
    readItems item (fuel + 1) i acc cs = readItems item fuel (i + 1) (a :: acc) rest := by
  rw [readItems, h]
  simp only [skipBlanks_cons (show isBlank ',' = false from rfl)]

end

section

variable {value : String → List Char → Read (Option Json)} {fuel : Nat} {k : String} {a : Json}
  {acc : List (String × Json)} {cs : List Char}

theorem readFields_last (h : value k cs = some (some a, '\x7d' :: rest)) :
    readFields value (fuel + 1) acc ((Quoted.json k).toList ++ ':' :: cs) =
      some (((k, a) :: acc).reverse, rest) := by
  rw [toList_quoted, readFields, skipBlanks_cons rfl]
  simp only [readString_quoted k _ (length_lt_of_quoted k _),
    skipBlanks_cons (show isBlank ':' = false from rfl), h,
    skipBlanks_cons (show isBlank '\x7d' = false from rfl)]
  rfl

theorem readFields_comma (h : value k cs = some (some a, ',' :: rest)) :
    readFields value (fuel + 1) acc ((Quoted.json k).toList ++ ':' :: cs) =
      readFields value fuel ((k, a) :: acc) rest := by
  rw [toList_quoted, readFields, skipBlanks_cons rfl]
  simp only [readString_quoted k _ (length_lt_of_quoted k _),
    skipBlanks_cons (show isBlank ':' = false from rfl), h,
    skipBlanks_cons (show isBlank ',' = false from rfl)]
  rfl

end

mutual

/-- The text of a value is read back as that value. -/
theorem readValue_compact : ∀ (v : Json) (rest : List Char) {depth : Nat} {o : Outline},
    v.depth ≤ depth → v.Legible → Covers o v → Closes rest →
      readValue depth o (v.compact.toList ++ rest) = some (v, rest)
  | .null, _, _, _, _, _, _, _ => by
    unfold readValue
    rfl
  | .bool b, _, _, _, _, _, _, _ => by
    unfold readValue
    cases b <;> rfl
  | .int n, _, _, _, _, h, _, hrest => readValue_of_readNumber (readNumber_toString h.1 h.2) hrest
  | .double d, _, _, _, _, h, _, hrest => readValue_of_readNumber h hrest
  | .str s, _, _, _, _, _, _, _ => readValue_quoted s
  | .arr [], rest, depth, o, hd, _, _, _ => by
    obtain ⟨n, rfl⟩ : ∃ n, depth = n + 1 := ⟨depth - 1, by rw [Json.depth] at hd; omega⟩
    exact readValue_arr_nil
  | .arr (a :: as), rest, depth, o, hd, h, hcover, hrest => by
    obtain ⟨n, rfl⟩ : ∃ n, depth = n + 1 := ⟨depth - 1, by rw [Json.depth] at hd; omega⟩
    rw [Json.depth] at hd
    have hlen := length_le_compactItems (a :: as)
    have hfuel : (a :: as).length ≤ ((compactItems (a :: as)).toList ++ ']' :: rest).length := by
      simp only [List.length_append, List.length_cons] at hlen ⊢
      omega
    have hitems := readItems_compact (a :: as) [] rest (List.cons_ne_nil a as)
      (Nat.le_of_succ_le_succ hd) hfuel h hcover
    obtain ⟨c, cs, hcs, hc⟩ := exists_compact_eq_cons h.1
    have htext : (Json.arr (a :: as)).compact.toList ++ rest =
        '[' :: ((compactItems (a :: as)).toList ++ ']' :: rest) := by
      simp [compact]
    rw [toList_compactItems, hcs, List.cons_append, List.cons_append] at htext hitems
    rw [htext, readValue_arr hc, hitems]
    rfl
  | .obj [], rest, depth, o, hd, _, _, _ => by
    obtain ⟨n, rfl⟩ : ∃ n, depth = n + 1 := ⟨depth - 1, by rw [Json.depth] at hd; omega⟩
    exact readValue_obj_nil
  | .obj ((k, a) :: as), rest, depth, o, hd, h, hcover, hrest => by
    obtain ⟨n, rfl⟩ : ∃ n, depth = n + 1 := ⟨depth - 1, by rw [Json.depth] at hd; omega⟩
    rw [Json.depth] at hd
    have hlen := length_le_compactFields ((k, a) :: as)
    have hfuel :
        ((k, a) :: as).length ≤
        ((compactFields ((k, a) :: as)).toList ++ '\x7d' :: rest).length := by
      simp only [List.length_append, List.length_cons] at hlen ⊢
      omega
    have hfields := readFields_compact ((k, a) :: as) [] rest (List.cons_ne_nil _ as)
      (Nat.le_of_succ_le_succ hd) hfuel h hcover
    have htext : (Json.obj ((k, a) :: as)).compact.toList ++ rest =
        '\x7b' :: ((compactFields ((k, a) :: as)).toList ++ '\x7d' :: rest) := by
      simp [compact]
    rw [toList_compactFields, List.append_assoc, toList_quoted] at htext hfields
    rw [htext, readValue_obj, hfields]
    rfl

theorem readItems_compact : ∀ (items : List Json) (acc : List Json) (rest : List Char)
    {depth fuel i : Nat} {o : Outline}, items ≠ [] → depthOfItems items ≤ depth →
      items.length ≤ fuel → LegibleItems items → CoversItems o i items →
      readItems (fun i => readValue depth (o.item i)) fuel i acc
        ((compactItems items).toList ++ ']' :: rest) = some (acc.reverse ++ items, rest)
  | [], _, _, _, _, _, _, hne, _, _, _, _ => absurd rfl hne
  | a :: as, acc, rest, depth, fuel, i, o, _, hd, hfuel, h, hcover => by
    rw [List.length_cons] at hfuel
    obtain ⟨m, rfl⟩ : ∃ m, fuel = m + 1 := ⟨fuel - 1, by omega⟩
    rw [depthOfItems] at hd
    have ha : a.depth ≤ depth := by omega
    rw [toList_compactItems]
    by_cases has : as = []
    · have hread := readValue_compact a (']' :: rest) ha h.1 hcover.1
        (closes_cons.mpr (.inr (.inl rfl)))
      rw [if_pos has, List.append_nil, readItems_last hread, List.reverse_cons, has]
    · have hread :=
        readValue_compact a (',' :: ((compactItems as).toList ++ ']' :: rest)) ha h.1 hcover.1
        (closes_cons.mpr (.inl rfl))
      rw [if_neg has, List.append_assoc, List.cons_append, readItems_comma hread,
        readItems_compact as (a :: acc) rest has (by omega) (by omega) h.2 hcover.2]
      simp

theorem readFields_compact : ∀ (fields : List (String × Json)) (acc : List (String × Json))
    (rest : List Char) {depth fuel : Nat} {o : Outline}, fields ≠ [] →
      depthOfFields fields ≤ depth → fields.length ≤ fuel → LegibleFields fields →
      CoversFields o fields →
      readFields (readUnder depth o) fuel acc ((compactFields fields).toList ++ '\x7d' :: rest) =
        some (acc.reverse ++ fields, rest)
  | [], _, _, _, _, _, hne, _, _, _, _ => absurd rfl hne
  | (k, a) :: as, acc, rest, depth, fuel, o, _, hd, hfuel, h,
  ⟨⟨part, hpart, hcover⟩, hcovers⟩ => by
    rw [List.length_cons] at hfuel
    obtain ⟨m, rfl⟩ : ∃ m, fuel = m + 1 := ⟨fuel - 1, by omega⟩
    rw [depthOfFields] at hd
    have ha : a.depth ≤ depth := by omega
    have hunder : ∀ rest, Closes rest →
        readUnder depth o k (a.compact.toList ++ rest) = some (some a, rest) := by
      intro rest hrest
      simp only [readUnder, hpart, readValue_compact a rest ha h.1 hcover hrest, Option.map_some]
    rw [toList_compactFields]
    by_cases has : as = []
    · have hread := hunder ('\x7d' :: rest) (closes_cons.mpr (.inr (.inr rfl)))
      rw [if_pos has, List.append_nil, List.append_assoc, List.cons_append, readFields_last hread,
        List.reverse_cons, has]
    · have hread := hunder (',' :: ((compactFields as).toList ++ '\x7d' :: rest))
        (closes_cons.mpr (.inl rfl))
      rw [if_neg has, List.append_assoc, List.cons_append, List.append_assoc, List.cons_append,
        readFields_comma hread,
        readFields_compact as ((k, a) :: acc) rest has (by omega) (by omega) h.2 hcovers]
      simp

end

/-- The text of a legible value is read back in full. -/
theorem readOutline_compact (hd : v.depth ≤ depthLimit) (h : v.Legible) (hcover : Covers o v) :
    readOutline o v.compact = some v := by
  have hread := readValue_compact v [] hd h hcover closes_nil
  rw [List.append_nil] at hread
  rw [readOutline, hread]
  rfl

end Json

end Patchbay
