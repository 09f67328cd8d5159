import Patchbay.Json.Printer
import Patchbay.Json.Reader

/-!
# Strings and numbers that are read back

The text of a string is read back as that string, and the text of a whole number within 64 bits as
that number, whatever follows. A number ends where a comma or a bracket follows it (`Json.Closes`).
Doubles are read back when their text is (`Double.Legible`): reading rounds twice, so that this
does not hold for all.
-/

namespace Patchbay.Json

/-! ### Strings -/

theorem toList_foldl_append {α : Type} (f : α → String) (as : List α) (s : String) :
    (as.foldl (fun acc a => acc ++ f a) s).toList = s.toList ++ as.flatMap fun a =>
    (f a).toList := by
  induction as generalizing s with
  | nil => simp
  | cons a rest ih => simp [ih]

theorem toList_quoted (s : String) (rest : List Char) :
    (Quoted.json s).toList ++ rest =
      '"' :: (s.toList.flatMap (fun c => (Quoted.jsonChar c).toList) ++ '"' :: rest) := by
  simp [Quoted.json, toList_foldl_append]

theorem hexDigit?_digitChar : ∀ n < 16, hexDigit? n.digitChar = some n := by decide

theorem toList_hexPadded_control :
    ∀ n < 0x20, List.replicate (4 - (Nat.toDigits 16 n).length) '0' ++
    Nat.toDigits 16 n = ['0', '0', (n / 16).digitChar, (n % 16).digitChar] := by decide

/-- A control character is written as its code unit. -/
theorem readEscape_control {n : Nat} (h : n < 0x20) (rest : List Char) :
    readEscape ('u' :: ((Quoted.hexPadded 4 n).toList ++ rest)) = some (Char.ofNat n, rest) := by
  have hzero : hexDigit? '0' = some 0 := rfl
  have hvalue : ((0 * 16 + 0) * 16 + n / 16) * 16 + n % 16 = n := by omega
  rw [Quoted.hexPadded, String.toList_ofList, toList_hexPadded_control n h]
  simp only [readEscape, List.cons_append, List.nil_append, readUnicode, readHex4, hzero,
    hexDigit?_digitChar _ (show n / 16 < 16 by omega),
    hexDigit?_digitChar _ (Nat.mod_lt n (by decide)),
    hvalue]
  rw [if_neg (by omega), if_neg (by omega)]

/-- One character of a string is read back. -/
theorem readString_jsonChar (fuel : Nat) (acc : List Char) (c : Char) (rest : List Char) :
    readString (fuel + 1) acc ((Quoted.jsonChar c).toList ++ rest) = readString fuel
    (c :: acc) rest := by
  unfold Quoted.jsonChar
  split
  -- the characters that have an escape of their own
  iterate 7
    · simp [readString, readEscape]
  rename_i hquote hslash _ _ _ _ _
  split
  · rename_i hcontrol
    have hchar : Char.ofNat c.toNat = c := Char.ofNat_toNat c
    rw [String.toList_append, List.append_assoc]
    have hread := readEscape_control hcontrol rest
    rw [hchar] at hread
    simp [readString, hread]
  · rename_i hcontrol
    have hquote : ¬ c = '"' := hquote
    have hslash : ¬ c = '\\' := hslash
    simp [readString, hquote, hslash, hcontrol]

/-- A string is read back. -/
theorem readString_flatMap (cs : List Char) {fuel : Nat} (h : cs.length < fuel)
    (acc rest : List Char) :
    readString fuel acc (cs.flatMap (fun c => (Quoted.jsonChar c).toList) ++ '"' :: rest) =
      some (String.ofList (acc.reverse ++ cs), rest) := by
  induction cs generalizing fuel acc with
  | nil =>
    obtain ⟨n, rfl⟩ : ∃ n, fuel = n + 1 := ⟨fuel - 1, by simp at h; omega⟩
    simp [readString]
  | cons c cs ih =>
    rw [List.length_cons] at h
    obtain ⟨n, rfl⟩ : ∃ n, fuel = n + 1 := ⟨fuel - 1, by omega⟩
    rw [List.flatMap_cons, List.append_assoc, readString_jsonChar, ih (by omega)]
    simp

theorem readString_quoted (s : String) (rest : List Char) {fuel : Nat}
    (h : s.toList.length < fuel) :
    readString fuel [] (s.toList.flatMap (fun c => (Quoted.jsonChar c).toList) ++ '"' :: rest) =
      some (s, rest) := by
  rw [readString_flatMap _ h]
  simp

/-! ### Where a number ends -/

/-- The text is over, or goes on with a comma or the end of a container. -/
def Closes (rest : List Char) : Prop := ∀ c ∈ rest.head?, c = ',' ∨ c = ']' ∨ c = '\x7d'

theorem closes_nil : Closes [] := by simp [Closes]

theorem closes_cons {c : Char} {rest : List Char} :
    Closes (c :: rest) ↔ c = ',' ∨ c = ']' ∨ c = '\x7d' := by
  simp [Closes]

variable {rest : List Char}

/-- What is read when more text follows that is left alone. -/
def Read.before {α : Type} (r : Read α) (rest : List Char) : Read α :=
  r.map fun (a, cs) => (a, cs ++ rest)

theorem not_isDigit_of_closes {c : Char} (h : Closes (c :: rest)) : c.isDigit = false := by
  rcases closes_cons.mp h with rfl | rfl | rfl <;> rfl

theorem takeDigits_append (h : Closes rest) (fraction : Bool) (s : Digits) (cs : List Char) :
    takeDigits fraction s (cs ++ rest) =
      ((takeDigits fraction s cs).1, (takeDigits fraction s cs).2 ++ rest) := by
  induction cs generalizing s with
  | nil =>
    cases rest with
    | nil => rfl
    | cons c rest =>
      rcases closes_cons.mp h with rfl | rfl | rfl <;> rfl
  | cons c cs ih =>
    rw [List.cons_append, takeDigits, takeDigits]
    cases digit? c with
    | none => rfl
    | some d => exact ih _

theorem dropWhile_isDigit_append (h : Closes rest) (cs : List Char) :
    (cs ++ rest).dropWhile Char.isDigit = cs.dropWhile Char.isDigit ++ rest := by
  induction cs with
  | nil =>
    cases rest with
    | nil => rfl
    | cons c rest => simp [not_isDigit_of_closes h]
  | cons c cs ih =>
    cases hc : c.isDigit <;> simp [hc, ih]

theorem takeWhile_isDigit_append (h : Closes rest) (cs : List Char) :
    (cs ++ rest).takeWhile Char.isDigit = cs.takeWhile Char.isDigit := by
  induction cs with
  | nil =>
    cases rest with
    | nil => rfl
    | cons c rest => simp [not_isDigit_of_closes h]
  | cons c cs ih =>
    cases hc : c.isDigit <;> simp [hc, ih]

theorem finishDouble_append (negative : Bool) (s : Digits) (e : Int) (cs rest : List Char) :
    finishDouble negative s e (cs ++ rest) = Read.before (finishDouble negative s e cs) rest := by
  rw [finishDouble, finishDouble]
  split
  · split <;> rfl
  · rw [Read.before, Option.map_map]
    rfl

theorem exponentDigits_append (h : Closes rest) (sign : Int) (cs : List Char) :
    exponentDigits sign (cs ++ rest) = Read.before (exponentDigits sign cs) rest := by
  cases cs with
  | nil =>
    cases rest with
    | nil => rfl
    | cons c rest => simp [exponentDigits, not_isDigit_of_closes h, Read.before]
  | cons c cs =>
    rw [List.cons_append, exponentDigits, exponentDigits, ← List.cons_append,
      takeWhile_isDigit_append h, dropWhile_isDigit_append h]
    cases hc : c.isDigit <;> simp [Read.before]

theorem readExponent_append (h : Closes rest) (cs : List Char) :
    readExponent (cs ++ rest) = Read.before (readExponent cs) rest := by
  cases cs with
  | nil =>
    cases rest with
    | nil => rfl
    | cons c rest => rcases closes_cons.mp h with rfl | rfl | rfl <;> rfl
  | cons c cs =>
    by_cases hplus : c = '+'
    · subst hplus
      exact exponentDigits_append h 1 cs
    · by_cases hminus : c = '-'
      · subst hminus
        exact exponentDigits_append h (-1) cs
      · simpa [readExponent, hplus, hminus] using exponentDigits_append h 1 (c :: cs)

theorem readScale_append (h : Closes rest) (negative : Bool) (s : Digits) (cs : List Char) :
    readScale negative s (cs ++ rest) = Read.before (readScale negative s cs) rest := by
  have hexp : ∀ cs, ((readExponent (cs ++ rest)).bind fun r => finishDouble negative s r.1 r.2) =
      Read.before ((readExponent cs).bind fun r => finishDouble negative s r.1 r.2) rest := by
    intro cs
    rw [readExponent_append h]
    cases readExponent cs with
    | none => rfl
    | some r => exact finishDouble_append negative s r.1 r.2 rest
  cases cs with
  | nil =>
    have hdone := finishDouble_append negative s 0 [] rest
    cases rest with
    | nil => exact hdone
    | cons c rest => rcases closes_cons.mp h with rfl | rfl | rfl <;> exact hdone
  | cons c cs =>
    by_cases he : c = 'e'
    · subst he
      exact hexp cs
    · by_cases hE : c = 'E'
      · subst hE
        exact hexp cs
      · simpa [readScale, he, hE] using finishDouble_append negative s 0 (c :: cs) rest

theorem readFraction_append (h : Closes rest) (negative : Bool) (s : Digits) (cs : List Char) :
    readFraction negative s (cs ++ rest) = Read.before (readFraction negative s cs) rest := by
  cases cs with
  | nil =>
    have hdone := readScale_append h negative s []
    cases rest with
    | nil => exact hdone
    | cons c rest => rcases closes_cons.mp h with rfl | rfl | rfl <;> exact hdone
  | cons c cs =>
    by_cases hpoint : c = '.'
    · subst hpoint
      cases cs with
      | nil =>
        cases rest with
        | nil => rfl
        | cons c rest => simp [readFraction, not_isDigit_of_closes h, Read.before]
      | cons d cs =>
        simp only [readFraction, List.cons_append]
        rw [← List.cons_append, takeDigits_append h]
        cases d.isDigit with
        | false => rfl
        | true => exact readScale_append h _ _ _
    · simpa [readFraction, hpoint] using readScale_append h negative s (c :: cs)


theorem readRest_append (h : Closes rest) (negative zero : Bool) (s : Digits) (cs : List Char) :
    readRest negative zero s (cs ++ rest) = Read.before (readRest negative zero s cs) rest := by
  cases cs with
  | nil =>
    cases rest with
    | nil =>
      rw [List.append_nil, readRest]
      cases s.full with
      | false => rfl
      | true => exact finishDouble_append negative s 0 [] []
    | cons c rest =>
      have hdone : readRest negative zero s (c :: rest) =
          if s.full then finishDouble negative s 0 (c :: rest)
          else some (wholeNumber negative s.value, c :: rest) := by
        rcases closes_cons.mp h with rfl | rfl | rfl <;> simp [readRest]
      rw [List.nil_append, hdone, readRest]
      cases s.full with
      | false => rfl
      | true => exact finishDouble_append negative s 0 [] _
  | cons c cs =>
    by_cases hmark : c = '.' ∨ c = 'e' ∨ c = 'E'
    · rcases hmark with rfl | rfl | rfl
      · exact readFraction_append h negative s ('.' :: cs)
      · exact readFraction_append h negative s ('e' :: cs)
      · exact readFraction_append h negative s ('E' :: cs)
    · rw [not_or, not_or] at hmark
      obtain ⟨hpoint, he, hE⟩ := hmark
      simp only [readRest, List.cons_append]
      cases zero && c.isDigit with
      | true => rfl
      | false =>
        cases s.full with
        | false => rfl
        | true => exact finishDouble_append negative s 0 (c :: cs) rest

theorem readUnsigned_append (h : Closes rest) (negative : Bool) (cs : List Char) :
    readUnsigned negative (cs ++ rest) = Read.before (readUnsigned negative cs) rest := by
  cases cs with
  | nil =>
    cases rest with
    | nil => rfl
    | cons c rest => simp [readUnsigned, not_isDigit_of_closes h, Read.before]
  | cons c cs =>
    simp only [readUnsigned, List.cons_append]
    rw [← List.cons_append, takeDigits_append h]
    cases c.isDigit with
    | false => rfl
    | true =>
      cases c == '0' with
      | true => exact readRest_append h negative true _ cs
      | false => exact readRest_append h negative false _ _

/-- A number ends where a comma or the end of a container follows. -/
theorem readNumber_append (h : Closes rest) (cs : List Char) :
    readNumber (cs ++ rest) = Read.before (readNumber cs) rest := by
  cases cs with
  | nil =>
    have hdone := readUnsigned_append h false []
    cases rest with
    | nil => exact hdone
    | cons c rest => rcases closes_cons.mp h with rfl | rfl | rfl <;> exact hdone
  | cons c cs =>
    by_cases hminus : c = '-'
    · subst hminus
      exact readUnsigned_append h true cs
    · simpa [readNumber, hminus] using readUnsigned_append h false (c :: cs)

/-! ### Whole numbers -/

theorem digit?_digitChar {n : Nat} (h : n < 10) : digit? n.digitChar = some n := by
  have hdigits : ∀ n < 10, digit? n.digitChar = some n := by decide
  exact hdigits n h

theorem takeDigits_of_done {fraction : Bool} {s t : Digits} {cs : List Char}
    (h : takeDigits fraction s cs = (t, [])) (ds : List Char) :
    takeDigits fraction s (cs ++ ds) = takeDigits fraction t ds := by
  induction cs generalizing s with
  | nil =>
    cases h
    rfl
  | cons c cs ih =>
    rw [takeDigits] at h
    rw [List.cons_append, takeDigits]
    cases hd : digit? c with
    | none => simp [hd] at h
    | some d =>
      rw [hd] at h
      exact ih h

theorem takeDigits_toDigits (n : Nat) (h : n < 0x10000000000000000) :
    takeDigits false ⟨0, 0, false⟩ (Nat.toDigits 10 n) = (⟨n, 0, false⟩, []) := by
  induction n using Nat.strongRecOn with
  | ind n ih =>
    by_cases hlt : n < 10
    · rw [Nat.toDigits_of_lt_base hlt]
      simpa [takeDigits, digit?_digitChar hlt, Digits.push] using h
    · rw [Nat.toDigits_of_base_le (by decide) (by omega),
        takeDigits_of_done (ih (n / 10) (by omega) (by omega))]
      have hvalue : n / 10 * 10 + n % 10 = n := by omega
      have hfits : ¬ 0x10000000000000000 ≤ n := by omega
      simp [takeDigits, digit?_digitChar (Nat.mod_lt n (by decide)), Digits.push, hvalue, hfits]

/-- The decimal digits of a number other than zero do not start with zero. -/
theorem exists_toDigits_eq_cons (n : Nat) : ∃ c cs, Nat.toDigits 10 n = c :: cs ∧
    c.isDigit = true ∧
    (c = '0' → n = 0 ∧ cs = []) := by
  induction n using Nat.strongRecOn with
  | ind n ih =>
    by_cases hlt : n < 10
    · refine ⟨n.digitChar, [], Nat.toDigits_of_lt_base hlt, ?_, fun hzero => ?_⟩
      · rw [Nat.isDigit_digitChar]
        exact decide_eq_true hlt
      · exact ⟨Nat.digitChar_eq_zero.mp hzero, rfl⟩
    · obtain ⟨c, cs, hcs, hdigit, hzero⟩ := ih (n / 10) (by omega)
      refine ⟨c, cs ++ [(n % 10).digitChar], ?_, hdigit, fun h => ?_⟩
      · rw [Nat.toDigits_of_base_le (by decide) (by omega), hcs, List.cons_append]
      · have := (hzero h).1
        omega

theorem readUnsigned_toDigits (negative : Bool) {n : Nat} (h : n < 0x10000000000000000) :
    readUnsigned negative (Nat.toDigits 10 n) = some (wholeNumber negative n, []) := by
  obtain ⟨c, cs, hcs, hdigit, hzero⟩ := exists_toDigits_eq_cons n
  have htake := takeDigits_toDigits n h
  rw [hcs] at htake ⊢
  simp only [readUnsigned, hdigit, Bool.not_true, Bool.false_eq_true, if_false]
  by_cases hc : c = '0'
  · obtain ⟨rfl, rfl⟩ := hzero hc
    subst hc
    rfl
  · rw [if_neg (by simpa using hc), htake]
    rfl

theorem readNumber_of_isDigit {c : Char} (h : c.isDigit = true) (cs : List Char) :
    readNumber (c :: cs) = readUnsigned false (c :: cs) := by
  have hminus : ¬ c = '-' := by
    rintro rfl
    cases h
  simp [readNumber, hminus]

/-- A whole number within 64 bits is read back. -/
theorem readNumber_toString {n : Int} (hlo : -0x8000000000000000 ≤ n)
    (hhi : n < 0x10000000000000000) :
    readNumber (toString n).toList = some (.int n, []) := by
  rw [Int.toString_eq_repr, Int.repr_eq_if]
  split
  · obtain ⟨c, cs, hcs, hdigit, -⟩ := exists_toDigits_eq_cons n.toNat
    have hn : (n.toNat : Int) = n := by omega
    rw [Nat.toList_repr, hcs, readNumber_of_isDigit hdigit, ← hcs,
      readUnsigned_toDigits _ (by omega)]
    simp [wholeNumber, hn]
  · have hn : -((-n).toNat : Int) = n := by omega
    have hzero : ¬ ((-n).toNat = 0 ∨ 0x8000000000000000 < (-n).toNat) := by omega
    rw [String.toList_append, Nat.toList_repr]
    change readUnsigned true (Nat.toDigits 10 (-n).toNat) = _
    rw [readUnsigned_toDigits _ (by omega), wholeNumber, if_neg (by simp), if_neg hzero, hn]

end Patchbay.Json
