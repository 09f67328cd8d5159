import Patchbay.Constraint.Text
import Patchbay.Proofs.Constraint.Meet
import Patchbay.Proofs.Json.Tokens
import Patchbay.Proofs.Number.Layouts

/-!
# Renderings tell constraints

The order of constraints of one kind is that of their renderings, so it has no ties if no two
constraints are rendered alike (`Constraint.rendered_injective`). A rendering is a text of parts,
and no part runs into what follows: what is left of a text behind a part, and which part it was,
can be read off the text (`Parted`).
-/

namespace Patchbay

variable {α : Type} {f : α → String} {a b : α} {us vs : List Char}

/-! ### Parts of a text -/

/-- Nothing follows, or something that separates or closes parts. -/
def Ends (us : List Char) : Prop := ∀ c ∈ us.head?, c ∈ [',', ')', ']', '\x7d', ' ', ':']

theorem ends_nil : Ends [] := nofun

theorem ends_cons {c : Char} (h : c ∈ [',', ')', ']', '\x7d', ' ', ':']) (us : List Char) :
    Ends (c :: us) := by
  intro x hx
  obtain rfl : c = x := by simpa using hx
  exact h

theorem Ends.not_isAlpha (h : Ends us) : ∀ c ∈ us.head?, ¬c.isAlpha = true := by
  intro c hc
  have hmem := h c hc
  simp only [List.mem_cons, List.not_mem_nil, or_false] at hmem
  rcases hmem with rfl | rfl | rfl | rfl | rfl | rfl <;> decide

theorem Ends.not_numeric (h : Ends us) : ∀ c ∈ us.head?, ¬Double.Numeric c := by
  intro c hc
  have hmem := h c hc
  simp only [List.mem_cons, List.not_mem_nil, or_false] at hmem
  rcases hmem with rfl | rfl | rfl | rfl | rfl | rfl <;> simp [Double.Numeric]

/-- Where the part ends, and that it is this one, shows in any text it begins. -/
def Parted (f : α → String) (a : α) : Prop :=
  ∀ b us vs, Ends us → Ends vs → (f a).toList ++ us = (f b).toList ++ vs → a = b ∧ us = vs

theorem Parted.eq (h : Parted f a) (heq : f a = f b) : a = b :=
  (h b [] [] ends_nil ends_nil (by rw [heq])).1

theorem parted_of_numeric (hnumeric : ∀ a, ∀ c ∈ (f a).toList, Double.Numeric c)
    (hinj : ∀ a b, (f a).toList = (f b).toList → a = b) (a : α) : Parted f a := by
  intro b us vs hus hvs h
  obtain ⟨htext, hrest⟩ := eq_of_append_eq (hnumeric a)
    (hnumeric b) hus.not_numeric hvs.not_numeric h
  exact ⟨hinj a b htext, hrest⟩

theorem parted_optional {x y : Option α} (h : ∀ a ∈ x, Parted f a)
    (heq : (renderedOption (x.map f)).toList ++ us = (renderedOption (y.map f)).toList ++ vs) :
    x = y ∧ us = vs := by
  have hopen : "None".toList = ['N', 'o', 'n', 'e'] ∧ "Some(".toList = ['S', 'o', 'm', 'e', '('] :=
    ⟨rfl, rfl⟩
  cases x with
  | none =>
    cases y with
    | none => exact ⟨rfl, List.append_cancel_left heq⟩
    | some b => simp [renderedOption, hopen] at heq
  | some a =>
    cases y with
    | none => simp [renderedOption, hopen] at heq
    | some b =>
      simp only [Option.map_some, renderedOption, String.toList_append, List.append_assoc,
        List.append_cancel_left_eq] at heq
      obtain ⟨rfl, hrest⟩ := h a rfl _ _ _ (ends_cons (by decide) _) (ends_cons (by decide) _) heq
      exact ⟨rfl, List.append_cancel_left (show ")".toList ++ us = ")".toList ++ vs from hrest)⟩

/-- Each part with the separator before it. -/
def separated (f : α → String) (as : List α) : List Char :=
  as.flatMap fun a => ", ".toList ++ (f a).toList

theorem toList_joinWith (f : α → String) (a : α) (as : List α) :
    (joinWith ", " ((a :: as).map f)).toList = (f a).toList ++ separated f as := by
  induction as generalizing a with
  | nil => simp [joinWith, separated]
  | cons b as ih =>
    rw [List.map_cons, List.map_cons, joinWith, String.toList_append, String.toList_append,
      ← List.map_cons, ih]
    · simp [separated]
    · exact List.cons_ne_nil _ _

theorem ends_separated {close : Char} (hclose : close ∈ [']', '\x7d']) (as : List α) :
    Ends (separated f as ++ close :: us) := by
  cases as with
  | nil =>
    have hmem : ∀ c ∈ [']', '\x7d'], c ∈ [',', ')', ']', '\x7d', ' ', ':'] := by simp
    exact ends_cons (hmem close hclose) _
  | cons a as => exact ends_cons (by decide) _

theorem separated_inj {close : Char} (hclose : close ∈ [']', '\x7d']) {as bs : List α}
    (h : ∀ a ∈ as, Parted f a)
    (heq : separated f as ++ close :: us = separated f bs ++ close :: vs) : as = bs ∧ us = vs := by
  have hcomma : close ≠ ',' := by
    rintro rfl
    exact absurd hclose (by decide)
  have hsep : ", ".toList = [',', ' '] := rfl
  induction as generalizing bs with
  | nil =>
    cases bs with
    | nil => exact ⟨rfl, (List.cons.inj heq).2⟩
    | cons b bs => simp [separated, hsep, hcomma] at heq
  | cons a as ih =>
    cases bs with
    | nil => simp [separated, hsep, hcomma.symm] at heq
    | cons b bs =>
      simp only [separated, List.flatMap_cons, List.append_assoc,
        List.append_cancel_left_eq] at heq
      obtain ⟨rfl, hrest⟩ :=
        h a List.mem_cons_self _ _ _ (ends_separated hclose as) (ends_separated hclose bs) heq
      obtain ⟨rfl, rfl⟩ := ih (fun x hx => h x (List.mem_cons_of_mem _ hx)) hrest
      exact ⟨rfl, rfl⟩

/-- Parts between brackets, none of which begins with the closing one. -/
theorem joined_inj (close : Char) (hclose : close ∈ [']', '\x7d'])
    (hhead : ∀ a : α, ∃ c cs, (f a).toList = c :: cs ∧ c ≠ close) {as bs : List α}
    (h : ∀ a ∈ as, Parted f a)
    (heq : (joinWith ", " (as.map f)).toList ++ close :: us = (joinWith ", " (bs.map f)).toList ++
      close :: vs) :
    as = bs ∧ us = vs := by
  cases as with
  | nil =>
    cases bs with
    | nil => exact ⟨rfl, (List.cons.inj heq).2⟩
    | cons b bs =>
      obtain ⟨c, cs, hb, hc⟩ := hhead b
      rw [toList_joinWith, hb] at heq
      exact absurd (List.cons.inj heq).1.symm hc
  | cons a as =>
    cases bs with
    | nil =>
      obtain ⟨c, cs, ha, hc⟩ := hhead a
      rw [toList_joinWith, ha] at heq
      exact absurd (List.cons.inj heq).1 hc
    | cons b bs =>
      rw [toList_joinWith, toList_joinWith, List.append_assoc, List.append_assoc] at heq
      obtain ⟨rfl, hrest⟩ :=
        h a List.mem_cons_self _ _ _ (ends_separated hclose as) (ends_separated hclose bs) heq
      obtain ⟨rfl, rfl⟩ := separated_inj hclose (fun x hx => h x (List.mem_cons_of_mem _ hx)) hrest
      exact ⟨rfl, rfl⟩

/-! ### Strings -/

namespace Quoted

/-- Characters with an escape of their own, and what stands for them behind a backslash. -/
def escapes : List (Char × Char) :=
  [('"', '"'), ('\\', '\\'), ('\n', 'n'), ('\r', 'r'), ('\t', 't'), ('\x00', '0')]

/-- How a character is written inside a rendered string. -/
inductive Spelling : Char → List Char → Prop where
  | itself {c : Char} (hquote : c ≠ '"') (hslash : c ≠ '\\') : Spelling c [c]
  | escape {c x : Char} (h : (c, x) ∈ escapes) : Spelling c ['\\', x]
  | code (c : Char) : Spelling c ('\\' :: 'u' :: '\x7b' :: (Nat.toDigits 16 c.toNat ++ ['\x7d']))

theorem spelling (c : Char) : Spelling c (renderedChar c).toList := by
  have hcode : "\\u\x7b".toList = ['\\', 'u', '\x7b'] := rfl
  unfold renderedChar
  split
  iterate 6
    · exact .escape (by decide)
  rename_i hquote hslash _ _ _ _
  split
  · rw [String.toList_append, String.toList_append, hcode, hex, String.toList_ofList]
    exact .code c
  · rw [String.toList_singleton]
    exact .itself hquote hslash

theorem escapes_inj : ∀ p ∈ escapes, ∀ q ∈ escapes, p.2 = q.2 → p.1 = q.1 := by decide

theorem ne_u_of_mem_escapes : ∀ p ∈ escapes, p.2 ≠ 'u' := by decide

theorem ne_of_mem_toDigits (n : Nat) : ∀ c ∈ Nat.toDigits 16 n, c ≠ '\x7d' := by
  have hdigit : ∀ i : Nat, i.digitChar ≠ '\x7d' := fun i => by simp
  induction n using Nat.strongRecOn with
  | ind n ih =>
    rw [Nat.toDigits_eq_if (by decide)]
    split
    · exact List.forall_mem_singleton.mpr (hdigit n)
    · rename_i hn
      exact List.forall_mem_append.mpr ⟨ih (n / 16) (Nat.div_lt_self (by omega) (by decide)),
        List.forall_mem_singleton.mpr (hdigit _)⟩

/-- The text of a character shows where it ends and which character it is of. -/
theorem Spelling.unique {c d : Char} {cs ds : List Char} (hc : Spelling c cs) (hd : Spelling d ds)
    (h : cs ++ us = ds ++ vs) : c = d ∧ us = vs := by
  cases hc with
  | itself _ hslash =>
    cases hd with
    | itself => exact List.cons.inj h
    | escape | code => exact absurd (List.cons.inj h).1 hslash
  | escape hmem =>
    cases hd with
    | itself _ hslash => exact absurd (List.cons.inj h).1.symm hslash
    | escape hmem' =>
      obtain ⟨hx, hrest⟩ := List.cons.inj (List.cons.inj h).2
      exact ⟨escapes_inj _ hmem _ hmem' hx, hrest⟩
    | code => exact absurd (List.cons.inj (List.cons.inj h).2).1 (ne_u_of_mem_escapes _ hmem)
  | code =>
    cases hd with
    | itself _ hslash => exact absurd (List.cons.inj h).1.symm hslash
    | escape hmem =>
      exact absurd (List.cons.inj (List.cons.inj h).2).1.symm (ne_u_of_mem_escapes _ hmem)
    | code =>
      have hclose : ∀ xs : List Char, ∀ x ∈ ('\x7d' :: xs).head?, ¬x ≠ '\x7d' := by simp
      simp only [List.cons_append, List.cons_inj_right, List.append_assoc, List.nil_append] at h
      obtain ⟨hdigits, hrest⟩ :=
        eq_of_append_eq (ne_of_mem_toDigits _) (ne_of_mem_toDigits _) (hclose us) (hclose vs) h
      exact ⟨Char.toNat_inj.mp (toDigits_inj (by decide) (by decide) hdigits),
        (List.cons.inj hrest).2⟩

theorem Spelling.exists_cons {c : Char} {cs : List Char} (h : Spelling c cs) :
    ∃ x xs, cs = x :: xs ∧ x ≠ '"' := by
  cases h with
  | itself hquote => exact ⟨c, [], rfl, hquote⟩
  | escape | code => exact ⟨'\\', _, rfl, by decide⟩

theorem toList_rendered (s : String) : (rendered s).toList =
    '"' :: (s.toList.flatMap (fun c => (renderedChar c).toList) ++ ['"']) := by
  simp [rendered, Json.toList_foldl_append]

theorem parted_rendered (s : String) : Parted rendered s := by
  have hchars : ∀ (cs ds : List Char) {us vs : List Char},
      cs.flatMap (fun c => (renderedChar c).toList) ++ '"' :: us =
        ds.flatMap (fun c => (renderedChar c).toList) ++ '"' :: vs → cs = ds ∧ us = vs := by
    intro cs
    induction cs with
    | nil =>
      intro ds us vs h
      cases ds with
      | nil => exact ⟨rfl, (List.cons.inj h).2⟩
      | cons d ds =>
        obtain ⟨x, xs, hd, hx⟩ := (spelling d).exists_cons
        rw [List.flatMap_cons, hd] at h
        exact absurd (List.cons.inj h).1.symm hx
    | cons c cs ih =>
      intro ds us vs h
      cases ds with
      | nil =>
        obtain ⟨x, xs, hc, hx⟩ := (spelling c).exists_cons
        rw [List.flatMap_cons, hc] at h
        exact absurd (List.cons.inj h).1 hx
      | cons d ds =>
        rw [List.flatMap_cons, List.flatMap_cons, List.append_assoc, List.append_assoc] at h
        obtain ⟨rfl, hrest⟩ := (spelling c).unique (spelling d) h
        obtain ⟨rfl, rfl⟩ := ih ds hrest
        exact ⟨rfl, rfl⟩
  intro t us vs _ _ h
  simp only [toList_rendered, List.cons_append, List.cons_inj_right, List.append_assoc,
    List.nil_append] at h
  obtain ⟨hst, rfl⟩ := hchars s.toList t.toList h
  exact ⟨String.toList_inj.mp hst, rfl⟩

end Quoted

theorem parted_texts (texts : List String) :
    Parted (fun l : List String => renderedList (l.map Quoted.rendered)) texts := by
  intro texts' us vs _ _ h
  have hhead : ∀ s : String, ∃ c cs, (Quoted.rendered s).toList = c :: cs ∧ c ≠ ']' :=
    fun s => ⟨'"', _, Quoted.toList_rendered s, by decide⟩
  simp only [renderedList, String.toList_append, List.append_assoc,
    List.append_cancel_left_eq] at h
  exact joined_inj ']' (by decide) hhead (fun s _ => Quoted.parted_rendered s) h

theorem parted_toString (x : Int) : Parted (fun x : Int => toString x) x :=
  parted_of_numeric Double.numeric_toString (fun _ _ => Double.toString_int_inj) x

theorem parted_render {l : Double.Layout} (hl : l.Plain) (d : Double) :
    Parted (Double.render l) d :=
  parted_of_numeric (Double.numeric_render hl) (fun _ _ => Double.eq_of_render hl) d

/-! ### Values -/

namespace Json

theorem renderedItems_eq_map (items : List Json) : renderedItems items = items.map rendered := by
  induction items with
  | nil => rfl
  | cons a items ih => rw [renderedItems, ih, List.map_cons]

/-- The rendering of a field. -/
def renderedField (p : String × Json) : String := Quoted.rendered p.1 ++ ": " ++ p.2.rendered

theorem renderedFields_eq_map (fields : List (String × Json)) :
    renderedFields fields = fields.map renderedField := by
  induction fields with
  | nil => rfl
  | cons p fields ih => rw [renderedFields, ih, List.map_cons, renderedField]

theorem exists_rendered_eq_cons (a : Json) : ∃ c cs, a.rendered.toList = c :: cs ∧ c ≠ ']' := by
  cases a <;> simp [rendered]

theorem exists_renderedField_eq_cons (p : String × Json) :
    ∃ c cs, (renderedField p).toList = c :: cs ∧ c ≠ '\x7d' := by
  simp [renderedField, Quoted.toList_rendered]

theorem parted_renderedField {p : String × Json} (h : Parted rendered p.2) :
    Parted renderedField p := by
  obtain ⟨k, a⟩ := p
  rintro ⟨l, b⟩ us vs hus hvs heq
  simp only [renderedField, String.toList_append, List.append_assoc] at heq
  obtain ⟨rfl, hrest⟩ :=
    Quoted.parted_rendered k l _ _ (ends_cons (by decide) _) (ends_cons (by decide) _) heq
  have hvalue : ": ".toList ++ (a.rendered.toList ++ us) =
      ": ".toList ++ (b.rendered.toList ++ vs) := hrest
  obtain ⟨rfl, rfl⟩ := h b us vs hus hvs (List.append_cancel_left hvalue)
  exact ⟨rfl, rfl⟩

/-- Parts between a word with an opening parenthesis and a closing one. -/
theorem parenthesized_inj {f : α → String} {a : α} (h : Parted f a) {b : α}
    (heq : (f a).toList ++ (")".toList ++ us) = (f b).toList ++ (")".toList ++ vs)) :
    a = b ∧ us = vs := by
  obtain ⟨hab, hrest⟩ := h b _ _ (ends_cons (by decide) _) (ends_cons (by decide) _) heq
  exact ⟨hab, List.append_cancel_left (show ")".toList ++ us = ")".toList ++ vs from hrest)⟩

theorem toString_append_ne_render (x : Int) (d : Double) (us vs : List Char) :
    (toString x).toList ++ (")".toList ++ us) ≠ (d.render .json).toList ++ (")".toList ++ vs) := by
  intro h
  refine Double.toString_ne_render Double.plain_json x d
    (eq_of_append_eq (Double.numeric_toString x)
    (Double.numeric_render Double.plain_json d) ?_ ?_ h).1
  · exact (ends_cons (c := ')') (by decide) us).not_numeric
  · exact (ends_cons (c := ')') (by decide) vs).not_numeric

mutual

theorem parted_rendered : ∀ a : Json, Parted rendered a
  | .null => by
    intro b us vs _ _ h
    cases b with
    | null => exact ⟨rfl, List.append_cancel_left h⟩
    | _ => simp [rendered] at h
  | .bool x => by
    intro b us vs _ _ h
    cases b with
    | bool y => cases x <;> cases y <;> simp_all [rendered]
    | _ => simp [rendered] at h
  | .int x => by
    intro b us vs _ _ h
    cases b with
    | int y =>
      simp only [rendered, String.toList_append, List.append_assoc,
        List.append_cancel_left_eq] at h
      obtain ⟨rfl, rfl⟩ := parenthesized_inj (parted_toString x) h
      exact ⟨rfl, rfl⟩
    | double e =>
      simp only [rendered, String.toList_append, List.append_assoc,
        List.append_cancel_left_eq] at h
      exact absurd h (toString_append_ne_render x e us vs)
    | _ => simp [rendered] at h
  | .double d => by
    intro b us vs _ _ h
    cases b with
    | int y =>
      simp only [rendered, String.toList_append, List.append_assoc,
        List.append_cancel_left_eq] at h
      exact absurd h.symm (toString_append_ne_render y d vs us)
    | double e =>
      simp only [rendered, String.toList_append, List.append_assoc,
        List.append_cancel_left_eq] at h
      obtain ⟨rfl, rfl⟩ := parenthesized_inj (parted_render Double.plain_json d) h
      exact ⟨rfl, rfl⟩
    | _ => simp [rendered] at h
  | .str t => by
    intro b us vs _ _ h
    cases b with
    | str t' =>
      simp only [rendered, String.toList_append, List.append_assoc,
        List.append_cancel_left_eq] at h
      obtain ⟨rfl, rfl⟩ := parenthesized_inj (Quoted.parted_rendered t) h
      exact ⟨rfl, rfl⟩
    | _ => simp [rendered] at h
  | .arr items => by
    intro b us vs hus hvs h
    cases b with
    | arr items' =>
      simp only [rendered, renderedItems_eq_map, String.toList_append, List.append_assoc,
        List.append_cancel_left_eq] at h
      obtain ⟨rfl, rfl⟩ :=
        joined_inj ']' (by decide) exists_rendered_eq_cons (parted_items items) h
      exact ⟨rfl, rfl⟩
    | _ => simp [rendered] at h
  | .obj fields => by
    intro b us vs hus hvs h
    cases b with
    | obj fields' =>
      simp only [rendered, renderedFields_eq_map, String.toList_append, List.append_assoc,
        List.append_cancel_left_eq] at h
      obtain ⟨rfl, rfl⟩ := joined_inj '\x7d' (by decide) exists_renderedField_eq_cons
        (parted_fields fields) h
      exact ⟨rfl, rfl⟩
    | _ => simp [rendered] at h

theorem parted_items : ∀ items : List Json, ∀ a ∈ items, Parted rendered a
  | [] => nofun
  | a :: items => List.forall_mem_cons.mpr ⟨parted_rendered a, parted_items items⟩

theorem parted_fields : ∀ fields : List (String × Json), ∀ p ∈ fields, Parted renderedField p
  | [] => nofun
  | (_, a) :: fields =>
    List.forall_mem_cons.mpr ⟨parted_renderedField (parted_rendered a), parted_fields fields⟩

end

end Json

/-! ### Constraints -/

namespace Constraint

variable {c d : Constraint}

theorem Kind.isAlpha_of_mem_name (k : Kind) : ∀ x ∈ k.name.toList, x.isAlpha = true := by
  have hall : k.name.toList.all (·.isAlpha) = true := by cases k <;> rfl
  exact List.all_eq_true.mp hall

theorem Kind.name_injective {k l : Kind} (h : k.name.toList = l.name.toList) : k = l := by
  revert h
  cases k <;> cases l <;> decide

theorem renderedAll_eq_map (cs : List Constraint) : renderedAll cs = cs.map rendered := by
  induction cs with
  | nil => rfl
  | cons c cs ih => rw [renderedAll, ih, List.map_cons]

theorem exists_rendered_eq (c : Constraint) :
    ∃ cs, c.rendered.toList = c.kind.name.toList ++ cs ∧ (cs = [] ∨ ∃ rest, cs = ' ' :: rest) := by
  cases c with
  | list items => cases items <;> simp [rendered, renderedWith, kind, Kind.name]
  | _ => simp [rendered, renderedWith, kind, Kind.name]

/-- The kind is read off a rendering up to the first character that is no letter. -/
theorem kind_eq_of_rendered (hus : Ends us) (hvs : Ends vs)
    (h : c.rendered.toList ++ us = d.rendered.toList ++ vs) : c.kind = d.kind := by
  have hstop : ∀ cs us : List Char, (cs = [] ∨ ∃ rest, cs = ' ' :: rest) → Ends us →
      ∀ x ∈ (cs ++ us).head?, ¬x.isAlpha = true := by
    rintro cs us (rfl | ⟨rest, rfl⟩) hus
    · exact hus.not_isAlpha
    · exact (ends_cons (by decide) _).not_isAlpha
  obtain ⟨cs, hc, hcs⟩ := exists_rendered_eq c
  obtain ⟨ds, hd, hds⟩ := exists_rendered_eq d
  rw [hc, hd, List.append_assoc, List.append_assoc] at h
  exact Kind.name_injective (eq_of_append_eq c.kind.isAlpha_of_mem_name d.kind.isAlpha_of_mem_name
    (hstop cs us hcs hus) (hstop ds vs hds hvs) h).1

theorem exists_rendered_eq_cons (c : Constraint) : ∃ x xs, c.rendered.toList = x :: xs ∧
    x ≠ ']' := by
  obtain ⟨cs, hc, -⟩ := exists_rendered_eq c
  rw [hc]
  cases c.kind <;> simp [Kind.name]

theorem parted_int64 (n : Int64) : Parted (fun n : Int64 => toString n.toInt) n := by
  intro m us vs hus hvs h
  obtain ⟨htoInt, rfl⟩ := parted_toString n.toInt m.toInt us vs hus hvs h
  exact ⟨Int64.toInt_inj.mp htoInt, rfl⟩

/-- A range is read off its two bounds. -/
theorem range_inj {α : Type} {f : α → String} (hf : ∀ a, Parted f a) {lo hi lo' hi' : Option α}
    {name : String}
    (h : (renderedWith name [("minimum", renderedOption (lo.map f)),
      ("maximum", renderedOption (hi.map f))]).toList ++ us =
      (renderedWith name [("minimum", renderedOption (lo'.map f)),
        ("maximum", renderedOption (hi'.map f))]).toList
        ++ vs) : (lo = lo' ∧ hi = hi') ∧ us = vs := by
  simp only [renderedWith, List.map_cons, List.map_nil, joinWith, String.toList_append,
    List.append_assoc, List.append_cancel_left_eq] at h
  obtain ⟨rfl, hmore⟩ := parted_optional (fun a _ => hf a) h
  simp only [List.append_cancel_left_eq] at hmore
  obtain ⟨rfl, hrest⟩ := parted_optional (fun a _ => hf a) hmore
  exact ⟨⟨rfl, rfl⟩, List.append_cancel_left hrest⟩

/-- A parameter is read off its rendering. -/
theorem parameter_inj {α : Type} {f : α → String} {a b : α} (hf : Parted f a) {name label : String}
    (h : (renderedWith name [(label, f a)]).toList ++ us =
      (renderedWith name [(label, f b)]).toList ++ vs) :
    a = b ∧ us = vs := by
  simp only [renderedWith, List.map_cons, List.map_nil, joinWith, String.toList_append,
    List.append_assoc, List.append_cancel_left_eq] at h
  have hspace : ∀ us, Ends (" \x7d".toList ++ us) := fun us => ends_cons (c := ' ') (by decide) _
  obtain ⟨hab, hrest⟩ := hf b _ _ (hspace us) (hspace vs) h
  exact ⟨hab, List.append_cancel_left hrest⟩

theorem parted_option {α : Type} {f : α → String} {x : Option α} (h : ∀ a ∈ x, Parted f a) :
    Parted (fun x => renderedOption (x.map f)) x := fun _ _ _ _ _ heq => parted_optional h heq

/-- The rendering of the items of a list. -/
def renderedMembers (cs : List Constraint) : String := renderedList (renderedAll cs)

theorem parted_renderedMembers {cs : List Constraint} (h : ∀ c ∈ cs, Parted rendered c) :
    Parted renderedMembers cs := by
  intro ds us vs _ _ heq
  simp only [renderedMembers, renderedList, renderedAll_eq_map, String.toList_append,
    List.append_assoc, List.append_cancel_left_eq] at heq
  exact joined_inj ']' (by decide) exists_rendered_eq_cons h heq

theorem rendered_list (items : Constraints) : (list items).rendered =
    renderedWith "List"
    [("item_type_constraints", renderedOption (items.map renderedMembers))] := by
  cases items <;> rfl

/-- Where a rendering ends, and which constraint it is of, shows in any text it begins. -/
theorem parted_rendered (c : Constraint) : Parted rendered c := by
  induction c using inductionOn with
  | list items ih =>
    intro d us vs hus hvs h
    have hkind := kind_eq_of_rendered hus hvs h
    cases d <;> cases hkind
    rw [rendered_list, rendered_list] at h
    obtain ⟨rfl, rfl⟩ :=
      parameter_inj (parted_option fun cs hcs => parted_renderedMembers (ih cs hcs)) h
    exact ⟨rfl, rfl⟩
  | other c hlist =>
    intro d us vs hus hvs h
    have hkind := kind_eq_of_rendered hus hvs h
    match c, d, hkind with
    | .integer .., .integer .., _ =>
      obtain ⟨⟨rfl, rfl⟩, rfl⟩ := range_inj parted_int64 h
      exact ⟨rfl, rfl⟩
    | .float .., .float .., _ =>
      obtain ⟨⟨rfl, rfl⟩, rfl⟩ := range_inj (parted_render Double.plain_rendering) h
      exact ⟨rfl, rfl⟩
    | .enumeration a, .enumeration _, _ =>
      obtain ⟨rfl, rfl⟩ := parameter_inj (parted_texts a) h
      exact ⟨rfl, rfl⟩
    | .object s, .object _, _ =>
      obtain ⟨rfl, rfl⟩ := parameter_inj (parted_option fun a _ => Json.parted_rendered a) h
      exact ⟨rfl, rfl⟩
    | .nodeReference a, .nodeReference _, _ =>
      obtain ⟨rfl, rfl⟩ := parameter_inj (parted_texts a) h
      exact ⟨rfl, rfl⟩
    | .list _, .list _, _ => exact absurd rfl hlist
    | .string, .string, _ | .boolean, .boolean, _ | .audio, .audio, _ | .video, .video, _
    | .audioClip, .audioClip, _ | .videoClip, .videoClip, _ | .avClip, .avClip, _
    | .contextMessage, .contextMessage, _ | .textStream, .textStream, _ | .trigger, .trigger, _
    | .secret, .secret, _ | .schema, .schema, _ => exact ⟨rfl, List.append_cancel_left h⟩

/-- No two constraints are rendered alike. -/
theorem rendered_injective (h : c.rendered = d.rendered) : c = d := (parted_rendered c).eq h

end Constraint

end Patchbay
