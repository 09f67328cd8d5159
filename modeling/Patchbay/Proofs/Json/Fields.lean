import Mathlib.Data.String.Basic
import Patchbay.Json.Basic
import Patchbay.Json.Field

/-!
# Pairs in key order

Sorting pairs by their keys brings in no pair that was not there. Pairs whose keys are distinct are
only put in another order (`sortKeys_perm`), so what stands under a key stays; pairs that are in
key order are left alone.
-/

namespace Patchbay

variable {α : Type} {key : String} {a : α} {p : String × α} {pairs : List (String × α)}

theorem mem_insertKey (h : p ∈ insertKey key a pairs) : p = (key, a) ∨ p ∈ pairs := by
  induction pairs with
  | nil => exact .inl (by simpa [insertKey] using h)
  | cons q rest ih =>
    rw [insertKey] at h
    split at h
    · exact List.mem_cons.mp h
    · split at h
      · exact (List.mem_cons.mp h).imp_right (List.mem_cons_of_mem _)
      · rcases List.mem_cons.mp h with h | h
        · exact .inr (h ▸ List.mem_cons_self)
        · exact (ih h).imp_right (List.mem_cons_of_mem _)

private theorem mem_foldl_insertKey (acc : List (String × α))
    (h : p ∈ pairs.foldl (fun acc q => insertKey q.1 q.2 acc) acc) : p ∈ acc ∨ p ∈ pairs := by
  induction pairs generalizing acc with
  | nil => exact .inl h
  | cons q rest ih =>
    rcases ih _ h with h | h
    · rcases mem_insertKey h with rfl | h
      · exact .inr List.mem_cons_self
      · exact .inl h
    · exact .inr (List.mem_cons_of_mem _ h)

theorem mem_sortKeys (h : p ∈ sortKeys pairs) : p ∈ pairs :=
  (mem_foldl_insertKey [] h).resolve_left (by simp)

theorem mem_of_lookupKey (h : lookupKey key pairs = some a) : (key, a) ∈ pairs := by
  induction pairs with
  | nil => cases h
  | cons p rest ih =>
    rw [lookupKey] at h
    split at h
    · rename_i hkey
      cases h
      exact hkey ▸ List.mem_cons_self
    · exact List.mem_cons_of_mem _ (ih h)

/-! ### Distinct keys -/

theorem insertKey_perm (h : key ∉ pairs.map Prod.fst) :
    (insertKey key a pairs).Perm ((key, a) :: pairs) := by
  induction pairs with
  | nil => exact .refl _
  | cons q rest ih =>
    rw [List.map_cons, List.mem_cons, not_or] at h
    rw [insertKey, if_neg h.1]
    split
    · exact .refl _
    · exact ((ih h.2).cons q).trans (.swap _ _ _)

private theorem foldl_insertKey_perm (acc : List (String × α))
    (h : ((acc ++ pairs).map Prod.fst).Nodup) :
    (pairs.foldl (fun acc q => insertKey q.1 q.2 acc) acc).Perm (acc ++ pairs) := by
  induction pairs generalizing acc with
  | nil => rw [List.append_nil]; exact .refl _
  | cons q rest ih =>
    -- the keys seen so far and those to come are distinct together
    have hmiddle : (acc ++ q :: rest).Perm (q :: acc ++ rest) := List.perm_middle
    have hdistinct : ((q :: acc ++ rest).map Prod.fst).Nodup :=
      (hmiddle.map Prod.fst).nodup_iff.mp h
    rw [List.cons_append, List.map_cons, List.nodup_cons, List.map_append, List.mem_append, not_or]
      at hdistinct
    have hinsert : (insertKey q.1 q.2 acc).Perm (q :: acc) := insertKey_perm hdistinct.1.1
    have hrest : (insertKey q.1 q.2 acc ++ rest).Perm (acc ++ q :: rest) :=
      (hinsert.append_right rest).trans hmiddle.symm
    exact (ih _ ((hrest.map Prod.fst).nodup_iff.mpr h)).trans hrest

/-- Pairs with distinct keys are put in another order. -/
theorem sortKeys_perm (h : (pairs.map Prod.fst).Nodup) : (sortKeys pairs).Perm pairs :=
  foldl_insertKey_perm [] h

/-- The pairs are in key order, and no key stands twice. -/
def Ascending (pairs : List (String × α)) : Prop := pairs.Pairwise fun p q => p.1 < q.1

theorem Ascending.nodup (h : Ascending pairs) : (pairs.map Prod.fst).Nodup :=
  List.pairwise_map.mpr (h.imp fun hlt => ne_of_lt hlt)

theorem ascending_insertKey (h : Ascending pairs) : Ascending (insertKey key a pairs) := by
  induction pairs with
  | nil => exact List.pairwise_singleton _ _
  | cons q rest ih =>
    obtain ⟨hq, hrest⟩ := List.pairwise_cons.mp h
    rw [insertKey]
    split
    · rename_i hlt
      refine List.pairwise_cons.mpr ⟨fun p hp => ?_, h⟩
      rcases List.mem_cons.mp hp with rfl | hp
      · exact hlt
      · exact lt_trans hlt (hq p hp)
    · split
      · rename_i heq
        exact List.pairwise_cons.mpr ⟨fun p hp => heq ▸ hq p hp, hrest⟩
      · rename_i hle hne
        refine List.pairwise_cons.mpr ⟨fun p hp => ?_, ih hrest⟩
        rcases mem_insertKey hp with rfl | hp
        · exact lt_of_le_of_ne (not_lt.mp hle) (Ne.symm hne)
        · exact hq p hp

theorem ascending_sortKeys (pairs : List (String × α)) : Ascending (sortKeys pairs) := by
  suffices h : ∀ acc : List (String × α), Ascending acc →
      Ascending (pairs.foldl (fun acc q => insertKey q.1 q.2 acc) acc) from h [] List.Pairwise.nil
  induction pairs with
  | nil => exact fun _ h => h
  | cons q rest ih => exact fun acc h => ih _ (ascending_insertKey h)

theorem insertKey_of_forall_lt (h : ∀ p ∈ pairs, p.1 < key) :
    insertKey key a pairs = pairs ++ [(key, a)] := by
  induction pairs with
  | nil => rfl
  | cons q rest ih =>
    obtain ⟨hq, hrest⟩ := List.forall_mem_cons.mp h
    rw [insertKey, if_neg (not_lt_of_gt hq), if_neg (ne_of_gt hq), ih hrest, List.cons_append]

/-- Pairs in key order are left alone. -/
theorem sortKeys_of_ascending (h : Ascending pairs) : sortKeys pairs = pairs := by
  suffices hfold : ∀ acc : List (String × α), Ascending (acc ++ pairs) →
      pairs.foldl (fun acc q => insertKey q.1 q.2 acc) acc = acc ++ pairs from hfold [] h
  clear h
  induction pairs with
  | nil => exact fun acc _ => (List.append_nil acc).symm
  | cons q rest ih =>
    intro acc hacc
    have hlast : insertKey q.1 q.2 acc = acc ++ [q] :=
      insertKey_of_forall_lt fun p hp => (List.pairwise_append.mp hacc).2.2 p hp q
        List.mem_cons_self
    rw [List.foldl_cons, hlast, ih _ (by rwa [List.append_assoc]), List.append_assoc]
    rfl

theorem sortKeys_sortKeys (pairs : List (String × α)) :
    sortKeys (sortKeys pairs) = sortKeys pairs :=
  sortKeys_of_ascending (ascending_sortKeys pairs)

theorem insertKey_map {β : Type} (f : α → β) (pairs : List (String × α)) :
    insertKey key (f a) (pairs.map fun p => (p.1, f p.2)) =
      (insertKey key a pairs).map fun p => (p.1, f p.2) := by
  induction pairs with
  | nil => rfl
  | cons q rest ih =>
    rw [List.map_cons, insertKey, insertKey]
    split
    · rfl
    · split
      · rfl
      · rw [ih, List.map_cons]

/-- Sorting looks at keys only. -/
theorem sortKeys_map {β : Type} (f : α → β) (pairs : List (String × α)) :
    sortKeys (pairs.map fun p => (p.1, f p.2)) = (sortKeys pairs).map fun p => (p.1, f p.2) := by
  suffices h : ∀ acc : List (String × α),
      (pairs.map fun p => (p.1, f p.2)).foldl (fun acc q => insertKey q.1 q.2 acc)
        (acc.map fun p => (p.1, f p.2)) =
      (pairs.foldl (fun acc q => insertKey q.1 q.2 acc) acc).map fun p => (p.1, f p.2) from h []
  induction pairs with
  | nil => exact fun _ => rfl
  | cons q rest ih =>
    intro acc
    simp only [List.map_cons, List.foldl_cons, insertKey_map, ih]

end Patchbay

/-!
## Fields that are decoded

A field that a record was written with is found again, if no other field has its key. Values of
fields that may be left out, or be `null`, must not be written as `null`.
-/

namespace Patchbay.Json

variable {α : Type} {key : String} {encode : α → Json} {decode : Json → Option α}

/-- The fields of a record under a key. -/
def under (key : String) (fields : List (String × Json)) : List (String × Json) :=
  fields.filter fun f => f.1 == key

@[simp]
theorem under_nil : under key [] = [] := rfl

@[simp]
theorem under_cons_self (a : Json) (fields : List (String × Json)) :
    under key ((key, a) :: fields) = (key, a) :: under key fields := by
  simp [under]

@[simp]
theorem under_cons_of_ne {k : String} (h : k ≠ key) (a : Json) (fields : List (String × Json)) :
    under key ((k, a) :: fields) = under key fields := by
  simp [under, h]

@[simp]
theorem under_append (as bs : List (String × Json)) :
    under key (as ++ bs) = under key as ++ under key bs :=
  List.filter_append as bs

@[simp]
theorem under_presentField_self (x : Option α) :
    under key (presentField key encode x) = presentField key encode x := by
  cases x <;> simp [presentField]

@[simp]
theorem under_presentField_of_ne {k : String} (h : k ≠ key) (x : Option α) :
    under key (presentField k encode x) = [] := by
  cases x <;> simp [presentField, under, h]

section

variable {fields : List (String × Json)}

theorem unique?_obj (fields : List (String × Json)) (key : String) :
    (Json.obj fields).unique? key =
    match under key fields with
    | [] => some none
    | [f] => some (some f.2)
    | _ => none := rfl

theorem field_of_under (a : Json) {x : α} (h : under key fields = [(key, a)])
    (ha : decode a = some x) : (Json.obj fields).field key decode = some x := by
  rw [field, unique?_obj, h]
  exact ha

theorem fieldWithDefault_of_under (a : Json) {x : α} (h : under key fields = [(key, a)])
    (ha : decode a = some x) (default : α) :
    (Json.obj fields).fieldWithDefault key decode default = some x := by
  rw [fieldWithDefault, unique?_obj, h]
  exact ha

/-- A field that was written if its value is present. -/
theorem optionalField_of_presentField (encode : α → Json) {x : Option α}
    (h : under key fields = presentField key encode x)
    (hx : ∀ a ∈ x, encode a ≠ .null ∧ decode (encode a) = some a) :
    (Json.obj fields).optionalField key decode = some x := by
  rw [optionalField, unique?_obj, h]
  cases x with
  | none => rfl
  | some a =>
    obtain ⟨hnull, hdecode⟩ := hx a rfl
    cases hencode : encode a with
    | null => exact absurd hencode hnull
    | _ =>
      rw [hencode] at hdecode
      simp [presentField, hencode, hdecode]

/-- A field that was written as `null` if its value is absent. -/
theorem optionalField_of_ofOption (encode : α → Json) {x : Option α}
    (h : under key fields = [(key, ofOption encode x)])
    (hx : ∀ a ∈ x, encode a ≠ .null ∧ decode (encode a) = some a) :
    (Json.obj fields).optionalField key decode = some x := by
  cases x with
  | none =>
    rw [optionalField, unique?_obj, h]
    rfl
  | some a => exact optionalField_of_presentField encode h hx

end

/-! ### Lists -/

theorem decodeEach_map {as : List α} (h : ∀ a ∈ as, decode (encode a) = some a) :
    decodeEach decode (as.map encode) = some as := by
  induction as with
  | nil => rfl
  | cons a as ih =>
    obtain ⟨ha, has⟩ := List.forall_mem_cons.mp h
    rw [List.map_cons, decodeEach, ha, ih has]

theorem listOf_map {as : List α} (h : ∀ a ∈ as, decode (encode a) = some a) :
    (Json.arr (as.map encode)).listOf decode = some as :=
  decodeEach_map h

theorem strings?_ofStrings (xs : List String) : (ofStrings xs).strings? = some xs :=
  listOf_map fun _ _ => rfl

theorem int64?_toInt (n : Int64) : (Json.int n.toInt).int64? = some n := by
  have hlo := n.le_toInt
  have hhi := n.toInt_lt
  rw [int64?, if_pos ⟨by omega, by omega⟩, Int64.ofInt_toInt]

end Patchbay.Json
