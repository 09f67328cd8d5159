import Mathlib.Data.List.Forall2
import Patchbay.Constraint.Wire
import Patchbay.Proofs.Json.Fields

/-!
# The order of fields

A record is written with its fields in an order of its own, and read from a value whose fields may
have come into key order (`Json.normalize`). Two values without repeated keys that differ in the
order of fields only (`Reorders`) are the same to a decoder that asks for fields by their keys
(`Blind`). Decoders are put together from parts, so each way of putting them together has its law
here.
-/

namespace Patchbay.Json

variable {α β : Type} {key : String} {v w : Json}

/-! ### Values without repeated keys -/

mutual

/-- No object in the value has a key twice. -/
def Keyed : Json → Prop
  | .arr items => KeyedItems items
  | .obj fields => (fields.map Prod.fst).Nodup ∧ KeyedFields fields
  | _ => True

def KeyedItems : List Json → Prop
  | [] => True
  | a :: as => a.Keyed ∧ KeyedItems as

def KeyedFields : List (String × Json) → Prop
  | [] => True
  | (_, a) :: as => a.Keyed ∧ KeyedFields as

end

theorem keyedItems_iff {items : List Json} : KeyedItems items ↔ ∀ a ∈ items, a.Keyed := by
  induction items with
  | nil => simp [KeyedItems]
  | cons a as ih => rw [KeyedItems, ih, List.forall_mem_cons]

theorem keyedFields_iff {fields : List (String × Json)} : KeyedFields fields ↔ ∀ f ∈ fields,
    f.2.Keyed := by
  induction fields with
  | nil => simp [KeyedFields]
  | cons f fields ih => rw [KeyedFields, ih, List.forall_mem_cons]

theorem keyed_arr {items : List Json} : (Json.arr items).Keyed ↔ ∀ a ∈ items, a.Keyed :=
  keyedItems_iff

theorem keyed_obj {fields : List (String × Json)} :
    (Json.obj fields).Keyed ↔ (fields.map Prod.fst).Nodup ∧ ∀ f ∈ fields, f.2.Keyed :=
  and_congr_right' keyedFields_iff

theorem normalizeItems_eq (items : List Json) : normalizeItems items = items.map normalize := by
  induction items with
  | nil => rfl
  | cons a as ih => rw [normalizeItems, ih, List.map_cons]

theorem normalizeFields_eq (fields : List (String × Json)) :
    normalizeFields fields = fields.map fun f => (f.1, f.2.normalize) := by
  induction fields with
  | nil => rfl
  | cons f fields ih => rw [normalizeFields, ih, List.map_cons]

theorem map_fst_normalizeFields (fields : List (String × Json)) :
    (normalizeFields fields).map Prod.fst = fields.map Prod.fst := by
  rw [normalizeFields_eq, List.map_map]
  rfl

mutual

/-- In key order no key stands twice. -/
theorem keyed_normalize : ∀ v : Json, v.normalize.Keyed
  | .arr items => keyedItems_iff.mpr (forall_keyed_normalizeItems items)
  | .obj fields => keyed_obj.mpr ⟨(ascending_sortKeys _).nodup, fun f hf =>
      forall_keyed_normalizeFields fields f (mem_sortKeys hf)⟩
  | .null | .bool _ | .int _ | .double _ | .str _ => trivial

theorem forall_keyed_normalizeItems : ∀ (items : List Json), ∀ a ∈ normalizeItems items, a.Keyed
  | [] => nofun
  | a :: as => List.forall_mem_cons.mpr ⟨keyed_normalize a, forall_keyed_normalizeItems as⟩

theorem forall_keyed_normalizeFields :
    ∀ (fields : List (String × Json)), ∀ f ∈ normalizeFields fields, f.2.Keyed
  | [] => nofun
  | (_, a) :: fields =>
  List.forall_mem_cons.mpr ⟨keyed_normalize a, forall_keyed_normalizeFields fields⟩

end

mutual

theorem normalize_normalize : ∀ v : Json, v.normalize.normalize = v.normalize
  | .arr items => congrArg Json.arr (normalizeItems_normalizeItems items)
  | .obj fields => by
    have hfields : normalizeFields (sortKeys (normalizeFields fields)) = sortKeys
        (normalizeFields fields) := by
      rw [normalizeFields_eq (sortKeys _), ← sortKeys_map, ← normalizeFields_eq,
        normalizeFields_normalizeFields]
    rw [normalize, normalize, hfields, sortKeys_sortKeys]
  | .null | .bool _ | .int _ | .double _ | .str _ => rfl

theorem normalizeItems_normalizeItems :
    ∀ items : List Json, normalizeItems (normalizeItems items) = normalizeItems items
  | [] => rfl
  | a :: as => congrArg₂ List.cons (normalize_normalize a) (normalizeItems_normalizeItems as)

theorem normalizeFields_normalizeFields :
    ∀ fields : List (String × Json), normalizeFields (normalizeFields fields) =
    normalizeFields fields
  | [] => rfl
  | (k, a) :: fields =>
    congrArg₂ List.cons (congrArg (k, ·) (normalize_normalize a))
      (normalizeFields_normalizeFields fields)

end

/-! ### Values that differ in the order of fields -/

/-- The values have no repeated keys, and become equal when their fields are put in key order. -/
structure Reorders (v w : Json) : Prop where
  keyed_left : v.Keyed
  keyed_right : w.Keyed
  normalize_eq : v.normalize = w.normalize

namespace Reorders

theorem refl (h : v.Keyed) : Reorders v v := ⟨h, h, rfl⟩

theorem symm (h : Reorders v w) : Reorders w v :=
  ⟨h.keyed_right, h.keyed_left, h.normalize_eq.symm⟩

/-- A value and its fields in key order. -/
theorem normalize (h : v.Keyed) : Reorders v.normalize v :=
  ⟨keyed_normalize v, h, normalize_normalize v⟩

theorem items {as bs : List Json} (h : Reorders (.arr as) (.arr bs)) :
    List.Forall₂ Reorders as bs := by
  obtain ⟨has, hbs, heq⟩ := h
  rw [keyed_arr] at has hbs
  rw [Json.normalize, Json.normalize, Json.arr.injEq, normalizeItems_eq, normalizeItems_eq] at heq
  induction as generalizing bs with
  | nil =>
    cases bs with
    | nil => exact .nil
    | cons b bs => cases heq
  | cons a as ih =>
    cases bs with
    | nil => cases heq
    | cons b bs =>
      obtain ⟨ha, has⟩ := List.forall_mem_cons.mp has
      obtain ⟨hb, hbs⟩ := List.forall_mem_cons.mp hbs
      rw [List.map_cons, List.map_cons, List.cons.injEq] at heq
      exact .cons ⟨ha, hb, heq.1⟩ (ih has hbs heq.2)

/-- The fields of the one object are those of the other, in some order. -/
theorem fields {fs gs : List (String × Json)} (h : Reorders (.obj fs) (.obj gs)) :
    (normalizeFields fs).Perm (normalizeFields gs) := by
  have hsort : sortKeys (normalizeFields fs) = sortKeys (normalizeFields gs) := by
    simpa only [Json.normalize, Json.obj.injEq] using h.normalize_eq
  have hfs := sortKeys_perm ((map_fst_normalizeFields fs).symm ▸ (keyed_obj.mp h.keyed_left).1)
  have hgs := sortKeys_perm ((map_fst_normalizeFields gs).symm ▸ (keyed_obj.mp h.keyed_right).1)
  exact hfs.symm.trans (hsort ▸ hgs)

/-- An array is reordered to an array, an object to an object, and anything else is left as it
is. -/
theorem shapes (h : Reorders v w) :
    (v = w ∧ (∀ items, v ≠ .arr items) ∧ ∀ fields, v ≠ .obj fields) ∨
      (∃ as bs, v = .arr as ∧ w = .arr bs) ∨ ∃ fs gs, v = .obj fs ∧ w = .obj gs := by
  have heq := h.normalize_eq
  cases v <;> cases w <;> simp_all [Json.normalize]

theorem of_items {as bs : List Json} (h : List.Forall₂ Reorders as bs) : Reorders (.arr as)
    (.arr bs) := by
  suffices hall : (∀ a ∈ as, a.Keyed) ∧ (∀ b ∈ bs, b.Keyed) ∧ as.map Json.normalize =
    bs.map Json.normalize by
      refine ⟨keyed_arr.mpr hall.1, keyed_arr.mpr hall.2.1, ?_⟩
      rw [Json.normalize, Json.normalize, normalizeItems_eq, normalizeItems_eq, hall.2.2]
  induction h with
  | nil => exact ⟨nofun, nofun, rfl⟩
  | cons hab _ ih =>
    obtain ⟨has, hbs, hnormal⟩ := ih
    exact ⟨List.forall_mem_cons.mpr ⟨hab.keyed_left, has⟩,
      List.forall_mem_cons.mpr ⟨hab.keyed_right, hbs⟩,
      congrArg₂ List.cons hab.normalize_eq hnormal⟩

theorem keyed_zip {names : List String} (hn : names.Nodup) {items : List Json}
    (h : (Json.arr items).Keyed) :
    (Json.obj (names.zip items)).Keyed := by
  refine keyed_obj.mpr ⟨?_, fun f hf => keyed_arr.mp h f.2 (List.of_mem_zip hf).2⟩
  clear h
  induction names generalizing items with
  | nil => exact List.nodup_nil
  | cons name names ih =>
    cases items with
    | nil => exact List.nodup_nil
    | cons a items =>
      obtain ⟨hname, hnames⟩ := List.nodup_cons.mp hn
      refine List.nodup_cons.mpr ⟨fun hmem => hname ?_, ih hnames⟩
      obtain ⟨f, hf, rfl⟩ := List.mem_map.mp hmem
      exact (List.of_mem_zip hf).1

/-- Values given to distinct names in order. -/
theorem zip {names : List String} (hn : names.Nodup) {as bs : List Json}
    (h : List.Forall₂ Reorders as bs) : Reorders (.obj (names.zip as)) (.obj (names.zip bs)) := by
  obtain ⟨has, hbs, heq⟩ := of_items h
  have hnormal (cs : List Json) :
      normalizeFields (names.zip cs) = names.zip (cs.map Json.normalize) := by
    rw [normalizeFields_eq, List.zip_map_right]
    rfl
  rw [Json.normalize, Json.normalize, Json.arr.injEq, normalizeItems_eq, normalizeItems_eq] at heq
  refine ⟨keyed_zip hn has, keyed_zip hn hbs, ?_⟩
  rw [Json.normalize, Json.normalize, hnormal, hnormal, heq]

end Reorders

/-- Among distinct keys a key stands once at most. -/
theorem under_of_nodup {fields : List (String × Json)} (h : (fields.map Prod.fst).Nodup)
    (key : String) :
    under key fields = [] ∨ ∃ a, under key fields = [(key, a)] ∧ (key, a) ∈ fields := by
  have hmem : ∀ f ∈ under key fields, f ∈ fields ∧ f.1 = key := fun f hf =>
    ⟨List.mem_of_mem_filter hf, by simpa [under] using (List.mem_filter.mp hf).2⟩
  have hdistinct : ((under key fields).map Prod.fst).Nodup :=
    h.sublist ((List.filter_sublist).map Prod.fst)
  cases hu : under key fields with
  | nil => exact .inl rfl
  | cons f rest =>
    cases rest with
    | nil =>
      obtain ⟨hf, rfl⟩ := hmem f (hu ▸ List.mem_cons_self)
      exact .inr ⟨f.2, rfl, hf⟩
    | cons g rest =>
      -- two fields under one key would repeat it
      rw [hu] at hmem hdistinct
      have hfg : f.1 = g.1 := (hmem f (by simp)).2.trans (hmem g (by simp)).2.symm
      simp [hfg] at hdistinct

theorem under_sortKeys {fields : List (String × Json)} (h : (fields.map Prod.fst).Nodup)
    (key : String) :
    under key (sortKeys fields) = under key fields := by
  have hperm : (under key (sortKeys fields)).Perm (under key fields) := (sortKeys_perm h).filter _
  obtain hu | ⟨a, hu, -⟩ := under_of_nodup h key
  · rw [hu] at hperm ⊢
    exact hperm.eq_nil
  · rw [hu] at hperm ⊢
    exact hperm.eq_singleton

theorem under_normalizeFields (key : String) (fields : List (String × Json)) :
    under key (normalizeFields fields) = (under key fields).map fun f => (f.1, f.2.normalize) := by
  rw [normalizeFields_eq, under, under, List.filter_map]
  rfl

/-- Under each key stands the same, but for the order of fields. -/
theorem Reorders.unique? (h : Reorders v w) (key : String) :
    (v.unique? key = some none ∧ w.unique? key = some none) ∨
      ∃ a b, v.unique? key = some (some a) ∧ w.unique? key = some (some b) ∧ Reorders a b := by
  obtain ⟨rfl, -, hobj⟩ | ⟨as, bs, rfl, rfl⟩ | ⟨fs, gs, rfl, rfl⟩ := h.shapes
  · cases v with
    | obj fields => exact absurd rfl (hobj fields)
    | _ => exact .inl ⟨rfl, rfl⟩
  · exact .inl ⟨rfl, rfl⟩
  · obtain ⟨hfs, hfs'⟩ := keyed_obj.mp h.keyed_left
    obtain ⟨hgs, hgs'⟩ := keyed_obj.mp h.keyed_right
    -- under a key the one has what the other has, and no more than one field
    have hperm : ((under key fs).map fun f => (f.1, f.2.normalize)).Perm
        ((under key gs).map fun f => (f.1, f.2.normalize)) := by
      rw [← under_normalizeFields, ← under_normalizeFields]
      exact h.fields.filter _
    rw [unique?_obj, unique?_obj]
    obtain hf | ⟨a, hf, ha⟩ := under_of_nodup hfs key
    · rw [hf, List.map_nil, List.nil_perm, List.map_eq_nil_iff] at hperm
      exact .inl ⟨by rw [hf], by rw [hperm]⟩
    · obtain hg | ⟨b, hg, hb⟩ := under_of_nodup hgs key
      · rw [hf, hg] at hperm
        exact absurd hperm.length_eq (by simp)
      · rw [hf, hg, List.map_singleton, List.map_singleton, List.singleton_perm_singleton] at hperm
        exact .inr ⟨a, b, by rw [hf], by rw [hg], hfs' _ ha, hgs' _ hb, congrArg Prod.snd hperm⟩

theorem depthOfFields_perm {fs gs : List (String × Json)} (h : fs.Perm gs) :
    depthOfFields fs = depthOfFields gs := by
  induction h with
  | nil => rfl
  | cons f _ ih => rw [depthOfFields, depthOfFields, ih]
  | swap f g fs =>
    simp only [depthOfFields]
    exact Nat.max_left_comm _ _ _
  | trans _ _ ih ih' => rw [ih, ih']

mutual

theorem depth_normalize : ∀ {v : Json}, v.Keyed → v.normalize.depth = v.depth
  | .arr items, h => by rw [normalize, depth, depth, depthOfItems_normalizeItems h]
  | .obj fields, h => by
    have hperm := sortKeys_perm ((map_fst_normalizeFields fields).symm ▸ (keyed_obj.mp h).1)
    rw [normalize, depth, depth, depthOfFields_perm hperm, depthOfFields_normalizeFields h.2]
  | .null, _ | .bool _, _ | .int _, _ | .double _, _ | .str _, _ => rfl

theorem depthOfItems_normalizeItems :
    ∀ {items : List Json}, KeyedItems items → depthOfItems (normalizeItems items) =
    depthOfItems items
  | [], _ => rfl
  | a :: as, h => by
    rw [normalizeItems, depthOfItems, depthOfItems, depth_normalize h.1,
      depthOfItems_normalizeItems h.2]

theorem depthOfFields_normalizeFields : ∀ {fields : List (String × Json)}, KeyedFields fields →
    depthOfFields (normalizeFields fields) = depthOfFields fields
  | [], _ => rfl
  | (_, a) :: fields, h => by
    rw [normalizeFields, depthOfFields, depthOfFields, depth_normalize h.1,
      depthOfFields_normalizeFields h.2]

end

theorem Reorders.depth_eq (h : Reorders v w) : v.depth = w.depth := by
  rw [← depth_normalize h.keyed_left, h.normalize_eq, depth_normalize h.keyed_right]

/-! ### Decoders that do not see the order -/

/-- The decoder takes values that differ in the order of fields alike. -/
def Blind (decode : Json → Option α) : Prop := ∀ ⦃v w⦄, Reorders v w → decode v = decode w

namespace Blind

variable {decode : Json → Option α}

theorem const (x : Option α) : Blind fun _ => x := fun _ _ _ => rfl

/-- A decoder that takes no arrays and no objects. -/
theorem of_atoms (harr : ∀ items, decode (.arr items) = none)
    (hobj : ∀ fields, decode (.obj fields) = none) :
    Blind decode := by
  intro v w h
  obtain ⟨rfl, -⟩ | ⟨as, bs, rfl, rfl⟩ | ⟨fs, gs, rfl, rfl⟩ := h.shapes
  · rfl
  · rw [harr, harr]
  · rw [hobj, hobj]

theorem str? : Blind Json.str? := of_atoms (fun _ => rfl) fun _ => rfl

theorem int64? : Blind Json.int64? := of_atoms (fun _ => rfl) fun _ => rfl

theorem double? : Blind Json.double? := of_atoms (fun _ => rfl) fun _ => rfl

theorem any? : Blind Json.any? := fun _ _ h => congrArg some h.normalize_eq

theorem kind? (place : Place) (kinds : List String) : Blind (Json.kind? place kinds) := by
  cases place <;> exact of_atoms (fun _ => rfl) fun _ => rfl

theorem bind {f : α → Json → Option β} (hd : Blind decode) (hf : ∀ a, Blind (f a)) :
    Blind fun v => (decode v).bind fun a => f a v := by
  intro v w h
  simp only [hd h]
  exact Option.bind_congr fun a _ => hf a h

theorem map (hd : Blind decode) (f : α → β) : Blind fun v => (decode v).map f := by
  intro v w h
  simp only [hd h]

theorem field (key : String) (hd : Blind decode) : Blind fun v => v.field key decode := by
  intro v w h
  obtain ⟨hv, hw⟩ | ⟨a, b, hv, hw, hab⟩ := h.unique? key
  · simp only [Json.field, hv, hw]
  · simp only [Json.field, hv, hw, hd hab]

theorem fieldWithDefault (key : String) (hd : Blind decode) (default : α) :
    Blind fun v => v.fieldWithDefault key decode default := by
  intro v w h
  obtain ⟨hv, hw⟩ | ⟨a, b, hv, hw, hab⟩ := h.unique? key
  · simp only [Json.fieldWithDefault, hv, hw]
  · simp only [Json.fieldWithDefault, hv, hw, hd hab]

theorem optionalField (key : String) (hd : Blind decode) :
    Blind fun v => v.optionalField key decode := by
  intro v w h
  obtain ⟨hv, hw⟩ | ⟨a, b, hv, hw, hab⟩ := h.unique? key
  · simp only [Json.optionalField, hv, hw]
  · simp only [Json.optionalField, hv, hw]
    -- `null`, which stands for an absent field, is reordered to `null` only
    obtain ⟨rfl, -⟩ | ⟨as, bs, rfl, rfl⟩ | ⟨fs, gs, rfl, rfl⟩ := hab.shapes
    · rfl
    · simp only [hd hab]
    · simp only [hd hab]

theorem decodeEach (hd : Blind decode) {as bs : List Json} (h : List.Forall₂ Reorders as bs) :
    Json.decodeEach decode as = Json.decodeEach decode bs := by
  induction h with
  | nil => rfl
  | cons hab _ ih => rw [Json.decodeEach, Json.decodeEach, hd hab, ih]

theorem listOf (hd : Blind decode) : Blind (Json.listOf decode) := by
  intro v w h
  obtain ⟨rfl, -⟩ | ⟨as, bs, rfl, rfl⟩ | ⟨fs, gs, rfl, rfl⟩ := h.shapes
  · rfl
  · exact hd.decodeEach h.items
  · rfl

theorem strings? : Blind Json.strings? := str?.listOf

theorem pair? : Blind Json.pair? := by
  intro v w h
  obtain ⟨rfl, -⟩ | ⟨as, bs, rfl, rfl⟩ | ⟨fs, gs, rfl, rfl⟩ := h.shapes
  · rfl
  · match as, bs, h.items with
    | [], [], _ => rfl
    | [_], [_], _ => rfl
    | [a, b], [c, d], .cons hac (.cons hbd _) => simp only [Json.pair?, double? hac, double? hbd]
    | _ :: _ :: _ :: _, _ :: _ :: _ :: _, _ => rfl
  · rfl

/-- A bare name that is written as the only field of an object stays its only field. -/
theorem name? (place : Place) : Blind (Json.name? place) := by
  intro v w h
  obtain ⟨rfl, -⟩ | ⟨as, bs, rfl, rfl⟩ | ⟨fs, gs, rfl, rfl⟩ := h.shapes
  · rfl
  · rfl
  · have hlength : fs.length = gs.length := by
      simpa only [normalizeFields_eq, List.length_map] using h.fields.length_eq
    match fs, gs, hlength with
    | [], [], _ => rfl
    | _ :: _ :: _, _ :: _ :: _, _ => simp only [Json.name?]
    | [(s, a)], [(t, b)], _ =>
      have hfield : (s, a.normalize) = (t, b.normalize) :=
        List.singleton_perm_singleton.mp h.fields
      obtain ⟨rfl, hnormal⟩ := Prod.mk.inj hfield
      have hab : Reorders a b := ⟨h.keyed_left.2.1, h.keyed_right.2.1, hnormal⟩
      obtain ⟨rfl, -⟩ | ⟨as, bs, rfl, rfl⟩ | ⟨fs, gs, rfl, rfl⟩ := hab.shapes
      · rfl
      · rfl
      · cases fs with
        | nil =>
          obtain rfl : gs = [] := by simpa [normalizeFields_eq] using hab.fields.length_eq.symm
          rfl
        | cons f fs =>
          cases gs with
          | nil => exact absurd hab.fields.length_eq (by simp [normalizeFields_eq])
          | cons g gs => cases place <;> rfl

/-- Values given to names in order stand under these names. -/
theorem record? {names : List String} (hn : names.Nodup) (hd : Blind decode) :
    Blind fun v => (v.record? names).bind decode := by
  intro v w h
  obtain ⟨rfl, -⟩ | ⟨as, bs, rfl, rfl⟩ | ⟨fs, gs, rfl, rfl⟩ := h.shapes
  · rfl
  · have hlength := h.items.length_eq
    simp only [Json.record?, hlength]
    split
    · exact hd (.zip hn h.items)
    · rfl
  · exact hd h

theorem variant? {kind : Json → Option String} {f : String → Json → Option α} (hk : Blind kind)
    (hf : ∀ k, Blind (f k)) : Blind fun v => (v.variant? kind).bind fun p => f p.1 p.2 := by
  intro v w h
  obtain ⟨rfl, -⟩ | ⟨as, bs, rfl, rfl⟩ | ⟨fs, gs, rfl, rfl⟩ := h.shapes
  · rfl
  · cases h.items with
    | nil => rfl
    | cons hab hrest =>
      simp only [Json.variant?, hk hab, Option.bind_map]
      exact Option.bind_congr fun k _ => hf k (.of_items hrest)
  · have hkind : (Json.obj fs).field "type" kind = (Json.obj gs).field "type" kind :=
      hk.field "type" h
    simp only [Json.variant?, hkind, Option.bind_map]
    exact Option.bind_congr fun k _ => hf k h

end Blind

end Patchbay.Json
