import Patchbay.Constraint.Wire
import Patchbay.Proofs.Constraint.Plain
import Patchbay.Proofs.Json.Fields

/-!
# Constraints that are read back

A constraint is read back from its JSON form (`Constraint.ofJson?_toJson`), however deep lists of
items nest, if its object schemas survive: an absent schema and the schema `null` are written
alike, and a schema is read with the fields of its objects in key order (`Json.Exact`).
-/

namespace Patchbay

/-- The value is read back when it is written as an optional one: it is not `null`, and the fields
of its objects are in key order. -/
structure Json.Exact (v : Json) : Prop where
  not_null : v ≠ .null
  normal : v.normalize = v

theorem Json.Exact.any? {v : Json} (h : v.Exact) : v.any? = some v := by
  rw [Json.any?, h.normal]

namespace Constraint

mutual

/-- All object schemas in the constraint are exact. -/
def Exact : Constraint → Prop
  | .object s => ∀ v ∈ s, v.Exact
  | .list (some cs) => ExactAll cs
  | _ => True

/-- All object schemas in the constraints are exact. -/
def ExactAll : List Constraint → Prop
  | [] => True
  | c :: cs => c.Exact ∧ ExactAll cs

end

theorem exactAll_iff {cs : List Constraint} : ExactAll cs ↔ ∀ c ∈ cs, c.Exact := by
  induction cs with
  | nil => simp [ExactAll]
  | cons c cs ih => rw [ExactAll, ih, List.forall_mem_cons]

theorem Plain.exact {c : Constraint} (h : c.Plain) : c.Exact := by
  cases c <;> trivial

variable {place : Json.Place}

theorem variant?_tagged (kind : Kind) (parameters : List (String × Json))
    (h : Json.under "type" parameters = []) :
    (tagged kind parameters).variant? (Json.kind? place tags) =
    some (kind.tag, tagged kind parameters) := by
  have hfield : (tagged kind parameters).field "type" (Json.kind? place tags) = some kind.tag := by
    have hunder : Json.under "type" (("type", .str kind.tag) :: parameters) =
        [("type", .str kind.tag)] := by
      rw [Json.under_cons_self, h]
    exact Json.field_of_under _ hunder (by cases place <;> rfl)
  rw [tagged] at hfield ⊢
  simp only [Json.variant?, hfield, Option.map_some]

/-- A tagged object is decoded by its tag. -/
theorem ofJsonWithin_tagged (depth : Nat) (kind : Kind) (parameters : List (String × Json))
    (h : Json.under "type" parameters = []) :
    ofJsonWithin (depth + 1) place (tagged kind parameters) =
      ofTagged (Json.listOf (ofJsonWithin depth .enclosed)) (tagged kind parameters) kind.tag := by
  rw [ofJsonWithin, variant?_tagged kind parameters h]
  rfl

theorem toJsonAll_eq (cs : List Constraint) : toJsonAll cs = cs.map toJson := by
  induction cs with
  | nil => rfl
  | cons c cs ih => rw [toJsonAll, ih, List.map_cons]

theorem depth_pos_tagged (kind : Kind) (parameters : List (String × Json)) :
    0 < (tagged kind parameters).depth := by
  simp [tagged, Json.depth]

theorem depth_toJson_pos (c : Constraint) : 0 < c.toJson.depth := by
  cases c with
  | list items => cases items <;> exact depth_pos_tagged _ _
  | _ => exact depth_pos_tagged _ _

theorem under_type_bounds {α : Type} (encode : α → Json) (lo hi : Option α) :
    Json.under "type"
    (Json.presentField "minimum" encode lo ++ Json.presentField "maximum" encode hi) = [] := by
  simp

/-- Both bounds of a range are found again. -/
theorem optionalField_bounds {α : Type} (encode : α → Json) (decode : Json → Option α)
    (kind : Kind)
    (h : ∀ a, encode a ≠ .null ∧ decode (encode a) = some a) (lo hi : Option α) :
    let v :=
    tagged kind (Json.presentField "minimum" encode lo ++ Json.presentField "maximum" encode hi)
    v.optionalField "minimum" decode = some lo ∧ v.optionalField "maximum" decode = some hi := by
  constructor
  · refine Json.optionalField_of_presentField encode ?_ fun a _ => h a
    simp
  · refine Json.optionalField_of_presentField encode ?_ fun a _ => h a
    simp

mutual

/-- A constraint is read back, however deep it is nested. -/
theorem ofJsonWithin_toJson : ∀ (c : Constraint) {depth : Nat} {place : Json.Place},
    c.Exact → c.toJson.depth ≤ depth → ofJsonWithin depth place c.toJson = some c
  | c, 0, _, _, hd => absurd (depth_toJson_pos c) (by omega)
  | .string, _ + 1, _, _, _ => ofJsonWithin_tagged _ .string [] rfl
  | .boolean, _ + 1, _, _, _ => ofJsonWithin_tagged _ .boolean [] rfl
  | .audio, _ + 1, _, _, _ => ofJsonWithin_tagged _ .audio [] rfl
  | .video, _ + 1, _, _, _ => ofJsonWithin_tagged _ .video [] rfl
  | .audioClip, _ + 1, _, _, _ => ofJsonWithin_tagged _ .audioClip [] rfl
  | .videoClip, _ + 1, _, _, _ => ofJsonWithin_tagged _ .videoClip [] rfl
  | .avClip, _ + 1, _, _, _ => ofJsonWithin_tagged _ .avClip [] rfl
  | .contextMessage, _ + 1, _, _, _ => ofJsonWithin_tagged _ .contextMessage [] rfl
  | .textStream, _ + 1, _, _, _ => ofJsonWithin_tagged _ .textStream [] rfl
  | .trigger, _ + 1, _, _, _ => ofJsonWithin_tagged _ .trigger [] rfl
  | .secret, _ + 1, _, _, _ => ofJsonWithin_tagged _ .secret [] rfl
  | .schema, _ + 1, _, _, _ => ofJsonWithin_tagged _ .schema [] rfl
  | .integer lo hi, _ + 1, _, _, _ => by
    obtain ⟨hlo, hhi⟩ := optionalField_bounds (fun n : Int64 => .int n.toInt) Json.int64? .integer
      (fun n => ⟨nofun, Json.int64?_toInt n⟩) lo hi
    rw [toJson, intBound, intBound, ofJsonWithin_tagged _ _ _ (under_type_bounds _ lo hi)]
    simp only [ofTagged, Kind.tag, Kind.name, Json.record?, tagged, Option.bind_eq_bind,
      Option.bind_some] at hlo hhi ⊢
    simp only [hlo, hhi, Option.bind_some]
  | .float lo hi, _ + 1, _, _, _ => by
    obtain ⟨hlo, hhi⟩ := optionalField_bounds Json.double Json.double? .float
      (fun _ => ⟨nofun, rfl⟩) lo hi
    rw [toJson, floatBound, floatBound, ofJsonWithin_tagged _ _ _ (under_type_bounds _ lo hi)]
    simp only [ofTagged, Kind.tag, Kind.name, Json.record?, tagged, Option.bind_eq_bind,
      Option.bind_some] at hlo hhi ⊢
    simp only [hlo, hhi, Option.bind_some]
  | .enumeration options, _ + 1, _, _, _ => by
    have hunder :
        Json.under "options" [("type", .str Kind.enumeration.tag),
        ("options", .ofStrings options)] =
        [("options", .ofStrings options)] := rfl
    have hfield := Json.field_of_under _ hunder (Json.strings?_ofStrings options)
    rw [toJson, ofJsonWithin_tagged _ _ _ rfl]
    simp only [ofTagged, Kind.tag, Kind.name, Json.record?, tagged, Option.bind_eq_bind,
      Option.bind_some] at hfield ⊢
    simp only [hfield, Option.bind_some]
  | .object s, _ + 1, _, h, _ => by
    have hunder : Json.under "object_schema" (("type", .str Kind.object.tag) ::
        Json.presentField "object_schema" id s) = Json.presentField "object_schema" id s := by
      simp
    have hfield := Json.optionalField_of_presentField id hunder
      fun v hv => ⟨(h v hv).not_null, (h v hv).any?⟩
    rw [toJson, ofJsonWithin_tagged _ _ _ (Json.under_presentField_of_ne (by decide) s)]
    simp only [ofTagged, Kind.tag, Kind.name, Json.record?, tagged, Option.bind_eq_bind,
      Option.bind_some] at hfield ⊢
    simp only [hfield, Option.bind_some]
  | .list none, _ + 1, _, _, _ => ofJsonWithin_tagged _ .list [] rfl
  | .list (some cs), depth + 1, _, h, hd => by
    have hdepth : Json.depthOfItems (toJsonAll cs) ≤ depth := by
      simp only [toJson, tagged, Json.depth, Json.depthOfFields] at hd
      omega
    have hunder : Json.under "item_type_constraints" [("type", .str Kind.list.tag),
        ("item_type_constraints", .arr (toJsonAll cs))] =
          Json.presentField "item_type_constraints" (fun cs => .arr (toJsonAll cs)) (some cs) :=
          rfl
    have hitems : ∀ cs' ∈ some cs, Json.arr (toJsonAll cs') ≠ .null ∧
        (Json.arr (toJsonAll cs')).listOf (ofJsonWithin depth .enclosed) = some cs' := by
      rintro cs' ⟨⟩
      exact ⟨nofun, listOf_toJsonAll cs h hdepth⟩
    have hfield := Json.optionalField_of_presentField _ hunder hitems
    rw [toJson, ofJsonWithin_tagged _ _ _ rfl]
    simp only [ofTagged, Kind.tag, Kind.name, Json.record?, tagged, Option.bind_eq_bind,
      Option.bind_some] at hfield ⊢
    simp only [hfield, Option.bind_some]
  | .nodeReference types, _ + 1, _, _, _ => by
    have hunder :
        Json.under "node_types" [("type", .str Kind.nodeReference.tag),
        ("node_types", .ofStrings types)] =
        [("node_types", .ofStrings types)] := rfl
    have hfield := Json.fieldWithDefault_of_under _ hunder (Json.strings?_ofStrings types) []
    rw [toJson, ofJsonWithin_tagged _ _ _ rfl]
    simp only [ofTagged, Kind.tag, Kind.name, Json.record?, tagged, Option.bind_eq_bind,
      Option.bind_some] at hfield ⊢
    simp only [hfield, Option.bind_some]

theorem listOf_toJsonAll : ∀ (cs : List Constraint) {depth : Nat}, ExactAll cs →
    Json.depthOfItems (toJsonAll cs) ≤ depth →
      Json.decodeEach (ofJsonWithin depth .enclosed) (toJsonAll cs) = some cs
  | [], _, _, _ => rfl
  | c :: cs, _, h, hd => by
    rw [toJsonAll, Json.depthOfItems] at hd
    rw [toJsonAll, Json.decodeEach, ofJsonWithin_toJson c h.1 (by omega),
      listOf_toJsonAll cs h.2 (by omega)]

end

/-- A constraint is read back. -/
theorem ofJson?_toJson {c : Constraint} (h : c.Exact) :
    Constraint.ofJson? place c.toJson = some c :=
  ofJsonWithin_toJson c h (Nat.le_refl _)

end Constraint

namespace Constraints

/-- All object schemas in the constraints are exact. -/
def Exact (cs : Constraints) : Prop := ∀ l, cs = some l → ∀ c ∈ l, c.Exact

theorem Plain.exact {cs : Constraints} (h : Plain cs) : Exact cs :=
  fun l hl c hc => (h l hl c hc).exact

/-- A list of constraints, or its absence, is read back. -/
theorem ofJson?_toJson {cs : Constraints} (h : Exact cs) (place : Json.Place) :
    ofJson? place (toJson cs) = some cs := by
  cases cs with
  | none => rfl
  | some l =>
    have hlist : (Json.arr (l.map Constraint.toJson)).listOf (Constraint.ofJson? place) = some l :=
      Json.listOf_map fun c hc => Constraint.ofJson?_toJson (h l rfl c hc)
    rw [toJson, Constraint.toJsonAll_eq, ofJson?]
    · rw [hlist]
      rfl
    · exact nofun

end Constraints

end Patchbay
