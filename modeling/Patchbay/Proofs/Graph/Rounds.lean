import Patchbay.Proofs.Graph.Groups
import Patchbay.Proofs.Graph.Narrowing
import Patchbay.Proofs.Constraint.Slim

/-!
# Narrowing ends after three rounds

Where all types are slim, intersections can be grouped in any way, and to intersect with a part
once more changes nothing (`Constraints.Slim.absorb`). So the first round takes every source down
to what it has in common with all its sinks, the second one takes the sinks down to their source,
and the third one finds that the ends of all links agree. Rounds are never used up
(`narrow_of_slim`).
-/

namespace Patchbay.GraphState

variable {s t t' : GraphState} {l k : Link} {r : PadRef} {p q : PadState} {a b : Constraints}
  {ls : List Link} {changed : Bool} {n : Nat} {external : External}

/-- The effective constraints of the pad at an address. -/
def effective? (s : GraphState) (r : PadRef) : Option Constraints := (s.pad? r).map (·.effective)

/-- The effective constraints at both ends of a link are slim. -/
def SlimAt (s : GraphState) (l : Link) : Prop :=
  ∀ r, r = l.source ∨ r = l.sink → ∀ a, s.effective? r = some a → a.Slim

theorem effective?_updatePad (cs : Constraints) (s : GraphState) (r r' : PadRef) :
    (s.updatePad r ({ · with effective := cs })).effective? r' =
      if r' = r then (s.effective? r').map fun _ => cs else s.effective? r' := by
  rw [effective?, effective?, pad?_updatePad]
  split
  · rw [Option.map_map, Option.map_map]
    rfl
  · rfl

/-- Both ends of a link take over what they have in common, and that is some shape; what is equal
to an end has to be that end. -/
theorem effective?_narrowLink_of (hne : l.source ≠ l.sink) (ha : t.effective? l.source = some a)
    (hb : t.effective? l.sink = some b)
    (hsame : ∀ c, c = a ∨ c = b → (a.intersect b).same c = true → a.intersect b = c)
    (h : t.narrowLink l = .ok (t', changed)) :
    (∀ r, t'.effective? r =
        if r = l.source ∨ r = l.sink then some (a.intersect b) else t.effective? r) ∧
      a.intersect b ≠ some [] ∧ (a.intersect b = a → a.intersect b = b → changed = false) := by
  obtain ⟨p, hp, rfl⟩ := Option.map_eq_some_iff.mp ha
  obtain ⟨q, hq, rfl⟩ := Option.map_eq_some_iff.mp hb
  rw [narrowLink, hp, hq] at h
  dsimp only at h
  split at h
  · cases h
  · rename_i hcompat
    simp only [Except.ok.injEq, Prod.mk.injEq] at h
    obtain ⟨rfl, rfl⟩ := h
    refine ⟨fun r => ?_, fun hempty => hcompat (Constraints.isIncompatible_iff.mpr hempty),
      fun hpe hqe => ?_⟩
    · -- an end that is not changed has the constraints in common already
      cases hsp : (p.effective.intersect q.effective).same p.effective <;>
        cases hsq : (p.effective.intersect q.effective).same q.effective <;>
        simp only [Bool.not_true, Bool.not_false, Bool.false_eq_true, if_true, if_false,
          effective?_updatePad]
      · clear hsame
        by_cases h₁ : r = l.source <;> by_cases h₂ : r = l.sink <;> simp_all
      · have heq := hsame _ (.inr rfl) hsq
        clear hsame
        by_cases h₁ : r = l.source <;> by_cases h₂ : r = l.sink <;> simp_all
      · have heq := hsame _ (.inl rfl) hsp
        clear hsame
        by_cases h₁ : r = l.source <;> by_cases h₂ : r = l.sink <;> simp_all
      · have heq := hsame _ (.inl rfl) hsp
        have heq' := hsame _ (.inr rfl) hsq
        clear hsame
        by_cases h₁ : r = l.source <;> by_cases h₂ : r = l.sink <;> simp_all
    · have hsp : (p.effective.intersect q.effective).same p.effective = true := by
        rw [hpe]
        exact Constraints.same_refl _
      have hsq : (p.effective.intersect q.effective).same q.effective = true := by
        rw [hqe]
        exact Constraints.same_refl _
      rw [hsp, hsq]
      rfl

theorem SlimAt.effective?_narrowLink (hslim : t.SlimAt l) (hne : l.source ≠ l.sink)
    (ha : t.effective? l.source = some a) (hb : t.effective? l.sink = some b)
    (h : t.narrowLink l = .ok (t', changed)) :
    (∀ r, t'.effective? r =
        if r = l.source ∨ r = l.sink then some (a.intersect b) else t.effective? r) ∧
      a.intersect b ≠ some [] ∧ (a.intersect b = a → a.intersect b = b → changed = false) := by
  refine effective?_narrowLink_of hne ha hb (fun c hc hsame => ?_) h
  have hsource := hslim _ (.inl rfl) _ ha
  have hsink := hslim _ (.inr rfl) _ hb
  have hmerged := hsource.intersect hsink
  rcases hc with rfl | rfl
  · exact hmerged.eq_of_same hsource hsame
  · exact hmerged.eq_of_same hsink hsame

/-! ### One round -/

/-- A state of narrowing in which the types of linked pads are slim (`SlimAt`). Narrowing a link
keeps it. -/
structure Narrowed (s t : GraphState) : Prop where
  bare : t.bare = s.bare
  slim : ∀ l ∈ s.links, t.SlimAt l

/-- The source of a link has been narrowed to a part of what the sink has, so that the link takes
nothing away from it any more. -/
def Within (t : GraphState) (l : Link) : Prop :=
  ∃ a z, z.Slim ∧ t.effective? l.sink = some a ∧ t.effective? l.source = some (a.intersect z)

/-- The ends of a link have the same effective constraints. -/
def Level (t : GraphState) (l : Link) : Prop :=
  ∃ a, t.effective? l.sink = some a ∧ t.effective? l.source = some a

theorem Level.within (h : t.Level l) : t.Within l := by
  obtain ⟨a, hsink, hsource⟩ := h
  refine ⟨a, none, Constraints.slim_none, hsink, hsource.trans ?_⟩
  cases a <;> rfl

theorem Narrowed.ends (ht : s.Narrowed t) (hs : s.Joined) (hl : l ∈ s.links) :
    ∃ a b, t.effective? l.source = some a ∧ t.effective? l.sink = some b := by
  obtain ⟨p, q, hp, hq⟩ := hs.ends_of_bare ht.bare hl
  exact ⟨p.effective, q.effective, by rw [effective?, hp]; rfl, by rw [effective?, hq]; rfl⟩

theorem Narrowed.narrowLink (ht : s.Narrowed t) (hs : s.Joined) (hl : l ∈ s.links)
    (h : t.narrowLink l = .ok (t', changed)) : s.Narrowed t' := by
  obtain ⟨a, b, ha, hb⟩ := ht.ends hs hl
  obtain ⟨hget, -, -⟩ := (ht.slim l hl).effective?_narrowLink (hs.source_ne_sink hl hl) ha hb h
  refine ⟨(bare_narrowLink h).trans ht.bare, fun k hk r hr c hc => ?_⟩
  rw [hget] at hc
  split at hc
  · exact Option.some.inj hc ▸
      (ht.slim l hl _ (.inl rfl) _ ha).intersect (ht.slim l hl _ (.inr rfl) _ hb)
  · exact ht.slim k hk r hr c hc

/-- In the first round a link takes its source down to a part of what the sink has (`Within`), and
those before it stay that way. -/
theorem Narrowed.within_narrowLink (ht : s.Narrowed t) (hs : s.Joined) (hl : l ∈ s.links)
    (h : t.narrowLink l = .ok (t', changed)) (hk : k ∈ s.links) (hwithin : k = l ∨ t.Within k) :
    t'.Within k := by
  obtain ⟨a, b, ha, hb⟩ := ht.ends hs hl
  obtain ⟨hget, -, -⟩ := (ht.slim l hl).effective?_narrowLink (hs.source_ne_sink hl hl) ha hb h
  by_cases hkl : k = l
  · subst hkl
    exact Level.within ⟨a.intersect b, by rw [hget, if_pos (.inr rfl)], by
      rw [hget, if_pos (.inl rfl)]⟩
  · obtain ⟨c, z, hz, hsink, hsource⟩ := hwithin.resolve_left hkl
    have hother : ¬ (k.sink = l.source ∨ k.sink = l.sink) := by
      rintro (heq | heq)
      · exact hs.source_ne_sink hl hk heq.symm
      · exact hkl (hs.once k hk l hl heq)
    by_cases hshared : k.source = l.source
    · -- the common source is narrowed once more, which can be counted to what it was narrowed by
      have hac : a = c.intersect z := Option.some.inj ((hshared ▸ ha).symm.trans hsource)
      have hslim := ht.slim l hl _ (.inr rfl) _ hb
      refine ⟨c, z.intersect b, hz.intersect hslim, ?_, ?_⟩
      · rw [hget, if_neg hother, hsink]
      · rw [hget, if_pos (.inl hshared), hac,
          (ht.slim k hk _ (.inr rfl) _ hsink).intersect_assoc hz hslim]
    · refine ⟨c, z, hz, ?_, ?_⟩
      · rw [hget, if_neg hother, hsink]
      · rw [hget, if_neg (not_or.mpr ⟨hshared, hs.source_ne_sink hk hl⟩), hsource]

/-- What narrowing one link after the other adds up to. -/
theorem narrowLinks_prefix {I : List Link → GraphState → Prop}
    (hstep : ∀ done l t t' changed, l ∈ s.links → I done t → t.narrowLink l = .ok (t', changed) →
      I (done ++ [l]) t')
    (hls : ∀ l ∈ ls, l ∈ s.links) (ht : I [] t) (h : t.narrowLinks ls = .ok (t', changed)) :
    I ls t' := by
  have hall : ∀ ls done t t' changed, (∀ l ∈ ls, l ∈ s.links) → I done t →
      t.narrowLinks ls = .ok (t', changed) → I (done ++ ls) t' := by
    intro ls
    induction ls with
    | nil =>
      intro done t t' changed _ ht h
      cases h
      rwa [List.append_nil]
    | cons l rest ih =>
      intro done t t' changed hls ht h
      obtain ⟨hl, hrest⟩ := List.forall_mem_cons.mp hls
      rw [narrowLinks] at h
      obtain ⟨⟨t₁, c₁⟩, h₁, h⟩ := bind_eq_ok_iff.mp h
      obtain ⟨⟨t₂, c₂⟩, h₂, h⟩ := bind_eq_ok_iff.mp h
      simp only [Except.ok.injEq, Prod.mk.injEq] at h
      obtain ⟨rfl, -⟩ := h
      rw [List.append_cons]
      exact ih _ _ _ _ hrest (hstep _ _ _ _ _ hl ht h₁) h₂
  exact hall ls [] t t' changed hls ht h

/-- After the first round every source has a part of what each of its sinks has (`Within`). -/
theorem Narrowed.first (ht : s.Narrowed t) (hs : s.Joined)
    (h : t.narrowLinks s.links = .ok (t', changed)) :
    s.Narrowed t' ∧ ∀ l ∈ s.links, t'.Within l := by
  have hend := narrowLinks_prefix (s := s)
    (I := fun done t => s.Narrowed t ∧ ∀ k ∈ s.links, k ∈ done → t.Within k)
    (fun done l t t' changed hl ⟨ht, hdone⟩ h => ⟨ht.narrowLink hs hl h, fun k hk hmem => ?_⟩)
    (fun _ hl => hl) ⟨ht, fun _ _ hk => by cases hk⟩ h
  · exact ⟨hend.1, fun l hl => hend.2 l hl hl⟩
  · refine ht.within_narrowLink hs hl h hk ?_
    rcases List.mem_append.mp hmem with hmem | hmem
    · exact .inr (hdone k hk hmem)
    · exact .inl (List.mem_singleton.mp hmem)

/-- A link whose source has a part of what the sink has leaves the source as it is. -/
theorem Narrowed.level_narrowLink (ht : s.Narrowed t) (hs : s.Joined) (hl : l ∈ s.links)
    (hwithin : t.Within l) (h : t.narrowLink l = .ok (t', changed)) :
    t'.Level l ∧ (∀ r, r ≠ l.sink → t'.effective? r = t.effective? r) ∧
      (t.Level l → changed = false) := by
  obtain ⟨a, z, hz, hsink, hsource⟩ := hwithin
  obtain ⟨hget, hcompat, hflag⟩ :=
    (ht.slim l hl).effective?_narrowLink (hs.source_ne_sink hl hl) hsource hsink h
  have hmerged := ((ht.slim l hl _ (.inr rfl) _ hsink).absorb hz).resolve_right hcompat
  refine ⟨⟨a.intersect z, ?_, ?_⟩, fun r hr => ?_, fun ⟨c, hc, hc'⟩ => hflag hmerged ?_⟩
  · rw [hget, if_pos (.inr rfl), hmerged]
  · rw [hget, if_pos (.inl rfl), hmerged]
  · rw [hget]
    split
    · rename_i hr'
      rw [hr'.resolve_right hr, hsource, hmerged]
    · rfl
  · rw [hmerged]
    exact (Option.some.inj (hsource.symm.trans hc')).trans (Option.some.inj (hc.symm.trans hsink))

/-- After the second round the ends of every link have the same (`Level`). -/
theorem Narrowed.second (ht : s.Narrowed t) (hs : s.Joined) (hwithin : ∀ l ∈ s.links, t.Within l)
    (h : t.narrowLinks s.links = .ok (t', changed)) :
    s.Narrowed t' ∧ ∀ l ∈ s.links, t'.Level l := by
  have hend := narrowLinks_prefix (s := s)
    (I := fun done t => s.Narrowed t ∧ (∀ k ∈ s.links, t.Within k) ∧ ∀ k ∈ s.links, k ∈ done →
      t.Level k)
    (fun done l t t' changed hl ⟨ht, hwithin, hdone⟩ h => ?_)
    (fun _ hl => hl) ⟨ht, hwithin, fun _ _ hk => by cases hk⟩ h
  · exact ⟨hend.1, fun l hl => hend.2.2 l hl hl⟩
  · obtain ⟨hlevel, hothers, -⟩ := ht.level_narrowLink hs hl (hwithin l hl) h
    have hkeep : ∀ k ∈ s.links, k ≠ l → t'.effective? k.sink = t.effective? k.sink ∧
        t'.effective? k.source = t.effective? k.source := fun k hk hkl =>
      ⟨hothers _ fun heq => hkl (hs.once k hk l hl heq), hothers _ (hs.source_ne_sink hk hl)⟩
    refine ⟨ht.narrowLink hs hl h, fun k hk => ?_, fun k hk hmem => ?_⟩
    · by_cases hkl : k = l
      · exact hkl ▸ hlevel.within
      · obtain ⟨hsink, hsource⟩ := hkeep k hk hkl
        obtain ⟨a, z, hz, ha, hz'⟩ := hwithin k hk
        exact ⟨a, z, hz, hsink.trans ha, hsource.trans hz'⟩
    · by_cases hkl : k = l
      · exact hkl ▸ hlevel
      · obtain ⟨hsink, hsource⟩ := hkeep k hk hkl
        have hmem : k ∈ done := (List.mem_append.mp hmem).resolve_right fun h =>
          hkl (List.mem_singleton.mp h)
        obtain ⟨a, ha, ha'⟩ := hdone k hk hmem
        exact ⟨a, hsink.trans ha, hsource.trans ha'⟩

/-- A round over links whose ends have the same changes nothing. -/
theorem Narrowed.third (ht : s.Narrowed t) (hs : s.Joined) (hlevel : ∀ l ∈ s.links, t.Level l)
    (hls : ∀ l ∈ ls, l ∈ s.links) (h : t.narrowLinks ls = .ok (t', changed)) :
    changed = false := by
  induction ls generalizing changed with
  | nil =>
    cases h
    rfl
  | cons l rest ih =>
    obtain ⟨hl, hrest⟩ := List.forall_mem_cons.mp hls
    rw [narrowLinks] at h
    obtain ⟨⟨t₁, c₁⟩, h₁, h⟩ := bind_eq_ok_iff.mp h
    obtain ⟨⟨t₂, c₂⟩, h₂, h⟩ := bind_eq_ok_iff.mp h
    simp only [Except.ok.injEq, Prod.mk.injEq] at h
    obtain ⟨rfl, rfl⟩ := h
    obtain rfl : c₁ = false :=
      (ht.level_narrowLink hs hl (hlevel l hl).within h₁).2.2 (hlevel l hl)
    obtain ⟨rfl, -⟩ := narrowLink_unchanged h₁
    rw [ih hrest h₂]
    rfl

/-! ### Three rounds -/

theorem Narrowed.links (ht : s.Narrowed t) : t.links = s.links := (bare_eq_iff.mp ht.bare).2

/-- Three rounds are enough. -/
theorem Narrowed.narrowRounds_ne_unfinished (ht : s.Narrowed t) (hs : s.Joined) (n : Nat) :
    narrowRounds (n + 3) t ≠ .unfinished := by
  rw [narrowRounds, ht.links]
  cases h₁ : t.narrowLinks s.links with
  | error e => simp
  | ok x =>
    obtain ⟨t₁, c₁⟩ := x
    obtain ⟨ht₁, hwithin⟩ := ht.first hs h₁
    cases c₁ with
    | false => simp
    | true =>
      simp only [if_true]
      rw [narrowRounds, ht₁.links]
      cases h₂ : t₁.narrowLinks s.links with
      | error e => simp
      | ok x =>
        obtain ⟨t₂, c₂⟩ := x
        obtain ⟨ht₂, hlevel⟩ := ht₁.second hs hwithin h₂
        cases c₂ with
        | false => simp
        | true =>
          simp only [if_true]
          rw [narrowRounds, ht₂.links]
          cases h₃ : t₂.narrowLinks s.links with
          | error e => simp
          | ok x =>
            obtain ⟨t₃, c₃⟩ := x
            rw [ht₂.third hs hlevel (fun _ hl => hl) h₃]
            simp

theorem le_roundLimit (s : GraphState) : 2 * s.typeWeight + 4 ≤ s.roundLimit := by
  have hpow := Nat.lt_two_pow_self (n := s.typeWeight + 1)
  have hdouble : 2 * s.typeWeight + 4 ≤ 2 ^ (s.typeWeight + 2) := by
    rw [Nat.pow_succ]
    omega
  rw [roundLimit, Nat.one_shiftLeft]
  exact hdouble.trans (Nat.pow_le_pow_right (by decide) (by omega))

/-- Narrowing settles, or refuses a link. -/
theorem Narrowed.narrow_cases (hs : s.Joined) (hstart : s.Narrowed (s.startNarrowing external)) :
    (∃ s', s.narrow external = .ok s') ∨ ∃ n e,
      narrowRounds n (s.startNarrowing external) = .refused e ∧ s.narrow external = .error e := by
  have hlimit : 3 ≤ (s.startNarrowing external).roundLimit :=
    Nat.le_trans (by omega) (le_roundLimit _)
  obtain ⟨n, hn⟩ := Nat.exists_eq_add_of_le' hlimit
  rw [narrow, hn]
  cases h : narrowRounds (n + 3) (s.startNarrowing external) with
  | settled s' => exact .inl ⟨s', rfl⟩
  | refused e => exact .inr ⟨n + 3, e, h, rfl⟩
  | unfinished => exact absurd h (hstart.narrowRounds_ne_unfinished hs n)

/-- Narrowing of slim declarations settles, or refuses a link whose ends have nothing in common.
Three rounds are enough, so the limit is never reached (`Narrowed.narrowRounds_ne_unfinished`). -/
theorem narrow_of_slim (hs : s.Joined) (hslim : ∀ r a, s.declared? r = some a → a.Slim) :
    (∃ s', s.narrow [] = .ok s') ∨
      ∃ l ∈ s.links, ∃ a b, s.narrow [] = .error (.nothingInCommon l.source l.sink a b) := by
  have hstart : s.Narrowed (s.startNarrowing []) := by
    refine ⟨bare_startNarrowing s [], fun l _ r _ a ha => ?_⟩
    rw [effective?, pad?_startNarrowing, Option.map_map] at ha
    exact hslim r a ha
  rcases hstart.narrow_cases hs with hok | ⟨n, e, he, herror⟩
  · exact .inl hok
  · obtain ⟨l, hl, ⟨a, b, rfl⟩, -⟩ := (narrowRounds_groups hs n).2 e he
    exact .inr ⟨l, hl, a, b, herror⟩

end Patchbay.GraphState
