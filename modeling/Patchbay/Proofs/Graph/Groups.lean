import Patchbay.Proofs.Constraint.Permits
import Patchbay.Proofs.Graph.NarrowingStart

/-!
# Types of groups

A source and the sinks that it feeds form a *group* (`GraphState.group`). Narrowing goes from link
to link, and takes the intersection of two pads at a time, but what it computes is the common type
of each group (`narrow_groups`). Once it settles, the pads of a group have equal effective
constraints; these permit only what every declaration in the group permits, and by an extensional
kind all of it. Where narrowing refuses a link, the declarations in its group have nothing in
common by any extensional kind.

Rounds may go on for ever where two sinks have bounds that are zeros of different signs: the source
takes over the order of shapes of the one and then of the other, again and again. So nothing is
said here of rounds that are used up, except that what more of them would find is right as well.

What carries the proof is that on the way the effective constraints of a pad lie between what its
group declares and what the pad itself declares (`Between`). This holds at the start and is kept by
every link.
-/

namespace Patchbay

namespace GraphState

variable {s s' t t' : GraphState} {l : Link} {r r' : PadRef} {p p' q : PadState} {changed : Bool}

/-! ### Groups -/

/-- Every link joins a source to a sink, and no sink has two links. Well-formed graphs are joined
(`WellFormed.joined`). -/
structure Joined (s : GraphState) : Prop where
  sound : ∀ l ∈ s.links, s.isSound l = true
  once : ∀ k ∈ s.links, ∀ l ∈ s.links, k.sink = l.sink → k = l

/-- The source that feeds a pad, or else the pad itself, and all sinks that are fed with it. Pads
of one group have one group (`Joined.group_sink`). -/
def group (s : GraphState) (r : PadRef) : List PadRef :=
  let root := (s.feeder r).getD r
  root :: s.downstream root

theorem feeder_eq_some (h : s.feeder r = some r') : ⟨r', r⟩ ∈ s.links := by
  obtain ⟨l, hl, rfl⟩ := Option.map_eq_some_iff.mp h
  have hsink : l.sink = r := by simpa using List.find?_some hl
  exact hsink ▸ List.mem_of_find?_eq_some hl

theorem mem_downstream : r ∈ s.downstream r' ↔ ⟨r', r⟩ ∈ s.links := by
  simp only [downstream, List.mem_map, List.mem_filter, beq_iff_eq]
  constructor
  · rintro ⟨l, ⟨hl, rfl⟩, rfl⟩
    exact hl
  · intro h
    exact ⟨⟨r', r⟩, ⟨h, rfl⟩, rfl⟩

theorem Joined.ends (hs : s.Joined) (hl : l ∈ s.links) :
    ∃ p q, s.pad? l.source = some p ∧ s.pad? l.sink = some q ∧ p.isSource = true ∧
      q.isSource = false := by
  have hsound := hs.sound l hl
  rw [isSound, Bool.and_eq_true, Option.any_eq_true, Option.any_eq_true] at hsound
  obtain ⟨⟨q, hq, hqs⟩, p, hp, hps⟩ := hsound
  exact ⟨p, q, hp, hq, hps, by simpa using hqs⟩

/-- No pad is at the source of one link and at the sink of another. -/
theorem Joined.source_ne_sink (hs : s.Joined) {k : Link} (hk : k ∈ s.links) (hl : l ∈ s.links) :
    k.source ≠ l.sink := by
  intro h
  obtain ⟨p, -, hp, -, hps, -⟩ := hs.ends hk
  obtain ⟨-, q, -, hq, -, hqs⟩ := hs.ends hl
  rw [h, hq, Option.some.injEq] at hp
  rw [hp, hps] at hqs
  cases hqs

theorem Joined.feeder_sink (hs : s.Joined) (hl : l ∈ s.links) :
    s.feeder l.sink = some l.source := by
  cases h : s.feeder l.sink with
  | none =>
    have hnone := List.find?_eq_none.mp (Option.map_eq_none_iff.mp h) l hl
    simp at hnone
  | some r =>
    have hlink := hs.once _ (feeder_eq_some h) l hl rfl
    rw [← hlink]

theorem Joined.feeder_source (hs : s.Joined) (hl : l ∈ s.links) : s.feeder l.source = none := by
  refine Option.eq_none_iff_forall_ne_some.mpr fun r h => ?_
  exact hs.source_ne_sink hl (feeder_eq_some h) rfl

theorem Joined.group_source (hs : s.Joined) (hl : l ∈ s.links) :
    s.group l.source = l.source :: s.downstream l.source := by
  rw [group, hs.feeder_source hl, Option.getD_none]

theorem Joined.mem_group_source (hs : s.Joined) (hl : l ∈ s.links) :
    r ∈ s.group l.source ↔ r = l.source ∨ ⟨l.source, r⟩ ∈ s.links := by
  rw [hs.group_source hl, List.mem_cons, mem_downstream]

theorem Joined.group_sink (hs : s.Joined) (hl : l ∈ s.links) :
    s.group l.sink = s.group l.source := by
  rw [hs.group_source hl, group, hs.feeder_sink hl, Option.getD_some]

theorem mem_group_self (s : GraphState) (r : PadRef) : r ∈ s.group r := by
  rw [group]
  cases h : s.feeder r with
  | none => exact List.mem_cons_self
  | some r' => exact List.mem_cons_of_mem _ (mem_downstream.mpr (feeder_eq_some h))

/-! ### What groups permit -/

/-- Every declaration in the group of a pad permits a value by a kind (`Constraints.permitsAs`). -/
def groupPermits (s : GraphState) (r : PadRef) (k : Constraint.Kind) (v : Json) : Bool :=
  (s.group r).all fun r' => (s.pad? r').all fun q => q.declared.permitsAs k v

theorem groupPermits_iff {k : Constraint.Kind} {v : Json} : s.groupPermits r k v = true ↔
    ∀ r' ∈ s.group r, ∀ q, s.pad? r' = some q → q.declared.permitsAs k v = true := by
  simp only [groupPermits, List.all_eq_true, Option.all_eq_true]

/-- Effective constraints are the common types of groups: the same at both ends of every link,
sound for every declaration in the group, and exact for extensional kinds. -/
structure GroupTypes (s s' : GraphState) : Prop where
  /-- The ends of every link have equal constraints that are not empty. -/
  ends : ∀ l ∈ s.links, ∃ p q, s'.pad? l.source = some p ∧ s'.pad? l.sink = some q ∧
    p.effective.same q.effective = true ∧ p.effective ≠ some [] ∧ q.effective ≠ some []
  /-- What is permitted is permitted by every declaration in the group. -/
  sound : ∀ r p, s'.pad? r = some p → ∀ v, p.effective.accept v = true →
    ∀ r' ∈ s.group r, ∀ q, s.pad? r' = some q → q.declared.accept v = true
  /-- What is permitted by an extensional kind is just what all of them permit by it. -/
  exact : ∀ r p, s'.pad? r = some p → ∀ k : Constraint.Kind, k.Extensional → ∀ v, v ≠ .null →
    p.effective.permitsAs k v = s.groupPermits r k v

/-- A link is refused whose group declares nothing in common by any extensional kind, and the error
names its ends. -/
def Refuses (s : GraphState) (e : Error) : Prop :=
  ∃ l ∈ s.links, (∃ a b, e = .nothingInCommon l.source l.sink a b) ∧
    ∀ k : Constraint.Kind, k.Extensional → ∀ v, v ≠ .null → s.groupPermits l.source k v = false

/-! ### One link -/

theorem pad?_of_bare (h : t.bare = s.bare) (hp : t.pad? r = some p) :
    ∃ q, s.pad? r = some q ∧ q.bare = p.bare := by
  have hbare : (s.pad? r).map PadState.bare = some p.bare := by
    rw [← pad?_bare, ← h, pad?_bare, hp, Option.map_some]
  obtain ⟨q, hq, hqp⟩ := Option.map_eq_some_iff.mp hbare
  exact ⟨q, hq, hqp⟩

theorem pad?_updatePad (cs : Constraints) (s : GraphState) (r r' : PadRef) :
    (s.updatePad r ({ · with effective := cs })).pad? r' =
      if r' = r then (s.pad? r').map ({ · with effective := cs }) else s.pad? r' := by
  split
  · rename_i h
    rw [h]
    exact pad?_updatePad_self (f := ({ · with effective := cs })) (fun _ => rfl) s r
  · rename_i h
    exact pad?_updatePad_of_ne (f := ({ · with effective := cs })) (fun _ => rfl) h

/-- A link changes nothing but its ends, and those to what they have in common. -/
theorem pad?_narrowLink (hne : l.source ≠ l.sink) (h : s.narrowLink l = .ok (s', changed))
    (hp' : s'.pad? r = some p') :
    s.pad? r = some p' ∨ ∃ p q, s.pad? l.source = some p ∧ s.pad? l.sink = some q ∧
      (r = l.source ∧ p' = { p with effective := p.effective.intersect q.effective } ∨
        r = l.sink ∧ p' = { q with effective := p.effective.intersect q.effective }) := by
  rw [narrowLink] at h
  split at h
  · rename_i p q hp hq
    dsimp only at h
    split at h
    · cases h
    · simp only [Except.ok.injEq, Prod.mk.injEq] at h
      obtain ⟨rfl, -⟩ := h
      -- each of the two updates is made or not, and reaches its own end only
      split at hp' <;> split at hp'
      · rw [pad?_updatePad, pad?_updatePad] at hp'
        grind
      · rw [pad?_updatePad] at hp'
        grind
      · rw [pad?_updatePad] at hp'
        grind
      · exact .inl hp'
  · cases h
    exact .inl hp'

/-! ### What narrowing keeps -/

/-- The effective constraints of every pad lie between what its group and what the pad declares. It
is the invariant of narrowing (`Between.narrowLink`). -/
structure Between (s t : GraphState) : Prop where
  bare : t.bare = s.bare
  sound : ∀ r p, t.pad? r = some p → ∀ v, p.effective.accept v = true → p.declared.accept v = true
  below : ∀ r p, t.pad? r = some p → ∀ k : Constraint.Kind, k.Extensional → ∀ v, v ≠ .null →
    p.effective.permitsAs k v = true → p.declared.permitsAs k v = true
  above : ∀ r p, t.pad? r = some p → ∀ k : Constraint.Kind, k.Extensional → ∀ v, v ≠ .null →
    s.groupPermits r k v = true → p.effective.permitsAs k v = true

theorem between_startNarrowing (s : GraphState) : s.Between (s.startNarrowing []) := by
  have hstart : ∀ r p, (s.startNarrowing []).pad? r = some p → ∃ q, s.pad? r = some q ∧
      p.declared = q.declared ∧ p.effective = q.declared := by
    intro r p hp
    rw [pad?_startNarrowing] at hp
    obtain ⟨q, hq, rfl⟩ := Option.map_eq_some_iff.mp hp
    exact ⟨q, hq, rfl, rfl⟩
  refine ⟨bare_startNarrowing s [], fun r p hp v hv => ?_, fun r p hp k _ v _ hv => ?_,
    fun r p hp k _ v _ hv => ?_⟩
  · obtain ⟨q, -, hdecl, heff⟩ := hstart r p hp
    rwa [hdecl, ← heff]
  · obtain ⟨q, -, hdecl, heff⟩ := hstart r p hp
    rwa [hdecl, ← heff]
  · obtain ⟨q, hq, -, heff⟩ := hstart r p hp
    rw [heff]
    exact groupPermits_iff.mp hv r (mem_group_self s r) q hq

/-- What the group of a link permits, its ends have in common, for they permit it themselves
(`Between`). -/
theorem Between.permitsAs_intersect (hs : s.Joined) (ht : s.Between t) (hl : l ∈ s.links)
    (hp : t.pad? l.source = some p) (hq : t.pad? l.sink = some q) {k : Constraint.Kind}
    (hk : k.Extensional) {v : Json} (hv : v ≠ .null)
    (h : s.groupPermits l.source k v = true) :
    (p.effective.intersect q.effective).permitsAs k v = true := by
  have hsink : s.groupPermits l.sink k v = true := by
    rw [groupPermits, hs.group_sink hl]
    exact h
  rw [Constraints.permitsAs_intersect hk hv, ht.above _ _ hp k hk v hv h,
    ht.above _ _ hq k hk v hv hsink]
  rfl

/-- Narrowing a link keeps the effective constraints between the two. -/
theorem Between.narrowLink (hs : s.Joined) (ht : s.Between t) (hl : l ∈ s.links)
    (h : t.narrowLink l = .ok (t', changed)) : s.Between t' := by
  have hne := hs.source_ne_sink hl hl
  refine ⟨(bare_narrowLink h).trans ht.bare, fun r p' hp' v hv => ?_,
    fun r p' hp' k hk v hvn hv => ?_, fun r p' hp' k hk v hvn hv => ?_⟩
  -- a pad that changed is an end of the link, with what the two ends have in common
  · rcases pad?_narrowLink hne h hp' with hp' | ⟨p, q, hp, hq, ⟨rfl, rfl⟩ | ⟨rfl, rfl⟩⟩
    · exact ht.sound r p' hp' v hv
    · exact ht.sound _ p hp v (Constraints.accept_of_accept_intersect hv).1
    · exact ht.sound _ q hq v (Constraints.accept_of_accept_intersect hv).2
  · rcases pad?_narrowLink hne h hp' with hp' | ⟨p, q, hp, hq, ⟨rfl, rfl⟩ | ⟨rfl, rfl⟩⟩
    · exact ht.below r p' hp' k hk v hvn hv
    · rw [Constraints.permitsAs_intersect hk hvn, Bool.and_eq_true] at hv
      exact ht.below _ p hp k hk v hvn hv.1
    · rw [Constraints.permitsAs_intersect hk hvn, Bool.and_eq_true] at hv
      exact ht.below _ q hq k hk v hvn hv.2
  · rcases pad?_narrowLink hne h hp' with hp' | ⟨p, q, hp, hq, ⟨rfl, rfl⟩ | ⟨rfl, rfl⟩⟩
    · exact ht.above r p' hp' k hk v hvn hv
    · exact ht.permitsAs_intersect hs hl hp hq hk hvn hv
    · refine ht.permitsAs_intersect hs hl hp hq hk hvn ?_
      rw [groupPermits, ← hs.group_sink hl]
      exact hv

/-- A link is refused only if nothing is permitted by its group: whatever it permitted would be
left to its ends. -/
theorem Between.refuses (hs : s.Joined) (ht : s.Between t) (hl : l ∈ s.links) {e : Error}
    (h : t.narrowLink l = .error e) : s.Refuses e := by
  rw [GraphState.narrowLink] at h
  split at h
  · rename_i p q hp hq
    dsimp only at h
    split at h
    · rename_i hempty
      cases h
      refine ⟨l, hl, ⟨_, _, rfl⟩, fun k hk v hv => Bool.eq_false_iff.mpr fun hgroup => ?_⟩
      have hpermits := ht.permitsAs_intersect hs hl hp hq hk hv hgroup
      rw [Constraints.isIncompatible_iff.mp hempty] at hpermits
      cases hpermits
    · cases h
  · cases h

/-! ### Whole runs -/

theorem Joined.ends_of_bare (hs : s.Joined) (hbare : t.bare = s.bare) (hl : l ∈ s.links) :
    ∃ p q, t.pad? l.source = some p ∧ t.pad? l.sink = some q := by
  obtain ⟨p, q, hp, hq, -, -⟩ := hs.ends hl
  obtain ⟨p', hp', -⟩ := pad?_of_bare hbare.symm hp
  obtain ⟨q', hq', -⟩ := pad?_of_bare hbare.symm hq
  exact ⟨p', q', hp', hq'⟩

/-- The pads of a group have equal effective constraints as soon as the ends of links have. -/
theorem same_of_mem_group (hs : s.Joined) (hbare : t.bare = s.bare)
    (hagree : ∀ l ∈ s.links, t.Agrees l) (h : r' ∈ s.group r) (hp : t.pad? r = some p)
    (hq : t.pad? r' = some q) : Constraints.same p.effective q.effective = true := by
  have hroot : ∀ root r' x y, r' ∈ root :: s.downstream root → t.pad? root = some x →
      t.pad? r' = some y → Constraints.same x.effective y.effective = true := by
    intro root r' x y hr' hx hy
    rcases List.mem_cons.mp hr' with rfl | hr'
    · rw [hx, Option.some.injEq] at hy
      rw [hy]
      exact Constraints.same_refl y.effective
    · exact (hagree _ (mem_downstream.mp hr') x y hx hy).1
  rw [group] at h
  cases hf : s.feeder r with
  | none =>
    rw [hf] at h
    exact hroot r r' p q h hp hq
  | some root =>
    rw [hf] at h
    have hlink : ⟨root, r⟩ ∈ s.links := feeder_eq_some hf
    obtain ⟨x, -, hx, -⟩ := hs.ends_of_bare hbare hlink
    have hpx := hroot root r x p (List.mem_cons_of_mem _ (mem_downstream.mpr hlink)) hx hp
    exact Constraints.same_trans (Constraints.same_symm hpx) (hroot root r' x q h hx hq)

/-- Where every link agrees (`Agrees`), constraints that lie between are the types of groups. -/
theorem Between.groupTypes (hs : s.Joined) (ht : s.Between t)
    (hagree : ∀ l ∈ s.links, t.Agrees l) :
    s.GroupTypes t := by
  have hdeclared : ∀ r' q, s.pad? r' = some q →
      ∃ q', t.pad? r' = some q' ∧ q'.declared = q.declared := by
    intro r' q hq
    obtain ⟨q', hq', hb⟩ := pad?_of_bare ht.bare.symm hq
    obtain ⟨-, -, -, hdecl, -, -⟩ := PadState.bare_eq_iff.mp hb
    exact ⟨q', hq', hdecl⟩
  refine ⟨fun l hl => ?_, fun r p hp v hv r' hr' q hq => ?_, fun r p hp k hk v hvn =>
    Bool.eq_iff_iff.mpr ⟨fun hv => groupPermits_iff.mpr ?_, ht.above r p hp k hk v hvn⟩⟩
  · obtain ⟨p, q, hp, hq⟩ := hs.ends_of_bare ht.bare hl
    obtain ⟨hsame, hp', hq'⟩ := hagree l hl p q hp hq
    refine ⟨p, q, hp, hq, hsame, fun h => ?_, fun h => ?_⟩
    · rw [Constraints.isIncompatible_iff.mpr h] at hp'
      cases hp'
    · rw [Constraints.isIncompatible_iff.mpr h] at hq'
      cases hq'
  · obtain ⟨q', hq', hdecl⟩ := hdeclared r' q hq
    have hsame := same_of_mem_group hs ht.bare hagree hr' hp hq'
    rw [Constraints.accept_congr hsame] at hv
    exact hdecl ▸ ht.sound r' q' hq' v hv
  · intro r' hr' q hq
    obtain ⟨q', hq', hdecl⟩ := hdeclared r' q hq
    have hsame := same_of_mem_group hs ht.bare hagree hr' hp hq'
    rw [Constraints.permitsAs_congr hsame] at hv
    exact hdecl ▸ ht.below r' q' hq' k hk v hvn hv

/-- Rounds that settle leave the common type of every group on its pads (`GroupTypes`), and rounds
that are refused are so at a link whose group has none (`Refuses`), however many rounds there are.
-/
theorem narrowRounds_groups (hs : s.Joined) (n : Nat) :
    (∀ s', narrowRounds n (s.startNarrowing []) = .settled s' → s.GroupTypes s') ∧
      ∀ e, narrowRounds n (s.startNarrowing []) = .refused e → s.Refuses e := by
  have hlinks : ∀ {t : GraphState}, s.Between t → t.links = s.links :=
    fun ht => (bare_eq_iff.mp ht.bare).2
  have hstep : ∀ t l t' changed, l ∈ t.links → s.Between t → t.narrowLink l = .ok (t', changed) →
      s.Between t' :=
    fun t l t' _ hl ht h => ht.narrowLink hs (hlinks ht ▸ hl) h
  refine ⟨fun s' h => ?_, fun e h => ?_⟩
  · obtain ⟨hbetween, hagree⟩ := narrowRounds_settled hstep (between_startNarrowing s) h
    exact hbetween.groupTypes hs (hlinks hbetween ▸ hagree)
  · exact narrowRounds_refused hstep (fun t l e hl ht h => ht.refuses hs (hlinks ht ▸ hl) h)
      (between_startNarrowing s) h

/-- Narrowing computes the common type of every group (`GraphState.GroupTypes`). Where it fails, it
refuses a link whose group has none (`GraphState.Refuses`), unless it used up its rounds; and what
it would find with more rounds, it finds right as well. Which zero is kept as a bound does not
matter, for types are compared by what they permit. -/
theorem narrow_groups (hs : s.Joined) :
    (∀ s', s.narrow [] = .ok s' → s.GroupTypes s') ∧
      (∀ e, s.narrow [] = .error e → s.Refuses e ∨
        narrowRounds (s.startNarrowing []).roundLimit (s.startNarrowing []) = .unfinished) ∧
      ∀ n, (∀ s', narrowRounds n (s.startNarrowing []) = .settled s' → s.GroupTypes s') ∧
        ∀ e, narrowRounds n (s.startNarrowing []) = .refused e → s.Refuses e := by
  refine ⟨fun s' h => ?_, fun e h => ?_, narrowRounds_groups hs⟩
  · obtain ⟨hsettled, -⟩ := narrowRounds_groups hs (s.startNarrowing []).roundLimit
    rw [narrow] at h
    split at h <;> cases h
    exact hsettled s' (by assumption)
  · obtain ⟨-, hrefused⟩ := narrowRounds_groups hs (s.startNarrowing []).roundLimit
    rw [narrow] at h
    split at h
    · cases h
    · rename_i hr
      cases h
      exact .inl (hrefused _ hr)
    · exact .inr (by assumption)

/-- A source of numbers up to ten feeds two sinks, of numbers from five on and of numbers up to
seven. -/
def fanOut : GraphState where
  nodes :=
    [{ id := "a", nodeType := "", editor := {}, state := .resolved, body := default,
       pads := [{ id := "out", padType := .propertySource,
                  declared := some [.integer (some 0) (some 10)] }] },
      { id := "b", nodeType := "", editor := {}, state := .resolved, body := default,
        pads := [{ id := "in", padType := .propertySink,
                   declared := some [.integer (some 5) none, .string] }] },
      { id := "c", nodeType := "", editor := {}, state := .resolved, body := default,
        pads := [{ id := "in", padType := .propertySink,
                   declared := some [.integer none (some 7)] }] }]
  links := [⟨⟨"a", "out"⟩, ⟨"b", "in"⟩⟩, ⟨⟨"a", "out"⟩, ⟨"c", "in"⟩⟩]

/-- All three pads become pads of numbers from five to seven. -/
theorem narrow_groups_fanOut :
    fanOut.Joined ∧ ∃ s', fanOut.narrow [] = .ok s' ∧ ∀ r ∈ fanOut.group ⟨"b", "in"⟩,
      ∀ p, s'.pad? r = some p → p.effective.permitsAs .integer (.int 6) = true ∧
        p.effective.permitsAs .integer (.int 8) = false := by
  have hjoined : fanOut.Joined := ⟨by decide, by decide⟩
  have hok : (fanOut.narrow []).isOk = true := by decide +kernel
  cases h : fanOut.narrow [] with
  | error e =>
    rw [h] at hok
    cases hok
  | ok s' =>
    have htypes := (narrow_groups hjoined).1 s' h
    have hsix : ∀ r ∈ fanOut.group ⟨"b", "in"⟩, fanOut.groupPermits r .integer (.int 6) =
        true := by
      decide
    have hmore : ∀ r ∈ fanOut.group ⟨"b", "in"⟩,
        fanOut.groupPermits r .integer (.int 8) = false := by
      decide
    refine ⟨hjoined, s', rfl, fun r hr p hp => ?_⟩
    exact ⟨(htypes.exact r p hp .integer (by decide) (.int 6) nofun).trans (hsix r hr),
      (htypes.exact r p hp .integer (by decide) (.int 8) nofun).trans (hmore r hr)⟩

end GraphState

end Patchbay
