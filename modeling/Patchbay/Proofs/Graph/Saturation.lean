import Patchbay.Proofs.Constraint.Products
import Patchbay.Proofs.Graph.Rounds

/-!
# Narrowing ends

What narrowing leaves a pad with is a product of the constraints that the pads of its group started
with. Which product shows in a word of pads (`GraphState.Worded`): narrowing a link writes the
words of its ends one behind the other. After the first round the word of a source holds all pads
of its group, and from then on it only grows at its end (`Round`). Every round adds every pad of
the group at least once, so that after some rounds the words of all pads of a group stand for the
same product (`Constraints.product_eq_of_saturated`), and the next round changes nothing.

The number of rounds is bounded by the number of parts of the types at the start
(`narrow_settles`). All this rests on shapes in the items of lists that meet in any order. Where
they do not, two sinks may pull their source to and fro without end (`narrowRounds_fork`).
-/

namespace Patchbay.GraphState

open Constraint Constraints

variable {s t t' : GraphState} {k l : Link} {r : PadRef} {f : PadRef → Constraints}
  {changed : Bool} {n : Nat} {done ls : List Link} {external : External}

/-! ### Words of pads -/

/-- Words of pads, for every pad. A word stands for the product of what its pads started with. -/
abbrev Words := PadRef → List PadRef

variable {B W : Words}

/-- Both ends of a link take over both their words. -/
def joinWords (W : Words) (l : Link) : Words := fun r =>
  if r = l.source ∨ r = l.sink then W l.source ++ W l.sink else W r

theorem joinWords_source (hs : s.Joined) (hk : k ∈ s.links) (hl : l ∈ s.links) (W : Words) :
    joinWords W l k.source = if k.source = l.source then W l.source ++ W l.sink
    else W k.source := by
  rw [joinWords]
  exact if_congr (or_iff_left (hs.source_ne_sink hk hl)) rfl rfl

theorem joinWords_sink (hs : s.Joined) (hk : k ∈ s.links) (hl : l ∈ s.links) (W : Words) :
    joinWords W l k.sink = if k = l then W l.source ++ W l.sink else W k.sink := by
  rw [joinWords]
  refine if_congr ⟨fun h => ?_, fun h => .inr (h ▸ rfl)⟩ rfl rfl
  exact hs.once k hk l hl (h.resolve_left (hs.source_ne_sink hl hk).symm)

/-- The shapes that the pads of a group start with are fit (`Constraint.Fit`), by a family of the
group. -/
def FitGroups (s : GraphState) (f : PadRef → Constraints) : Prop :=
  ∀ l ∈ s.links, ∃ K, Family K ∧ ∀ r ∈ s.group l.source, (f r).Each (Fit K)

/-- Effective constraints are products of words of pads (`Constraints.product`), each of its own
group. -/
structure Worded (s : GraphState) (f : PadRef → Constraints) (W : Words) (t : GraphState) :
    Prop where
  bare : t.bare = s.bare
  effective : ∀ r a, t.effective? r = some a → a = product f (W r)
  source : ∀ l ∈ s.links, ∀ r ∈ W l.source, r ∈ s.group l.source
  sink : ∀ l ∈ s.links, ∀ r ∈ W l.sink, r ∈ s.group l.source

/-- Narrowing a link joins the words of its ends (`joinWords`), and changes nothing if the ends
stand for the joined word. -/
theorem Worded.narrowLink (ht : s.Worded f W t) (hs : s.Joined) (hfit : s.FitGroups f)
    (hl : l ∈ s.links)
    (h : t.narrowLink l = .ok (t', changed)) : s.Worded f (joinWords W l) t' ∧
      (product f (W l.source ++ W l.sink) = product f (W l.source) →
        product f (W l.source ++ W l.sink) = product f (W l.sink) → changed = false) := by
  obtain ⟨p, q, hp, hq⟩ := hs.ends_of_bare ht.bare hl
  have ha : t.effective? l.source = some p.effective := by rw [effective?, hp]; rfl
  have hb : t.effective? l.sink = some q.effective := by rw [effective?, hq]; rfl
  obtain ⟨K, hK, hgroup⟩ := hfit l hl
  have hword : FitWord K f (W l.source ++ W l.sink) := List.forall_mem_append.mpr
    ⟨fun r hr => hgroup r (ht.source l hl r hr), fun r hr => hgroup r (ht.sink l hl r hr)⟩
  have hdefinite := definite_product hK hword
  have hsink : FitWord K f (W l.sink) := fun r hr => hword r (List.mem_append_right _ hr)
  rw [ht.effective _ _ ha] at ha
  rw [ht.effective _ _ hb] at hb
  obtain ⟨hget, -, hflag⟩ :=
    effective?_narrowLink_of (hs.source_ne_sink hl hl) ha hb (fun c hc hsame => by
      rw [← product_append hK hword] at hsame ⊢
      rcases hc with rfl | rfl
      · exact hdefinite.eq_of_same (definite_product hK hword.left) hsame
      · exact hdefinite.eq_of_same (definite_product hK hsink) hsame) h
  rw [← product_append hK hword] at hget hflag
  refine ⟨⟨(bare_narrowLink h).trans ht.bare, fun r c hc => ?_, fun k hk r hr => ?_,
    fun k hk r hr => ?_⟩, hflag⟩
  · rw [hget] at hc
    rw [joinWords]
    split
    · rename_i hr
      rw [if_pos hr] at hc
      exact (Option.some.inj hc).symm
    · rename_i hr
      rw [if_neg hr] at hc
      exact ht.effective r c hc
  · rw [joinWords_source hs hk hl] at hr
    split at hr
    · rename_i hsource
      rw [hsource]
      exact (List.mem_append.mp hr).elim (ht.source l hl r) (ht.sink l hl r)
    · exact ht.source k hk r hr
  · rw [joinWords_sink hs hk hl] at hr
    split at hr
    · rename_i hkl
      rw [hkl]
      exact (List.mem_append.mp hr).elim (ht.source l hl r) (ht.sink l hl r)
    · exact ht.sink k hk r hr

/-! ### The first round -/

theorem mem_done_of_ne (h : k ∈ done ++ [l]) (hne : k ≠ l) : k ∈ done :=
  (List.mem_append.mp h).resolve_right fun hmem => hne (List.mem_singleton.mp hmem)

/-- In the first round the ends of the links that are done come to stand in each other's words, so
that after it the word of a source holds its group. -/
structure First (s : GraphState) (W : Words) (done : List Link) : Prop where
  source : ∀ l ∈ s.links, l.source ∈ W l.source
  sink : ∀ l ∈ s.links, l.sink ∈ W l.sink
  done : ∀ l ∈ s.links, l ∈ done → l.source ∈ W l.sink ∧ l.sink ∈ W l.source

theorem First.joinWords (h : s.First W done) (hs : s.Joined) (hl : l ∈ s.links) :
    s.First (joinWords W l) (done ++ [l]) := by
  refine ⟨fun k hk => ?_, fun k hk => ?_, fun k hk hdone => ⟨?_, ?_⟩⟩
  · rw [joinWords_source hs hk hl]
    split
    · rename_i hsource
      exact List.mem_append_left _ (hsource ▸ h.source k hk)
    · exact h.source k hk
  · rw [joinWords_sink hs hk hl]
    split
    · rename_i hkl
      exact List.mem_append_right _ (hkl ▸ h.sink k hk)
    · exact h.sink k hk
  · rw [joinWords_sink hs hk hl]
    split
    · rename_i hkl
      exact List.mem_append_left _ (hkl ▸ h.source k hk)
    · rename_i hkl
      exact (h.done k hk (mem_done_of_ne hdone hkl)).1
  · rw [joinWords_source hs hk hl]
    by_cases hkl : k = l
    · rw [if_pos (hkl ▸ rfl)]
      exact List.mem_append_right _ (hkl ▸ h.sink k hk)
    · have hmem := (h.done k hk (mem_done_of_ne hdone hkl)).2
      split
      · rename_i hsource
        exact List.mem_append_left _ (hsource ▸ hmem)
      · exact hmem

/-! ### Further rounds -/

/-- A word goes on behind the base of a source, with every pad of the group so many times at least.
-/
def Grown (s : GraphState) (B : Words) (n : Nat) (r : PadRef) (w : List PadRef) : Prop :=
  B r <+: w ∧ ∀ r' ∈ s.group r, n + (B r).count r' ≤ w.count r'

/-- In a further round the words of sources grow (`Grown`), and sinks take them over. -/
structure Round (s : GraphState) (B W : Words) (n : Nat) (done : List Link) : Prop where
  base : ∀ l ∈ s.links, ∀ r, r ∈ B l.source ↔ r ∈ s.group l.source
  sink : ∀ l ∈ s.links, l.source ∈ W l.sink ∧ l.sink ∈ W l.sink
  source : ∀ l ∈ s.links, s.Grown B n l.source (W l.source)
  more : ∀ l ∈ s.links, l ∈ done → ∀ r, r = l.source ∨ r = l.sink →
    n + 1 + (B l.source).count r ≤ (W l.source).count r
  passed : ∀ l ∈ s.links, l ∈ done → s.Grown B n l.source (W l.sink)

theorem Grown.append {w : List PadRef} (h : s.Grown B n r w) (v : List PadRef) :
    s.Grown B n r (w ++ v) :=
  ⟨h.1.trans (List.prefix_append _ _),
    fun r' hr' => (h.2 r' hr').trans (by rw [List.count_append]; omega)⟩

theorem Round.joinWords (h : s.Round B W n done) (hs : s.Joined) (hl : l ∈ s.links) :
    s.Round B (joinWords W l) n (done ++ [l]) := by
  refine ⟨h.base, fun k hk => ?_, fun k hk => ?_, fun k hk hmem r hr => ?_, fun k hk hmem => ?_⟩
  · rw [joinWords_sink hs hk hl]
    split
    · rename_i hkl
      subst hkl
      exact ⟨List.mem_append_right _ (h.sink k hk).1, List.mem_append_right _ (h.sink k hk).2⟩
    · exact h.sink k hk
  · rw [joinWords_source hs hk hl]
    split
    · rename_i hsource
      rw [hsource]
      exact (h.source l hl).append _
    · exact h.source k hk
  · rw [joinWords_source hs hk hl]
    by_cases hkl : k = l
    · -- the sink brings both ends of the link into the word of the source
      subst hkl
      rw [if_pos rfl, List.count_append]
      have hmem : r ∈ W k.sink := hr.elim (fun hr => hr ▸ (h.sink k hk).1) fun hr => hr ▸
        (h.sink k hk).2
      have hpos := List.count_pos_iff.mpr hmem
      have hgroup : r ∈ s.group k.source :=
        (hs.mem_group_source hk).mpr (hr.imp_right fun hr => by rw [hr]; exact hk)
      have hcount := (h.source k hk).2 r hgroup
      omega
    · have hmore := h.more k hk (mem_done_of_ne hmem hkl) r hr
      split
      · rename_i hsource
        rw [hsource] at hmore ⊢
        rw [List.count_append]
        omega
      · exact hmore
  · rw [joinWords_sink hs hk hl]
    split
    · rename_i hkl
      rw [hkl]
      exact (h.source l hl).append _
    · rename_i hkl
      exact h.passed k hk (mem_done_of_ne hmem hkl)

/-! ### Rounds -/

/-- A state after so many rounds. The number says how often every pad of a group is in the word of
its source. -/
def Stage (s : GraphState) (f : PadRef → Constraints) : Nat → GraphState → Prop
  | 0, t => s.Worded f (fun r => [r]) t
  | n + 1, t => ∃ B W, s.Worded f W t ∧ s.Round B W n [] ∧
      ∀ m, n = m + 1 → ∀ l ∈ s.links, s.Grown B m l.source (W l.sink)

theorem Stage.links (h : s.Stage f n t) : t.links = s.links := by
  cases n with
  | zero => exact (bare_eq_iff.mp h.bare).2
  | succ n =>
    obtain ⟨B, W, ht, -⟩ := h
    exact (bare_eq_iff.mp ht.bare).2

/-- What a round does to words is what its links do. -/
theorem exists_words {I : Words → List Link → Prop} (hs : s.Joined) (hfit : s.FitGroups f)
    (hstep : ∀ W done l, l ∈ s.links → I W done → I (joinWords W l) (done ++ [l]))
    (ht : s.Worded f W t) (hI : I W []) (h : t.narrowLinks s.links = .ok (t', changed)) :
    ∃ W', s.Worded f W' t' ∧ I W' s.links :=
  narrowLinks_prefix (s := s) (I := fun done t => ∃ W, s.Worded f W t ∧ I W done)
    (fun done l _ _ _ hl ⟨W, ht, hI⟩ h => ⟨_, (ht.narrowLink hs hfit hl h).1,
      hstep W done l hl hI⟩)
    (fun _ hl => hl) ⟨W, ht, hI⟩ h

/-- After the first round the words of sources hold their groups. -/
theorem Stage.first (h : s.Stage f 0 t) (hs : s.Joined) (hfit : s.FitGroups f)
    (hround : t.narrowLinks s.links = .ok (t', changed)) : s.Stage f 1 t' := by
  obtain ⟨W, ht', hfirst⟩ :=
    exists_words (I := s.First) hs hfit (fun _ _ _ hl hI => hI.joinWords hs hl) h
    ⟨fun _ _ => List.mem_cons_self, fun _ _ => List.mem_cons_self, nofun⟩ hround
  refine ⟨W, W, ht', ⟨fun l hl r => ⟨ht'.source l hl r, fun hr => ?_⟩, fun l hl => ?_,
    fun l hl => ?_, nofun, nofun⟩, nofun⟩
  · rcases (hs.mem_group_source hl).mp hr with rfl | hr
    · exact hfirst.source l hl
    · exact (hfirst.done _ hr hr).2
  · exact ⟨(hfirst.done l hl hl).1, hfirst.sink l hl⟩
  · exact ⟨List.prefix_rfl, fun _ _ => (Nat.zero_add _).le⟩

/-- A further round adds every pad of a group to the word of its source once more. -/
theorem Stage.next (h : s.Stage f (n + 1) t) (hs : s.Joined) (hfit : s.FitGroups f)
    (hround : t.narrowLinks s.links = .ok (t', changed)) : s.Stage f (n + 2) t' := by
  obtain ⟨B, W, ht, hI, -⟩ := h
  obtain ⟨W', ht', hdone⟩ := exists_words (I := fun W done => s.Round B W n done) hs hfit
    (fun _ _ _ hl hI => hI.joinWords hs hl) ht hI hround
  refine ⟨B, W', ht', ⟨hdone.base, hdone.sink, fun l hl => ⟨(hdone.source l hl).1, fun r hr => ?_⟩,
    nofun, nofun⟩, fun m hm l hl => ?_⟩
  · rcases (hs.mem_group_source hl).mp hr with rfl | hr
    · exact hdone.more l hl hl _ (.inl rfl)
    · exact hdone.more _ hr hr r (.inr rfl)
  · obtain rfl := Nat.succ.inj hm
    exact hdone.passed l hl hl

theorem Stage.succ (h : s.Stage f n t) (hs : s.Joined) (hfit : s.FitGroups f)
    (hround : t.narrowLinks t.links = .ok (t', changed)) : s.Stage f (n + 1) t' := by
  rw [h.links] at hround
  cases n with
  | zero => exact h.first hs hfit hround
  | succ n => exact h.next hs hfit hround

/-- Words that have grown enough stand for the same product
(`Constraints.product_eq_of_saturated`). -/
theorem product_eq_of_grown (hfit : s.FitGroups f) (hl : l ∈ s.links)
    (hbase : ∀ r, r ∈ B l.source ↔ r ∈ s.group l.source)
    (hn : ∀ r ∈ s.group l.source, 2 * (f r).size < n)
    {u v : List PadRef} (hu : s.Grown B n l.source u) (hv : s.Grown B n l.source v)
    (hgu : ∀ r ∈ u, r ∈ s.group l.source) (hgv : ∀ r ∈ v, r ∈ s.group l.source) :
    product f u = product f v := by
  obtain ⟨K, hK, hgroup⟩ := hfit l hl
  obtain ⟨⟨u, rfl⟩, hcu⟩ := hu
  obtain ⟨⟨v, rfl⟩, hcv⟩ := hv
  have hsat :
      ∀ {w}, (∀ r ∈ s.group l.source, n + (B l.source).count r ≤ (B l.source ++ w).count r) →
      Saturates f (B l.source) w := by
    intro w hw r hr
    have hcount := hw r ((hbase r).mp hr)
    rw [List.count_append] at hcount
    have hsize := hn r ((hbase r).mp hr)
    omega
  exact product_eq_of_saturated hK (fun r hr => hgroup r ((hbase r).mp hr))
    (fun r hr => (hbase r).mpr (hgu r (List.mem_append_right _ hr)))
    (fun r hr => (hbase r).mpr (hgv r (List.mem_append_right _ hr))) (hsat hcu) (hsat hcv)

/-- After enough rounds nothing changes any more: both ends of a link stand for the joined word
already. -/
theorem Stage.unchanged (h : s.Stage f (n + 2) t) (hs : s.Joined) (hfit : s.FitGroups f)
    (hn : ∀ l ∈ s.links, ∀ r ∈ s.group l.source, 2 * (f r).size < n) (hls : ∀ l ∈ ls, l ∈ s.links)
    (hround : t.narrowLinks ls = .ok (t', changed)) :
    changed = false := by
  obtain ⟨B, W, ht, hI, hsinks⟩ := h
  induction ls generalizing changed with
  | nil =>
    cases hround
    rfl
  | cons l rest ih =>
    obtain ⟨hl, hrest⟩ := List.forall_mem_cons.mp hls
    rw [narrowLinks] at hround
    obtain ⟨⟨t₁, c₁⟩, h₁, hround⟩ := bind_eq_ok_iff.mp hround
    obtain ⟨⟨t₂, c₂⟩, h₂, hround⟩ := bind_eq_ok_iff.mp hround
    simp only [Except.ok.injEq, Prod.mk.injEq] at hround
    obtain ⟨rfl, rfl⟩ := hround
    have hsource : s.Grown B n l.source (W l.source) :=
      ⟨(hI.source l hl).1, fun r hr => Nat.le_trans (by omega) ((hI.source l hl).2 r hr)⟩
    have hjoined : ∀ r ∈ W l.source ++ W l.sink, r ∈ s.group l.source :=
      List.forall_mem_append.mpr ⟨ht.source l hl, ht.sink l hl⟩
    have hsame : ∀ {w}, s.Grown B n l.source w → (∀ r ∈ w, r ∈ s.group l.source) →
        product f (W l.source ++ W l.sink) = product f w := fun hw hgroup =>
      product_eq_of_grown hfit hl (hI.base l hl) (hn l hl) (hsource.append _) hw hjoined hgroup
    obtain rfl : c₁ = false := (ht.narrowLink hs hfit hl h₁).2 (hsame hsource (ht.source l hl))
      (hsame (hsinks n rfl l hl) (ht.sink l hl))
    obtain ⟨rfl, -⟩ := narrowLink_unchanged h₁
    rw [ih hrest h₂]
    rfl

/-! ### The end -/

/-- Rounds end as soon as one of them is known to change nothing. -/
theorem narrowRounds_ne_unfinished {I : Nat → GraphState → Prop} {m : Nat}
    (hstep : ∀ n t t' changed, I n t → t.narrowLinks t.links = .ok (t', changed) → I (n + 1) t')
    (hlast : ∀ t t' changed, I m t → t.narrowLinks t.links = .ok (t', changed) → changed = false)
    (hn : n ≤ m) (ht : I n t) : narrowRounds (m - n + 1) t ≠ .unfinished := by
  induction hk : m - n generalizing n t with
  | zero =>
    obtain rfl : n = m := by omega
    rw [narrowRounds]
    cases h : t.narrowLinks t.links with
    | error e => simp
    | ok x => simp [hlast t x.1 x.2 ht h]
  | succ k ih =>
    rw [narrowRounds]
    cases h : t.narrowLinks t.links with
    | error e => simp
    | ok x =>
      obtain ⟨t', changed⟩ := x
      cases changed with
      | false => simp
      | true => simpa using ih (by omega) (hstep n t t' true ht h) (by omega)

/-- Allotting more rounds changes nothing. -/
theorem narrowRounds_add (h : narrowRounds n t ≠ .unfinished) (k : Nat) :
    narrowRounds (n + k) t = narrowRounds n t := by
  induction n generalizing t with
  | zero => exact absurd rfl h
  | succ n ih =>
    rw [Nat.succ_add, narrowRounds, narrowRounds]
    rw [narrowRounds] at h
    cases hround : t.narrowLinks t.links with
    | error e => rfl
    | ok x =>
      rw [hround] at h
      obtain ⟨t', changed⟩ := x
      cases changed with
      | false => rfl
      | true => exact ih (by simpa using h)

/-- The round that settled the types changes nothing. -/
theorem narrowLinks_of_settled (h : narrowRounds n t = .settled t') :
    t'.narrowLinks t'.links = .ok (t', false) := by
  induction n generalizing t with
  | zero => cases h
  | succ n ih =>
    rw [narrowRounds] at h
    split at h
    · cases h
    · rename_i t₁ changed hround
      split at h
      · exact ih h
      · rename_i hc
        rw [Bool.not_eq_true] at hc
        cases h
        obtain ⟨rfl, -⟩ := narrowLinks_unchanged (hc ▸ hround)
        exact hc ▸ hround

/-- A pad has fewer parts than the graph (`typeWeight`), which bounds the number of rounds. -/
theorem size_lt_typeWeight {a : Constraints} (h : t.effective? r = some a) :
    a.size < t.typeWeight := by
  obtain ⟨p, hp, rfl⟩ := Option.map_eq_some_iff.mp h
  obtain ⟨e, he, hp⟩ := Option.bind_eq_some_iff.mp hp
  have hpad := le_sumOf_of_mem (fun p : PadState => 1 + (p.effective.map weightOfList).getD 0)
    (List.mem_of_find?_eq_some hp)
  have hnode := le_sumOf_of_mem
    (fun e : NodeEntry => sumOf (fun p => 1 + (p.effective.map weightOfList).getD 0) e.pads)
    (List.mem_of_find?_eq_some he)
  exact Nat.lt_of_lt_of_le (Nat.lt_of_lt_of_le (Nat.lt_add_of_pos_left Nat.one_pos) hpad) hnode

/-- What a pad starts narrowing with, and nothing where there is no pad. -/
def startingAt (s : GraphState) (external : External) (r : PadRef) : Constraints :=
  ((s.startNarrowing external).effective? r).getD none

theorem stage_startNarrowing (hs : s.Joined) (external : External) :
    s.Stage (s.startingAt external) 0 (s.startNarrowing external) where
  bare := bare_startNarrowing s external
  effective r a ha := by
    rw [product, List.foldl_cons, List.foldl_nil, startingAt, ha]
    rfl
  source l _ r hr := by
    rw [List.mem_singleton.mp hr]
    exact mem_group_self s l.source
  sink l hl r hr := by
    rw [List.mem_singleton.mp hr]
    exact (hs.mem_group_source hl).mpr (.inr hl)

theorem size_startingAt (hs : s.Joined) (hl : l ∈ s.links) (hr : r ∈ s.group l.source) :
    (s.startingAt external r).size < (s.startNarrowing external).typeWeight := by
  have hpresent : ∃ a, (s.startNarrowing external).effective? r = some a := by
    rcases (hs.mem_group_source hl).mp hr with rfl | hr
    · obtain ⟨p, -, hp, -⟩ := hs.ends_of_bare (bare_startNarrowing s external) hl
      exact ⟨p.effective, by rw [effective?, hp]; rfl⟩
    · obtain ⟨-, q, -, hq⟩ := hs.ends_of_bare (bare_startNarrowing s external) hr
      exact ⟨q.effective, by rw [effective?, hq]; rfl⟩
  obtain ⟨a, ha⟩ := hpresent
  rw [startingAt, ha]
  exact size_lt_typeWeight ha

/-- In every group the items of all lists, as they are declared and seen from outside, are uniform
(`Constraints.Uniform`). -/
def UniformGroups (s : GraphState) (external : External) : Prop :=
  ∀ l ∈ s.links, ∃ K, Uniform K ∧ ∀ r ∈ s.group l.source,
    (∀ p, s.pad? r = some p → p.declared.Each (Fit K)) ∧ ∀ outer, external.get? r = some outer →
    outer.Each (Fit K)

theorem UniformGroups.fitGroups (h : s.UniformGroups external) :
    s.FitGroups (s.startingAt external) := by
  intro l hl
  obtain ⟨K, hK, hgroup⟩ := h l hl
  refine ⟨K, hK.family, fun r hr => ?_⟩
  obtain ⟨hdeclared, houter⟩ := hgroup r hr
  rw [startingAt, effective?, pad?_startNarrowing]
  cases hp : s.pad? r with
  | none => exact each_none
  | some p =>
    have hpr : (⟨r.node, p.id⟩ : PadRef) = r := by
      obtain ⟨e, -, hfind⟩ := Option.bind_eq_some_iff.mp hp
      have hid : p.id = r.pad := by simpa using List.find?_some hfind
      rw [hid]
    rw [Option.map_some, Option.map_some, Option.getD_some, startOf, hpr]
    cases ho : external.get? r with
    | none => exact hdeclared p hp
    | some outer =>
      dsimp only
      split
      · exact hdeclared p hp
      · exact (hdeclared p hp).intersect (houter outer ho) fun _ _ _ _ _ _ => Fit.meet hK.family

/-- Narrowing of graphs with uniform groups (`GraphState.UniformGroups`) ends, with a round that
changes nothing or with a link that is refused, and the rounds that it is allotted are not used up.
Uniform shapes have no negative zeros, so that it does not matter which one of two equal bounds is
kept; without uniform groups it may go on for ever (`narrowRounds_fork`). -/
theorem narrow_settles (hs : s.Joined) (h : s.UniformGroups external) :
    ∃ n ≤ 2 * (s.startNarrowing external).typeWeight + 3,
      (∃ s', narrowRounds n (s.startNarrowing external) = .settled s' ∧
        s'.narrowLinks s'.links = .ok (s', false) ∧ s.narrow external = .ok s') ∨
      ∃ e, narrowRounds n (s.startNarrowing external) = .refused e ∧
      s.narrow external = .error e := by
  have hsize : ∀ l ∈ s.links, ∀ r ∈ s.group l.source,
      2 * (s.startingAt external r).size < 2 * (s.startNarrowing external).typeWeight :=
      fun l hl r hr =>
    Nat.mul_lt_mul_of_pos_left (size_startingAt hs hl hr) (by decide)
  have hne : narrowRounds (2 * (s.startNarrowing external).typeWeight + 3)
      (s.startNarrowing external) ≠
      .unfinished :=
    narrowRounds_ne_unfinished (I := s.Stage (s.startingAt external)) (n := 0)
      (fun _ _ _ _ ht hround => ht.succ hs h.fitGroups hround)
      (fun _ _ _ ht hround => ht.unchanged hs h.fitGroups hsize (fun _ hl => ht.links ▸ hl) hround)
      (Nat.zero_le _) (stage_startNarrowing hs external)
  have hlimit :
      2 * (s.startNarrowing external).typeWeight + 3 ≤ (s.startNarrowing external).roundLimit :=
    Nat.le_of_succ_le (le_roundLimit _)
  obtain ⟨k, hk⟩ := Nat.exists_eq_add_of_le hlimit
  refine ⟨_, Nat.le_refl _, ?_⟩
  rw [narrow, hk, narrowRounds_add hne]
  cases hend : narrowRounds (2 * (s.startNarrowing external).typeWeight + 3)
    (s.startNarrowing external) with
  | settled s' => exact .inl ⟨s', rfl, narrowLinks_of_settled hend, rfl⟩
  | refused e => exact .inr ⟨e, rfl, rfl⟩
  | unfinished => exact absurd hend hne

theorem uniformGroups_of_closed (h : ∀ e ∈ s.nodes, ∀ p ∈ e.pads, p.declared.Each Closed) :
    s.UniformGroups [] := by
  refine fun l _ => ⟨Closed, .inl rfl, fun r _ => ⟨fun p hp => ?_, nofun⟩⟩
  obtain ⟨e, he, hp⟩ := Option.bind_eq_some_iff.mp hp
  have hclosed := h e (List.mem_of_find?_eq_some he) p (List.mem_of_find?_eq_some hp)
  exact fun cs hcs c hc =>
    ⟨(hclosed cs hcs c hc).1, fun a ha => (closed_list.mp (ha ▸ hclosed cs hcs c hc)).2⟩

/-- A source that declares nothing, and has some type already, feeds two sinks. -/
def fork (b c effective : Constraints) : GraphState where
  nodes :=
    [{ id := "a", nodeType := "", editor := {}, state := .resolved, body := default,
       pads := [{ id := "out", padType := .propertySource, effective := effective }] },
      { id := "b", nodeType := "", editor := {}, state := .resolved, body := default,
        pads := [{ id := "in", padType := .propertySink, declared := b, effective := b }] },
      { id := "c", nodeType := "", editor := {}, state := .resolved, body := default,
        pads := [{ id := "in", padType := .propertySink, declared := c, effective := c }] }]
  links := [⟨⟨"a", "out"⟩, ⟨"b", "in"⟩⟩, ⟨⟨"a", "out"⟩, ⟨"c", "in"⟩⟩]

/-- Lists of references to nodes of some types. -/
def listOf (types : List (List String)) : Constraint := .list (some (types.map .nodeReference))

/-- Both sinks take lists of references, to the same types in two orders. -/
theorem narrow_settles_fork :
    let s := fork (some [listOf [["x", "y"]]]) (some [listOf [["y", "x"]]]) none
    s.Joined ∧ s.UniformGroups [] ∧ ∃ n ≤ 2 * (s.startNarrowing []).typeWeight + 3, ∃ s',
      narrowRounds n (s.startNarrowing []) = .settled s' ∧ s'.narrowLinks s'.links =
      .ok (s', false) ∧ s.narrow [] = .ok s' := by
  intro s
  have hjoined : s.Joined := by
    refine ⟨fun l hl => ?_, fun k hk l hl => ?_⟩
    · rcases List.mem_pair.mp hl with rfl | rfl <;> rfl
    · rcases List.mem_pair.mp hk with rfl | rfl <;> rcases List.mem_pair.mp hl with rfl | rfl <;>
        decide
  have huniform : s.UniformGroups [] := uniformGroups_of_closed (by
    simp [s, fork, each_none, each_some, Closed, listOf]
    decide)
  refine ⟨hjoined, huniform, ?_⟩
  have hok : (s.narrow []).isOk = true := by decide +kernel
  obtain ⟨n, hn, hsettled | ⟨e, -, he⟩⟩ := narrow_settles hjoined huniform
  · exact ⟨n, hn, hsettled⟩
  · rw [he] at hok
    cases hok

/-! ### Without end -/

/-- A source whose type has all of the type of a sink in common with it takes that type over. -/
theorem narrowLink_of_intersect {p q : PadState} (hp : t.pad? l.source = some p)
    (hq : t.pad? l.sink = some q)
    (hmeet : p.effective.intersect q.effective = q.effective)
    (hne : q.effective.same p.effective = false)
    (hcompat : q.effective.isIncompatible = false) :
    t.narrowLink l = .ok (t.updatePad l.source ({ · with effective := q.effective }), true) := by
  simp [narrowLink, hp, hq, hmeet, hne, hcompat, Constraints.same_refl]

variable {a b c : Constraints}

theorem narrowLinks_fork (hab : a.intersect b = b) (hbc : b.intersect c = c)
    (hba : b.same a = false)
    (hcb : c.same b = false) (hb : b.isIncompatible = false) (hc : c.isIncompatible = false) :
    (fork b c a).narrowLinks (fork b c a).links = .ok (fork b c c, true) := by
  have hfirst := narrowLink_of_intersect (t := fork b c a)
    (l := ⟨⟨"a", "out"⟩, ⟨"b", "in"⟩⟩) rfl rfl hab hba hb
  have hsecond := narrowLink_of_intersect (t := fork b c b)
    (l := ⟨⟨"a", "out"⟩, ⟨"c", "in"⟩⟩) rfl rfl hbc hcb hc
  exact bind_eq_ok_iff.mpr
    ⟨_, hfirst, bind_eq_ok_iff.mpr ⟨_, bind_eq_ok_iff.mpr ⟨_, hsecond, rfl⟩, rfl⟩⟩

theorem narrowRounds_succ (h : t.narrowLinks t.links = .ok (t', true)) (n : Nat) :
    narrowRounds (n + 1) t = narrowRounds n t' := by
  rw [narrowRounds, h]
  rfl

/-- Two sinks pull their source to and fro without end, if each of their types is what the other
one has in common with it, and they are different. This is so for every number of rounds. -/
theorem narrowRounds_fork (hbc : b.intersect c = c) (hcb : c.intersect b = b)
    (hne : b.same c = false)
    (hne' : c.same b = false) (hb : b.isIncompatible = false) (hc : c.isIncompatible = false)
    (n : Nat) :
    narrowRounds n ((fork b c none).startNarrowing []) = .unfinished := by
  have hagain : ∀ n, narrowRounds n (fork b c c) = .unfinished := by
    intro n
    induction n with
    | zero => rfl
    | succ n ih => rw [narrowRounds_succ (narrowLinks_fork hcb hbc hne hne' hb hc), ih]
  have hbne : b.same none = false := by
    cases b with
    | none =>
      rw [intersect_none] at hcb
      exact hcb ▸ hne'
    | some => rfl
  cases n with
  | zero => rfl
  | succ n =>
    exact (narrowRounds_succ (narrowLinks_fork rfl hbc hbne hne' hb hc) n).trans (hagain n)

/-! ### Lists of references -/

theorem definite_references (types : List (List String)) :
    Definite (some (types.map nodeReference)) := by
  refine each_some.mpr fun c hc => ?_
  obtain ⟨l, -, rfl⟩ := List.mem_map.mp hc
  rfl

theorem definite_lists (lists : List (List (List String))) :
    Definite (some (lists.map listOf)) := by
  refine each_some.mpr fun c hc => ?_
  obtain ⟨types, -, rfl⟩ := List.mem_map.mp hc
  exact isDefinite_list.mpr (definite_references types)

theorem meet_listOf {i j k : List (List String)} (hne : k ≠ [])
    (hk : (k.map nodeReference).Pairwise CanonicalLt)
    (h : ∀ c, c ∈ k.map nodeReference ↔ c ∈ meetAll (i.map nodeReference) (j.map nodeReference)) :
    (listOf i).meet (listOf j) = some (listOf k) := by
  rw [listOf, listOf, meet_list, (definite_references i).intersect_eq_of_mem_iff
    (definite_references j) hk h, if_neg]
  · rfl
  · cases k with
    | nil => exact absurd rfl hne
    | cons => exact Bool.false_ne_true

/-- References to nodes of some types, in three orders. -/
def orders : List (List String) := [["x", "y"], ["y", "x"], ["z", "y", "x"]]

/-- References in two of the orders. The third one is what the second has in common with the
first. -/
def fewerOrders : List (List String) := [["x", "y"], ["z", "y", "x"]]

/-- References in one of the orders, or to any node. -/
def openOrders : List (List String) := [["x", "y"], []]

theorem meet_orders : ∀ i ∈ [orders, fewerOrders], ∀ j ∈ [orders, fewerOrders, openOrders],
    (listOf i).meet (listOf j) = some (listOf orders) := by
  have hsorted : (orders.map nodeReference).Pairwise CanonicalLt := by
    simp [orders, CanonicalLt]
    decide
  intro i hi j hj
  refine meet_listOf nofun hsorted ?_
  simp only [List.mem_cons, List.not_mem_nil, or_false] at hi hj
  rcases hi with rfl | rfl <;> rcases hj with rfl | rfl | rfl <;>
    simp [orders, fewerOrders, openOrders, meetAll, meet, meetTypes, commonOptions]

/-- What is met behind the open reference keeps its order. -/
theorem meet_openOrders : ∀ j ∈ [orders, fewerOrders, openOrders],
    (listOf openOrders).meet (listOf j) = some (listOf j) := by
  have hsorted : ∀ j ∈ [orders, fewerOrders, openOrders],
      (j.map nodeReference).Pairwise CanonicalLt := by
    simp [orders, fewerOrders, openOrders, CanonicalLt]
    decide
  intro j hj
  refine meet_listOf ?_ (hsorted j hj) ?_
  all_goals
    simp only [List.mem_cons, List.not_mem_nil, or_false] at hj
    rcases hj with rfl | rfl | rfl <;>
      simp [orders, fewerOrders, openOrders, meetAll, meet, meetTypes, commonOptions]

/-- Without uniform groups narrowing need not end: the source takes over the types of its sinks in
turn (`narrowRounds_fork`). The two types are lists of references in different orders. -/
theorem narrowRounds_orders (n : Nat) :
    narrowRounds n ((fork (some [listOf orders, listOf openOrders])
    (some [listOf orders, listOf fewerOrders, listOf openOrders]) none).startNarrowing []) =
    .unfinished := by
  have hsorted : [listOf orders, listOf fewerOrders, listOf openOrders].Pairwise CanonicalLt := by
    simp [CanonicalLt, listOf, orders, fewerOrders, openOrders]
    decide +kernel
  refine narrowRounds_fork ?_ ?_ rfl rfl rfl rfl n
  · exact (definite_lists [orders, openOrders]).intersect_eq_of_mem_iff
      (definite_lists [orders, fewerOrders, openOrders]) hsorted
      (by simp [meetAll, meet_orders, meet_openOrders])
  · exact (definite_lists [orders, fewerOrders, openOrders]).intersect_eq_of_mem_iff
      (definite_lists [orders, openOrders]) (hsorted.sublist (by simp))
      (by simp [meetAll, meet_orders, meet_openOrders])

end Patchbay.GraphState
