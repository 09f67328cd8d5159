import Patchbay.Proofs.Graph.Flattening
import Patchbay.Proofs.Graph.LastPass
import Patchbay.Proofs.Run.Addresses

/-!
# Flat links are honoured

What the source of a flat link admits, the pad at the other end has declared
(`Graph.flat_links_honoured_run`). A value that is pushed into a run is checked against the source
only, and arrives at pads that may lie in other graphs, which were narrowed on their own.

In every graph a source is left with no more than it declares together with what it sees
(`GraphState.AttunedHere.source`). From the source of a link this goes down to the pad that it
denotes (`Attuned.accept_view`), since a graph inside sees what the proxies around it see. A graph
ignores what it sees from outside when it has nothing in common with it, but then the link could
not have been narrowed. From the sink it goes down more easily (`Attuned.accept_declared`): every
pad is left with no more than it declares, and a proxy declares what is left to the pad behind it.
-/

namespace Patchbay

namespace GraphState

variable {s s' t inner : GraphState} {e : NodeEntry} {l : Link} {r x y : PadRef} {p q d : PadState}
  {route a b : List String} {external : External} {config : EngineConfig} {v : Json}

/-! ### Within one graph -/

/-- The effective constraints in a graph that was narrowed under what is seen from outside: what is
left to a source is no more than what it declares together with its sinks, and with what is seen.
-/
structure AttunedHere (s : GraphState) (external : External) : Prop where
  declared : ∀ r p, s.pad? r = some p → p.effective.Finer p.declared
  linked : ∀ l ∈ s.links, ∀ p, s.pad? l.source = some p →
    p.effective.Finer (p.declared.intersect (s.peerView external l.source p).constraints)
  unlinked : ∀ r p, s.pad? r = some p → s.Unlinked r →
    p.effective = p.declared.narrowedBy (s.peerView external r p).constraints
  seen : ∀ l ∈ s.links, ∀ p q, s.pad? l.source = some p → s.pad? l.sink = some q →
    (s.peerView external l.source p).constraints.Finer q.declared

theorem attunedHere_of_narrow (hs : s.Joined) (h : s.narrow external = .ok t) :
    t.markResolved.AttunedHere external := by
  have hshares := narrow_shares hs h
  have hbare : t.markResolved.bare = s.bare := (bare_markResolved t).trans hshares.bare
  have hlinks : t.markResolved.links = s.links := (bare_eq_iff.mp hbare).2
  have hview : ∀ r p, t.markResolved.peerView external r p = s.peerView external r p :=
    fun r p => peerView_congr hlinks (faces_of_bare hbare) rfl
  have hends : ∀ l ∈ s.links, ∀ p, t.markResolved.pad? l.source = some p →
      (s.peerView external l.source p).constraints = s.sinksOf s.links l.source := by
    intro l hl p hp
    obtain ⟨p₀, -, hp₀, -, hsource, -⟩ := hs.ends hl
    obtain ⟨p₁, hp₁, hpp⟩ := pad?_of_bare hbare hp
    obtain rfl := Option.some.inj (hp₀.symm.trans hp₁)
    refine peerView_linked hs hl ?_
    rw [← hsource]
    exact congrArg PadType.isSource (PadState.bare_eq_iff.mp hpp).2.2.1.symm
  refine ⟨fun r p hp => ?_, fun l hl p hp => ?_, fun r p hp hr => ?_, fun l hl p q hp hq => ?_⟩
  · rw [pad?_markResolved] at hp
    exact hshares.declared r p hp
  · have hl : l ∈ s.links := hlinks ▸ hl
    rw [hview, hends l hl p hp]
    rw [pad?_markResolved] at hp
    exact hshares.sinks _ p hp
  · have hr : s.Unlinked r := fun l hl => hr l (hlinks ▸ hl)
    rw [hview, peerView_unlinked hr]
    rw [pad?_markResolved, pad?_narrow_of_unlinked hr h] at hp
    obtain ⟨p₀, hp₀, rfl⟩ := Option.map_eq_some_iff.mp hp
    obtain ⟨-, -, -, -, hpad⟩ := pad?_eq_some hp₀
    rw [startOf_eq, hpad]
  · have hl : l ∈ s.links := hlinks ▸ hl
    obtain ⟨q₀, hq₀, hqq⟩ := pad?_of_bare hbare hq
    rw [hview, hends l hl p hp]
    refine finer_sinksOf hl ?_
    rw [declared?, hq₀, Option.map_some, (PadState.bare_eq_iff.mp hqq).2.2.2.1]

/-- A source that has something in common with what it sees takes that on, linked or not
(`peerView`). -/
theorem AttunedHere.source (h : s.AttunedHere external) (hwf : s.WellFormed)
    (hp : s.pad? r = some p)
    (hsource : p.isSource = true)
    (hnull : (p.declared.intersect (s.peerView external r p).constraints).accept .null = true) :
    p.effective.Finer (p.declared.intersect (s.peerView external r p).constraints) := by
  by_cases hr : s.Unlinked r
  · rw [h.unlinked r p hp hr, Constraints.narrowedBy_of_compatible hnull]
    exact .refl _
  · obtain ⟨l, hl, hends⟩ : ∃ l ∈ s.links, l.source = r ∨ l.sink = r := by
      simpa [Unlinked, Decidable.imp_iff_not_or] using hr
    rcases hends with rfl | rfl
    · exact h.linked l hl p hp
    · obtain ⟨-, q, -, hq, -, hsink, -⟩ := hwf.linked l hl
      rw [Option.some.inj (hp.symm.trans hq), hsink] at hsource
      cases hsource

/-! ### At every depth -/

/-- A graph and the graphs inside are attuned to what they see (`AttunedHere`), and these see what
the proxies around them see. -/
inductive Attuned : External → GraphState → Prop where
  | intro {external : External} {s : GraphState} (inside : NodeEntry → External)
      (here : s.AttunedHere external)
      (shown : ∀ e ∈ s.nodes, ∀ id inner, e.body = .subgraph id inner → ∀ p ∈ e.pads, ∀ r,
        p.proxy = some r →
          (externalView (inside e) r).constraints.Alike
          (s.peerView external ⟨e.id, p.id⟩ p).constraints)
      (within : ∀ e ∈ s.nodes, ∀ id inner, e.body = .subgraph id inner →
        Attuned (inside e) inner) :
      Attuned external s

theorem Attuned.here (h : Attuned external s) : s.AttunedHere external := by
  cases h
  assumption

/-- The graph that a route leads to is attuned to something. -/
theorem Attuned.at_route (h : Attuned external s) (ht : s.HoldsAt route t) :
    ∃ outer, Attuned outer t := by
  induction ht generalizing external with
  | here => exact ⟨external, h⟩
  | inside mem body _ ih =>
    obtain ⟨inside, -, -, within⟩ := h
    exact ih (within _ mem _ _ body)

/-- Resolution leaves a graph attuned, if it leaves the graphs inside attuned. The induction on the
depth follows from it. -/
theorem attuned_reconcileWith {P Q : GraphState → Prop} {R : InnerResolver}
    (hres : Resolves (fun _ _ => True) (fun _ => True) P Q R)
    (hR : ∀ outer inner inner', P inner → R outer inner = .ok inner' → Attuned outer inner')
    (hs : s.OrderlyOver (fun _ _ => True) (fun _ => True) P)
    (h : reconcileWith R config external s = .ok s') : Attuned external s' := by
  have hext : external.In fun _ => True := fun _ _ => trivial
  obtain ⟨s₀, s₁, s₂, hs₀, hlen₀, hpass, hnarrow, rfl⟩ :=
    exists_last_pass Regime.all hres hext hs h
  have hs₁ := (pass_spec Regime.all hres hext hs₀ hpass).1
  have hjoined : s₁.Joined :=
    ⟨isSound_of_pass hpass, fun _ hk _ hl hsink => hs₁.ordered.eq_of_sink_eq hk hl hsink⟩
  have hbare : s₂.markResolved.bare = s₁.bare :=
    (bare_markResolved s₂).trans (narrow_agrees hnarrow).1
  have hnode : ∀ e ∈ s₂.markResolved.nodes, ∃ outer, ∀ id inner, e.body = .subgraph id inner →
      (∀ p ∈ e.pads, ∀ r, p.proxy = some r → (externalView outer r).constraints.Alike
        (s₂.markResolved.peerView external ⟨e.id, p.id⟩ p).constraints) ∧ Attuned outer inner := by
    intro e he
    cases hb : e.body with
    | plugin type => exact ⟨[], nofun⟩
    | subgraph id inner =>
      obtain ⟨e₀, he₀, inner₀, outer, hb₀, hinner, hshown⟩ := exists_outer_of_last_pass
        (feeding_dependencyOrder s).1 (fun i hi => mem_dependencyOrder (hlen₀ ▸ hi)) hpass hbare he
        hb
      refine ⟨outer, fun id' inner' heq => ?_⟩
      cases heq
      exact ⟨hshown, hR outer inner₀ inner ((hs₀.fit e₀ he₀).inner id inner₀ hb₀) hinner⟩
  choose! inside hinside using hnode
  exact .intro inside (attunedHere_of_narrow hjoined hnarrow)
    (fun e he id inner hb => (hinside e he id inner hb).1) fun e he id inner hb =>
    (hinside e he id inner hb).2

theorem attuned_reconcileWithin {n : Nat} (hs : s.Nested (fun _ _ => True) (fun _ => True) n)
    (h : reconcileWithin config n external s = .ok s') : Attuned external s' := by
  induction n generalizing external s s' with
  | zero =>
    have hres : Resolves (fun _ _ => True) (fun _ => True) (fun _ => False) (fun _ => True)
        fun _ inner => .ok inner := resolves_false
    exact attuned_reconcileWith hres (fun _ _ _ => False.elim) (nested_zero_iff.mp hs) h
  | succ n ih =>
    have hres : Resolves (fun _ _ => True) (fun _ => True)
        (Nested (fun _ _ => True) (fun _ => True) n)
        (Everywhere WellFormed) (reconcileWithin config n) :=
      ⟨fun _ ht => ht.2.self, fun _ _ _ hext ht hr => reconcileWithin_spec Regime.all hext ht hr⟩
    exact attuned_reconcileWith hres (fun _ _ _ ht hr => ih ht hr) (nested_succ_iff.mp hs) h

/-! ### Down both chains -/

section

variable (h : Attuned external s) (hs : s.Everywhere Exact)

include h hs

/-- What the pad behind a source is left with (`Denotes`), the source sees as well, if the source
has something in common with what it sees. -/
theorem Attuned.accept_view (hx : s.Denotes r route x) (hp : s.pad? r = some p)
    (hsource : p.isSource = true)
    (hnull : (p.declared.intersect (s.peerView external r p).constraints).accept .null = true)
    (ht : s.HoldsAt route t) (hd : t.pad? x = some d) (hv : d.effective.accept v = true) :
    (s.peerView external r p).constraints.accept v = true := by
  induction hx generalizing external p with
  | @plugin s e type p' mem body pad =>
    obtain rfl := holdsAt_nil_iff.mp ht
    obtain rfl := Option.some.inj (hp.symm.trans hd)
    have hfiner := h.here.source hs.self.wellFormed hp hsource hnull
    exact (Constraints.accept_of_accept_intersect (hfiner.accept hv)).2
  | @proxy s inner e id p' target r' route mem body pad proxy _ ih =>
    obtain rfl := Option.some.inj ((hs.self.wellFormed.pad?_eq mem pad).symm.trans hp)
    have hin := hs.body mem id inner body
    obtain ⟨d₀, hmirror, hd₀, hun⟩ := proxy_target hs mem body pad proxy
    obtain ⟨inside, -, shown, within⟩ := h
    obtain ⟨hdown, hup⟩ := shown e mem id inner body p' pad target proxy
    have hinner := within e mem id inner body
    have hview : inner.peerView (inside e) target d₀ = externalView (inside e) target :=
      peerView_unlinked hun d₀
    -- otherwise the target would be left with its declaration, and the source would declare the
    -- same
    have hcommon : (d₀.declared.intersect (inner.peerView (inside e) target d₀).constraints).accept
        .null =
        true := by
      by_contra hnone
      rw [Bool.not_eq_true] at hnone
      have hkeep := hinner.here.unlinked target d₀ hd₀ hun
      rw [Constraints.narrowedBy_of_incompatible hnone] at hkeep
      rw [hview, ← hkeep, ← hmirror.declared, hup.accept_right hnull] at hnone
      cases hnone
    have htarget : d₀.isSource = true :=
      (congrArg PadType.isSource hmirror.padType).symm.trans hsource
    have hseen := ih hinner hin hd₀ htarget hcommon (ht.tail hs mem body) hd
    rw [hview] at hseen
    exact hdown.accept hseen

/-- What a sink declares, the pad behind it declares as well. -/
theorem Attuned.accept_declared (hy : s.Denotes r route y) (hq : s.pad? r = some q)
    (hv : q.declared.accept v = true) (ht : s.HoldsAt route t) (hd : t.pad? y = some d) :
    d.declared.accept v = true := by
  induction hy generalizing external q with
  | @plugin s e type p' mem body pad =>
    obtain rfl := holdsAt_nil_iff.mp ht
    obtain rfl := Option.some.inj (hq.symm.trans hd)
    exact hv
  | @proxy s inner e id p' target r' route mem body pad proxy _ ih =>
    obtain rfl := Option.some.inj ((hs.self.wellFormed.pad?_eq mem pad).symm.trans hq)
    obtain ⟨d₀, hmirror, hd₀, -⟩ := proxy_target hs mem body pad proxy
    obtain ⟨inside, -, -, within⟩ := h
    have hinner := within e mem id inner body
    refine ih hinner (hs.body mem id inner body) hd₀ ?_ (ht.tail hs mem body) hd
    rw [hmirror.declared] at hv
    exact (hinner.here.declared target d₀ hd₀).accept hv

/-- What is left to the pad at the one end of a link, the pad at the other end declares: up on the
side of the source (`Attuned.accept_view`), down on that of the sink (`Attuned.accept_declared`).
-/
theorem Attuned.accept_link {u : GraphState} {c : PadState} (hl : l ∈ s.links)
    (hx : s.Denotes l.source a x)
    (ht : s.HoldsAt a t) (hd : t.pad? x = some d) (hy : s.Denotes l.sink b y) (hu : s.HoldsAt b u)
    (hc : u.pad? y = some c) (hv : d.effective.accept v = true) : c.declared.accept v = true := by
  obtain ⟨p, q, hp, hq, hsource, -, -, hne, -⟩ := hs.self.wellFormed.linked l hl
  have hleft : p.effective.accept .null = true := by
    have hcompatible : p.effective.isIncompatible = false := by
      rw [← Bool.not_eq_true, Constraints.isIncompatible_iff]
      exact hne
    simpa [Constraints.isIncompatible_eq] using hcompatible
  have hnull := (h.here.linked l hl p hp).accept hleft
  have hseen := h.accept_view hs hx hp hsource hnull ht hd hv
  exact h.accept_declared hs hy hq ((h.here.seen l hl p q hp hq).accept hseen) hu hc

end

/-- A flat pad is the pad at the end of the route that its address is made of. -/
theorem pad?_of_hasPad (hs : s.Everywhere Exact) (ht : s.HoldsAt route t) (hx : t.Denotes r a x)
    (hp : s.flatten.HasPad (flatRef (route ++ a) x) p) :
    ∃ u, t.HoldsAt a u ∧ u.pad? x = some p := by
  obtain ⟨-, -, u, hu, e, he, type, -, d, -, rfl, -⟩ := hx.target (hs.within ht.encloses)
  obtain ⟨n, hn, hid, hp, hpid⟩ := hp
  obtain ⟨route', t', ht', e', he', type', -, rfl⟩ := (mem_flattenAt_nodes []).mp hn
  obtain ⟨-, rfl⟩ := eq_of_flat_id hs ht' he' (ht.trans hu) he hid
  have hpid : p.id = d.id := hpid
  refine ⟨u, hu, ?_⟩
  rw [← hpid]
  exact (hs.within (ht.trans hu).encloses).self.wellFormed.pad?_eq he hp

end GraphState

/-! ### Flat links and runs -/

/-- What the source of a flat link admits (`Constraints.accept`), its sink has declared. -/
structure FlatGraph.LinksHonoured (f : FlatGraph) : Prop where
  /-- The pads at both ends of a flat link are there. -/
  ends : ∀ k ∈ f.links, ∃ p q, f.HasPad k.source p ∧ f.HasPad k.sink q
  declared : ∀ k ∈ f.links, ∀ p q, f.HasPad k.source p → f.HasPad k.sink q →
    ∀ v, p.effective.accept v = true → q.declared.accept v = true
  /-- A value that is pushed, at any moment of a run, is declared wherever its source leads. -/
  pushed : ∀ r₀ r, Run.Starts f r₀ → r₀.Leads r → ∀ pad v timeout leaveOpen next,
    r.push pad v timeout leaveOpen = .ok next → ∃ source, r.wiring.locate pad = .ok source ∧
      ∀ k ∈ f.links, k.source = source → ∀ q, f.HasPad k.sink q → q.declared.accept v = true

theorem Wiring.accept_eq_ok {w : Wiring} {pad source : PadRef} {v : Json}
    (h : w.accept pad v = .ok source) :
    w.locate pad = .ok source ∧ ∀ cs, w.constraints.get? source = some cs →
    cs.accept v = true := by
  rw [accept] at h
  split at h
  · cases h
  · rename_i q hloc
    split at h
    · split at h
      · rename_i cs hcs
        split at h
        · rename_i hv
          cases h
          refine ⟨hloc, fun cs' hcs' => ?_⟩
          obtain rfl := Option.some.inj (hcs.symm.trans hcs')
          exact hv
        · cases h
      · rename_i hnone
        cases h
        exact ⟨hloc, fun cs hcs => absurd (hnone.symm.trans hcs) (by simp)⟩
    · cases h

/-- A value that is pushed is accepted by the flat pad that it is pushed out of. -/
theorem Run.exists_of_push {f : FlatGraph} {r₀ r : Run} {pad : PadRef} {v : Json}
    {timeout : Option Nat}
    {leaveOpen : Bool} {next : Run × Pushed} (hstart : Run.Starts f r₀) (hr : r₀.Leads r)
    (h : r.push pad v timeout leaveOpen = .ok next) :
    ∃ source p, r.wiring.locate pad = .ok source ∧ f.HasPad source p ∧ p.effective.accept v =
    true := by
  rw [push] at h
  cases haccept : r.wiring.accept pad v with
  | error e =>
    rw [haccept] at h
    cases h
  | ok source =>
    obtain ⟨hloc, hv⟩ := Wiring.accept_eq_ok haccept
    have hknown : r.wiring.constraints.has source = true :=
      (locatePad_eq_some (Wiring.locate_eq_ok.mp hloc)).2
    obtain ⟨cs, hcs⟩ := Option.isSome_iff_exists.mp hknown
    have hmem := PadTable.mem_of_get? hcs
    rw [hstart.constraints hr] at hmem
    obtain ⟨n, hn, hmem⟩ := List.mem_flatMap.mp hmem
    obtain ⟨p, hp, heq⟩ := List.mem_map.mp hmem
    obtain ⟨rfl, rfl⟩ := Prod.mk.inj heq
    exact ⟨_, p, hloc, ⟨n, hn, rfl, hp, rfl⟩, hv p.effective hcs⟩

namespace GraphState

/-- The flat links of an attuned graph are honoured, since each comes from a link at some depth
(`flattensTo_flatten`). -/
theorem linksHonoured_flatten {s : GraphState} {external : External} (h : Attuned external s)
    (hs : s.Everywhere Exact) : s.flatten.LinksHonoured := by
  have hflat := flattensTo_flatten hs
  have hdeclared : ∀ k ∈ s.flatten.links, ∀ p q, s.flatten.HasPad k.source p →
      s.flatten.HasPad k.sink q →
      ∀ v, p.effective.accept v = true → q.declared.accept v = true := by
    intro k hk p q hp hq v hv
    obtain ⟨route, t, ht, l, hl, a, x, b, y, hx, hy, rfl⟩ := (hflat.links k).mp hk
    obtain ⟨outer, hattuned⟩ := h.at_route ht
    obtain ⟨u, hu, hp⟩ := pad?_of_hasPad hs ht hx hp
    obtain ⟨w, hw, hq⟩ := pad?_of_hasPad hs ht hy hq
    exact hattuned.accept_link (hs.within ht.encloses) hl hx hu hp hy hw hq hv
  refine ⟨fun k hk => ?_, hdeclared, fun r₀ r hstart hr pad v timeout leaveOpen next hpush => ?_⟩
  · obtain ⟨p, q, hp, -, hq, -⟩ := hflat.joined k hk
    exact ⟨p, q, hp, hq⟩
  · obtain ⟨source, p, hloc, hp, hv⟩ := Run.exists_of_push hstart hr hpush
    exact ⟨source, hloc, fun k hk hsource q hq => hdeclared k hk p q (hsource ▸ hp) hq v hv⟩

end GraphState

/-! ### After any operations -/

namespace Graph

theorem attuned_run (library : Library) (config : EngineConfig) (ops : List Operation) :
    GraphState.Attuned [] ((Graph.new library config).run ops).state := by
  have hlib : (Graph.new library config).library.In fun _ _ => True := fun _ _ _ => trivial
  refine state_run_of_reconcile (C := fun _ => True) Regime.all hlib sane_empty
    (fun s s' hs h => GraphState.attuned_reconcileWithin ⟨Nat.le_refl _, hs⟩ h) ?_ ops
  refine .intro (fun _ => []) ⟨nofun, nofun, nofun, nofun⟩ (fun e he => ?_) fun e he => ?_
  · cases he
  · cases he

/-- After any sequence of operations on a new graph, whatever the library and the settings, what
the source of a flat link admits has been declared by the pad at the other end, however many graphs
lie between them (`FlatGraph.LinksHonoured`). So no run of the graph takes in a value that the pads
it is meant for have not declared. Only what is accepted counts, so that the sign of a zero among
the bounds has no influence. -/
theorem flat_links_honoured_run (library : Library) (config : EngineConfig)
    (ops : List Operation) :
    ((Graph.new library config).run ops).state.flatten.LinksHonoured :=
  GraphState.linksHonoured_flatten (attuned_run library config ops)
    (everywhere_exact_run library config ops)

end Graph

end Patchbay
