import Patchbay.Graph.Flatten
import Patchbay.Proofs.Graph.Mirrors

/-!
# Routes into nested graphs

A *route* is a list of ids of subgraph nodes, which leads into the graph inside the first one, then
inside the second one there, and so on (`GraphState.HoldsAt`). A pad *denotes* a pad of a node of a
type: itself, or, if it is a proxy, what its target denotes, at the end of a route
(`GraphState.Denotes`).

In an exact graph (`GraphState.Exact`) every pad denotes one, and no two pads of a graph denote the
same (`Denotes.eq_of_denotes`). What a link inside joins is denoted by no pad around it, since
proxies stand for pads without links only (`Denotes.unlinked`).
-/

namespace Patchbay

/-! ### The text of a route -/

/-- The ids of a route, each with a mark behind it. The id of a flat node is this text and the id
of the node. -/
def routeText (route : List String) : String := route.foldr (fun id rest => id ++ "/" ++ rest) ""

@[simp] theorem routeText_nil : routeText [] = "" := rfl

theorem routeText_cons (id : String) (route : List String) :
    routeText (id :: route) = id ++ "/" ++ routeText route := rfl

theorem routeText_append (route route' : List String) :
    routeText (route ++ route') = routeText route ++ routeText route' := by
  induction route with
  | nil => simp
  | cons id rest ih =>
    rw [List.cons_append, routeText_cons, routeText_cons, ih, String.append_assoc,
      String.append_assoc, String.append_assoc]

/-- Texts without a mark are told apart by what stands before the first mark. -/
private theorem eq_of_append_mark {a b : String} (ha : '/' ∉ a.toList) (hb : '/' ∉ b.toList)
    {x y : String} (h : a ++ "/" ++ x = b ++ "/" ++ y) : a = b ∧ x = y := by
  have hlist : a.toList ++ '/' :: x.toList = b.toList ++ '/' :: y.toList := by
    simpa [String.toList_append] using congrArg String.toList h
  have hbefore : ∀ a x : String, '/' ∉ a.toList →
      (a.toList ++ '/' :: x.toList).takeWhile (· != '/') = a.toList := by
    intro a x ha
    rw [List.takeWhile_append_of_pos fun c hc => by simpa using ne_of_mem_of_not_mem hc ha]
    simp
  have hab : a.toList = b.toList := by rw [← hbefore a x ha, hlist, hbefore b y hb]
  rw [hab, List.append_cancel_left_eq, List.cons.injEq] at hlist
  exact ⟨String.toList_inj.mp hab, String.toList_inj.mp hlist.2⟩

/-- The text of a route with an id behind it tells both, since ids are without marks. -/
theorem routeText_append_inj {route route' : List String} {id id' : String}
    (hroute : ∀ x ∈ route, '/' ∉ x.toList) (hroute' : ∀ x ∈ route', '/' ∉ x.toList)
    (hid : '/' ∉ id.toList) (hid' : '/' ∉ id'.toList)
    (h : routeText route ++ id = routeText route' ++ id') : route = route' ∧ id = id' := by
  have hmark : ∀ {a x : String}, '/' ∈ (a ++ "/" ++ x).toList := by simp
  induction route generalizing route' with
  | nil =>
    cases route' with
    | nil => exact ⟨rfl, by simpa using h⟩
    | cons a rest =>
      rw [routeText_cons, routeText_nil, String.empty_append, String.append_assoc] at h
      exact absurd (h ▸ hmark) hid
  | cons a rest ih =>
    cases route' with
    | nil =>
      rw [routeText_cons, routeText_nil, String.empty_append, String.append_assoc] at h
      exact absurd (h ▸ hmark) hid'
    | cons b rest' =>
      obtain ⟨ha, hrest⟩ := List.forall_mem_cons.mp hroute
      obtain ⟨hb, hrest'⟩ := List.forall_mem_cons.mp hroute'
      rw [routeText_cons, routeText_cons, String.append_assoc,
        @String.append_assoc (b ++ "/")] at h
      obtain ⟨rfl, hsame⟩ := eq_of_append_mark ha hb h
      obtain ⟨rfl, rfl⟩ := ih hrest hrest' hsame
      exact ⟨rfl, rfl⟩

namespace GraphState

/-! ### Routes and what pads denote -/

/-- The route leads from `s` to the graph `t`, through the subgraph nodes with its ids. -/
inductive HoldsAt : GraphState → List String → GraphState → Prop where
  | here (s : GraphState) : HoldsAt s [] s
  | inside {s inner t : GraphState} {e : NodeEntry} {id : Option String} {route : List String}
      (mem : e ∈ s.nodes) (body : e.body = .subgraph id inner) (rest : HoldsAt inner route t) :
      HoldsAt s (e.id :: route) t

/-- The pad at `r` denotes the pad at `r'` in the graph that the route leads to: a pad of a node of
a type denotes itself, and a proxy denotes what its target does. -/
inductive Denotes : GraphState → PadRef → List String → PadRef → Prop where
  | plugin {s : GraphState} {e : NodeEntry} {type : NodeType} {p : PadState} (mem : e ∈ s.nodes)
      (body : e.body = .plugin type) (pad : p ∈ e.pads) : Denotes s ⟨e.id, p.id⟩ [] ⟨e.id, p.id⟩
  | proxy {s inner : GraphState} {e : NodeEntry} {id : Option String} {p : PadState}
      {target r' : PadRef} {route : List String} (mem : e ∈ s.nodes)
      (body : e.body = .subgraph id inner) (pad : p ∈ e.pads) (proxy : p.proxy = some target)
      (rest : Denotes inner target route r') : Denotes s ⟨e.id, p.id⟩ (e.id :: route) r'

/-- A well-formed graph with exact proxies (`Mirrored`) and one link per sink. Graphs that were
resolved are exact (`everywhere_exact_reconcile`). -/
structure Exact (s : GraphState) : Prop where
  wellFormed : s.WellFormed
  mirrored : s.Mirrored
  ordered : Ordered s.links

variable {s t u inner : GraphState} {e e' : NodeEntry} {route route' : List String}
  {r r' q : PadRef} {p : PadState} {id id' : Option String} {inner' : GraphState}

theorem HoldsAt.encloses (h : s.HoldsAt route t) : s.Encloses t := by
  induction h with
  | here s => exact .refl s
  | inside mem body _ ih => exact .inner mem body ih

theorem HoldsAt.trans (h : s.HoldsAt route t) (h' : t.HoldsAt route' u) :
    s.HoldsAt (route ++ route') u := by
  induction h with
  | here => exact h'
  | inside mem body _ ih => exact .inside mem body (ih h')

theorem HoldsAt.split (h : s.HoldsAt (route ++ route') u) :
    ∃ t, s.HoldsAt route t ∧ t.HoldsAt route' u := by
  induction route generalizing s with
  | nil => exact ⟨s, .here s, h⟩
  | cons x route ih =>
    rw [List.cons_append] at h
    cases h with
    | inside mem body rest =>
      obtain ⟨t, ht, hrest⟩ := ih rest
      exact ⟨t, .inside mem body ht, hrest⟩

theorem holdsAt_nil_iff : s.HoldsAt [] t ↔ s = t := by
  constructor
  · rintro ⟨⟩
    rfl
  · rintro rfl
    exact .here s

theorem holdsAt_cons_iff {x : String} : s.HoldsAt (x :: route) t ↔
    ∃ e ∈ s.nodes, e.id = x ∧ ∃ id inner, e.body = .subgraph id inner ∧ inner.HoldsAt route t := by
  constructor
  · intro h
    cases h with
    | inside mem body rest => exact ⟨_, mem, rfl, _, _, body, rest⟩
  · rintro ⟨e, he, rfl, id, inner, hb, hrest⟩
    exact .inside he hb hrest

/-- At the end of a route a pad denotes itself. -/
theorem denotes_nil_iff : s.Denotes r [] r' ↔ r = r' ∧
    ∃ e ∈ s.nodes, ∃ type, e.body = .plugin type ∧ ∃ p ∈ e.pads, r = ⟨e.id, p.id⟩ := by
  constructor
  · intro h
    cases h with
    | plugin mem body pad => exact ⟨rfl, _, mem, _, body, _, pad, rfl⟩
  · rintro ⟨rfl, e, he, type, hb, p, hp, rfl⟩
    exact .plugin he hb hp

/-- Before the end, it is a proxy of the subgraph node that the route goes through. -/
theorem denotes_cons_iff {x : String} : s.Denotes r (x :: route) r' ↔
    ∃ e ∈ s.nodes, e.id = x ∧ ∃ id inner, e.body = .subgraph id inner ∧
      ∃ p ∈ e.pads, r = ⟨e.id, p.id⟩ ∧ ∃ q, p.proxy = some q ∧ inner.Denotes q route r' := by
  constructor
  · intro h
    cases h with
    | proxy mem body pad proxy rest =>
      exact ⟨_, mem, rfl, _, _, body, _, pad, rfl, _, proxy, rest⟩
  · rintro ⟨e, he, rfl, id, inner, hb, p, hp, rfl, q, hq, hrest⟩
    exact .proxy he hb hp hq hrest

section

variable (hs : s.Everywhere Exact)

include hs

theorem eq_of_id_eq (he : e ∈ s.nodes) (he' : e' ∈ s.nodes) (hid : e.id = e'.id) : e = e' := by
  have hfind := node?_of_mem hs.self.wellFormed.distinctNodes he
  rw [hid, node?_of_mem hs.self.wellFormed.distinctNodes he'] at hfind
  exact (Option.some.inj hfind).symm

/-- Ids on routes are without the mark that ends them (`isValidNodeId`). -/
theorem HoldsAt.valid (h : s.HoldsAt route t) : ∀ x ∈ route, '/' ∉ x.toList := by
  induction h with
  | here => simp
  | @inside s inner t e id route mem body _ ih =>
    exact List.forall_mem_cons.mpr
      ⟨(hs.self.wellFormed.validIds e mem).2.2, ih (hs.body mem id inner body)⟩

/-- Behind the id of a subgraph node, a route leads on from the graph inside. -/
theorem HoldsAt.tail (h : s.HoldsAt (e.id :: route) t) (he : e ∈ s.nodes)
    (hb : e.body = .subgraph id inner) :
    inner.HoldsAt route t := by
  obtain ⟨e', he', hid, id', inner', hb', hrest⟩ := holdsAt_cons_iff.mp h
  obtain rfl := eq_of_id_eq hs he he' hid.symm
  obtain ⟨-, rfl⟩ := Body.subgraph.inj (hb.symm.trans hb')
  exact hrest

/-- A route leads to one graph. -/
theorem HoldsAt.det (h : s.HoldsAt route t) (h' : s.HoldsAt route u) : t = u := by
  induction h with
  | here => exact holdsAt_nil_iff.mp h'
  | @inside s inner t e id route mem body _ ih =>
    exact ih (hs.body mem id inner body) (h'.tail hs mem body)

/-- A proxy mirrors its target (`PadState.Mirrors`), which has no link inside. -/
theorem proxy_target (he : e ∈ s.nodes) (hb : e.body = .subgraph id inner) (hp : p ∈ e.pads)
    (hq : p.proxy = some q) : ∃ d, p.Mirrors q d ∧ inner.pad? q = some d ∧ inner.Unlinked q := by
  obtain ⟨x, d, hx, hd, hun⟩ := mirrors_target (hs.body he id inner hb).self.wellFormed
    (hs.self.mirrored e he id inner hb) hp
  obtain rfl : x = q := by simpa [hx.proxy] using hq
  exact ⟨d, hx, hd, hun⟩

/-- No two pads of a graph denote the same pad, because no two proxies have one target. -/
theorem Denotes.eq_of_denotes (h : s.Denotes r route r') (h' : s.Denotes q route r') : r = q := by
  induction route generalizing s r q with
  | nil => exact (denotes_nil_iff.mp h).1.trans (denotes_nil_iff.mp h').1.symm
  | cons x route ih =>
    obtain ⟨e, he, rfl, id, inner, hb, p, hp, rfl, y, hy, h⟩ := denotes_cons_iff.mp h
    obtain ⟨e', he', hid, id', inner', hb', p', hp', rfl, y', hy', h'⟩ := denotes_cons_iff.mp h'
    obtain rfl := eq_of_id_eq hs he he' hid.symm
    rw [hb, Body.subgraph.injEq] at hb'
    obtain ⟨rfl, rfl⟩ := hb'
    obtain rfl := ih (hs.body he id inner hb) h h'
    -- proxies are called after their targets
    obtain ⟨d, hd, -⟩ := proxy_target hs he hb hp hy
    obtain ⟨d', hd', -⟩ := proxy_target hs he hb hp' hy'
    rw [hd.id, hd'.id]

/-- What is denoted in a graph inside is denoted there by a pad without links, by induction on the
route. -/
theorem Denotes.unlinked (h : s.Denotes r (route ++ route') r') (ht : s.HoldsAt route t)
    (hne : route ≠ []) : ∃ q, t.Unlinked q ∧ t.Denotes q route' r' := by
  induction route generalizing s r with
  | nil => exact absurd rfl hne
  | cons x route ih =>
    obtain ⟨e, he, rfl, id, inner, hb, p, hp, rfl, y, hy, h⟩ := denotes_cons_iff.mp h
    have ht := ht.tail hs he hb
    cases route with
    | nil =>
      obtain rfl := holdsAt_nil_iff.mp ht
      obtain ⟨d, -, -, hun⟩ := proxy_target hs he hb hp hy
      exact ⟨y, hun, h⟩
    | cons x' rest => exact ih (hs.body he id inner hb) h ht (by simp)

/-- What a pad denotes is a pad of its direction and kind, at a node of a type at the end of the
route. -/
theorem Denotes.target (h : s.Denotes r route r') : ∃ p, s.pad? r = some p ∧ ∃ t,
    s.HoldsAt route t ∧
    ∃ e ∈ t.nodes, ∃ type, e.body = .plugin type ∧
      ∃ d ∈ e.pads, r' = ⟨e.id, d.id⟩ ∧ d.padType = p.padType := by
  induction h with
  | @plugin s e type p mem body pad =>
    exact ⟨p, hs.self.wellFormed.pad?_eq mem pad, s, .here s, e, mem, type, body, p, pad, rfl, rfl⟩
  | @proxy s inner e id p target r' route mem body pad proxy _ ih =>
    have hin := hs.body mem id inner body
    obtain ⟨d, hd, htarget, -⟩ := proxy_target hs mem body pad proxy
    obtain ⟨d', hd', t, ht, f, hf, type, hfb, c, hc, hr', htype⟩ := ih hin
    obtain rfl : d' = d := Option.some.inj (hd'.symm.trans htarget)
    exact ⟨p, hs.self.wellFormed.pad?_eq mem pad, t, .inside mem body ht, f, hf, type, hfb, c, hc,
      hr', htype.trans hd.padType.symm⟩

/-- Every pad denotes one: proxies lead inside, and depth is finite. -/
theorem exists_denotes (hp : s.pad? r = some p) : ∃ route r', s.Denotes r route r' := by
  induction s using insideInduction generalizing r p with
  | step s ih =>
    obtain ⟨e, he, hid, hmem, hpid⟩ := pad?_eq_some hp
    obtain rfl : r = ⟨e.id, p.id⟩ := by rw [hid, hpid]
    cases hb : e.body with
    | plugin type => exact ⟨[], _, .plugin he hb hmem⟩
    | subgraph id inner =>
      have hin := hs.body he id inner hb
      obtain ⟨x, d, hx, hd, -⟩ :=
        mirrors_target hin.self.wellFormed (hs.self.mirrored e he id inner hb) hmem
      obtain ⟨route, r', hdenotes⟩ := ih e he id inner hb hin hd
      exact ⟨e.id :: route, r', .proxy he hb hmem hx.proxy hdenotes⟩

end

/-- A graph that was resolved is exact at every depth. -/
theorem everywhere_exact_reconcile {config : EngineConfig} {external : External}
    (hs : s.Everywhere (Orderly (fun _ _ => True) fun _ => True))
    (h : reconcile config external s = .ok t) :
    t.Everywhere Exact := by
  have hext : external.In fun _ => True := fun _ _ => trivial
  have hmirror := everywhere_mirrored_reconcile Regime.all hext hs h
  have hwf := everywhere_wellFormed_reconcile Regime.all hext hs h
  have horderly := everywhere_orderly_reconcile Regime.all hext hs h
  exact fun u hu => ⟨hwf u hu, hmirror u hu, (horderly u hu).ordered⟩

end GraphState

/-! ### After any operations -/

theorem Graph.everywhere_exact_run (library : Library) (config : EngineConfig)
    (ops : List Operation) :
    ((Graph.new library config).run ops).state.Everywhere GraphState.Exact := by
  have hlib : (Graph.new library config).library.In fun _ _ => True := fun _ _ _ => trivial
  have hsane := sane_run Regime.all hlib sane_empty ops
  have hmirror := everywhere_mirrored_run library config ops
  exact fun t ht => ⟨hsane.wellFormed t ht, hmirror t ht, (hsane.orderly t ht).ordered⟩

end Patchbay
