import Patchbay.Proofs.History
import Patchbay.Proofs.Snapshot.Text

/-!
# A history as a zipper

A history keeps its entries in one list and finds the current one by its place. A `Zipper` keeps
them apart: what came before the current entry, the entry, and what was undone, so that no place
has to be right. Laid out in one list (`History.ofZipper`), a zipper is a history, and each move of
the history is the move of the zipper laid out; hence both answer every run of moves alike.

Entries are kept coded. Since a history never looks into them, the coding has to be lossless for
what was recorded only.
-/

namespace Patchbay

variable {σ α : Type}

/-- What is asked of a history. -/
inductive History.Move (σ : Type) where
  | push (s : σ)
  | undo
  | redo

/-- What a history shows between two moves. An entry that cannot be decoded is shown as `some
none`. -/
structure History.View (σ : Type) where
  current? : Option (Option σ)
  size : Nat
  canUndo : Bool
  canRedo : Bool

/-- The state after moves taken one after another, and the reply to each. -/
def History.replies {τ ρ : Type} (step : τ → Move σ → τ × ρ) (t : τ) : List (Move σ) → τ × List ρ
  | [] => (t, [])
  | m :: moves =>
    let rest := replies step (step t m).1 moves
    (rest.1, (step t m).2 :: rest.2)

/-- The entries before the current one and those undone, each with the nearest first. -/
structure Zipper (σ : Type) where
  past : List σ := []
  present? : Option σ := none
  future : List σ := []

namespace Zipper

/-- Records a new current entry; of the earlier ones the newest are kept. -/
def push (depth : Nat) (z : Zipper σ) (s : σ) : Zipper σ :=
  { past := (z.present?.toList ++ z.past).take (max depth 1 - 1), present? := some s }

def undo? (z : Zipper σ) : Option (Zipper σ × σ) :=
  match z.past with
  | [] => none
  | s :: past => some ({ past, present? := some s, future := z.present?.toList ++ z.future }, s)

def redo? (z : Zipper σ) : Option (Zipper σ × σ) :=
  match z.future with
  | [] => none
  | s :: future => some ({ past := z.present?.toList ++ z.past, present? := some s, future }, s)

/-- The zipper after a move, and the entry that was stepped to. -/
def step (depth : Nat) (z : Zipper σ) : History.Move σ → Zipper σ × Option (Option σ)
  | .push s => (z.push depth s, none)
  | .undo => ((z.undo?.map (·.1)).getD z, z.undo?.map (some ·.2))
  | .redo => ((z.redo?.map (·.1)).getD z, z.redo?.map (some ·.2))

/-- All entries, the oldest first. -/
def entries (z : Zipper σ) : List σ := z.past.reverse ++ (z.present?.toList ++ z.future)

def view (z : Zipper σ) : History.View σ where
  current? := z.present?.map some
  size := z.past.length + z.present?.toList.length + z.future.length
  canUndo := !z.past.isEmpty
  canRedo := !z.future.isEmpty

/-- Only an empty zipper has no current entry, and no more is kept than the depth allows. -/
structure Proper (depth : Nat) (z : Zipper σ) : Prop where
  focused : z.present? = none → z.past = [] ∧ z.future = []
  size_le : z.entries.length ≤ max depth 1

variable {depth : Nat} {z : Zipper σ}

theorem proper_empty : ({} : Zipper σ).Proper depth := ⟨fun _ => ⟨rfl, rfl⟩, Nat.zero_le _⟩

theorem length_entries (z : Zipper σ) :
    z.entries.length = z.past.length + z.present?.toList.length + z.future.length := by
  simp only [entries, List.length_append, List.length_reverse]
  omega

theorem proper_push (z : Zipper σ) (s : σ) : (z.push depth s).Proper depth := by
  refine ⟨nofun, ?_⟩
  simp only [length_entries, push, List.length_take, Option.toList_some, List.length_singleton,
    List.length_nil]
  omega

/-- A proper zipper is empty or has a current entry. -/
theorem Proper.eq_empty_or (hz : z.Proper depth) :
    z = {} ∨ ∃ past s future, z = { past, present? := some s, future } := by
  obtain ⟨past, present?, future⟩ := z
  cases present? with
  | none =>
    obtain ⟨rfl, rfl⟩ := hz.focused rfl
    exact .inl rfl
  | some s => exact .inr ⟨past, s, future, rfl⟩

/-- A step back only moves the border between what is past and what was undone. -/
theorem undo?_eq_some {z' : Zipper σ} {s : σ} (hz : z.Proper depth) (h : z.undo? = some (z', s)) :
    z'.entries = z.entries ∧ z'.present? = some s := by
  obtain rfl | ⟨past, c, future, rfl⟩ := hz.eq_empty_or
  · cases h
  · cases past with
    | nil => cases h
    | cons s past =>
      cases h
      exact ⟨by simp [entries], rfl⟩

theorem redo?_eq_some {z' : Zipper σ} {s : σ} (hz : z.Proper depth) (h : z.redo? = some (z', s)) :
    z'.entries = z.entries ∧ z'.present? = some s := by
  obtain rfl | ⟨past, c, future, rfl⟩ := hz.eq_empty_or
  · cases h
  · cases future with
    | nil => cases h
    | cons s future =>
      cases h
      exact ⟨by simp [entries], rfl⟩

/-- A move records an entry or leaves all entries as they are. -/
theorem step_cases (hz : z.Proper depth) (m : History.Move σ) :
    (∃ s, m = .push s ∧ (z.step depth m).1 = z.push depth s) ∨
      (z.step depth m).1 = z ∨
      ((z.step depth m).1.entries = z.entries ∧ (z.step depth m).1.present?.isSome) := by
  cases m with
  | push s => exact .inl ⟨s, rfl, rfl⟩
  | undo =>
    cases hu : z.undo? with
    | none => exact .inr (.inl (by simp [step, hu]))
    | some back =>
      obtain ⟨hentries, hpresent⟩ := undo?_eq_some hz hu
      exact .inr (.inr (by simp [step, hu, hentries, hpresent]))
  | redo =>
    cases hr : z.redo? with
    | none => exact .inr (.inl (by simp [step, hr]))
    | some forth =>
      obtain ⟨hentries, hpresent⟩ := redo?_eq_some hz hr
      exact .inr (.inr (by simp [step, hr, hentries, hpresent]))

/-- Every move leaves a proper zipper. -/
theorem proper_step (hz : z.Proper depth) (m : History.Move σ) :
    (z.step depth m).1.Proper depth := by
  obtain ⟨s, -, h⟩ | h | ⟨hentries, hpresent⟩ := step_cases hz m
  · exact h ▸ z.proper_push s
  · exact h.symm ▸ hz
  · exact ⟨fun h => absurd hpresent (by simp [h]), hentries ▸ hz.size_le⟩

/-- What holds of all entries and of what is recorded holds of all entries after a move. -/
theorem forall_entries_step {P : σ → Prop} {m : History.Move σ} (hz : z.Proper depth)
    (h : ∀ s ∈ z.entries, P s) (hm : ∀ s, m = .push s → P s) : ∀ s ∈ (z.step depth m).1.entries,
    P s := by
  obtain ⟨a, hpush, hstep⟩ | hstep | ⟨hentries, -⟩ := step_cases hz m
  · rw [hstep]
    intro s hs
    simp only [entries, push, List.mem_append, List.mem_reverse, Option.toList_some,
      List.mem_singleton, List.not_mem_nil, or_false] at hs
    obtain hs | rfl := hs
    · refine h s ?_
      rw [entries, List.mem_append, List.mem_append, List.mem_reverse]
      obtain hs | hs := List.mem_append.mp (List.mem_of_mem_take hs)
      · exact .inr (.inl hs)
      · exact .inl hs
    · exact hm s hpush
  · rwa [hstep]
  · rwa [hentries]

theorem mem_entries_of_present {s : σ} (h : z.present? = some s) : s ∈ z.entries := by
  simp [entries, h]

theorem proper_replies (hz : z.Proper depth) (moves : List (History.Move σ)) :
    (History.replies (step depth) z moves).1.Proper depth := by
  induction moves generalizing z with
  | nil => exact hz
  | cons m moves ih => exact ih (proper_step hz m)

theorem forall_entries_replies {P : σ → Prop} (hz : z.Proper depth) (h : ∀ s ∈ z.entries, P s)
    (moves : List (History.Move σ)) (hm : ∀ s, .push s ∈ moves → P s) :
    ∀ s ∈ (History.replies (step depth) z moves).1.entries, P s := by
  induction moves generalizing z with
  | nil => exact h
  | cons m moves ih =>
    exact ih (proper_step hz m)
      (forall_entries_step hz h fun s hs => hm s (hs ▸ List.mem_cons_self))
      fun s hs => hm s (List.mem_cons_of_mem m hs)

end Zipper

namespace History

variable {depth : Nat} {z : Zipper σ} {encode : σ → α} {decode : α → Option σ}

/-- The history after a move, and what was stepped to. -/
def step (encode : σ → α) (decode : α → Option σ) (h : History α) :
    Move σ → History α × Option (Option σ)
  | .push s => (h.push (encode s), none)
  | .undo => (h.back, h.undo?.map (decode ·.2))
  | .redo => (h.forth, h.redo?.map (decode ·.2))

def view (decode : α → Option σ) (h : History α) : View σ where
  current? := h.current?.map decode
  size := h.size
  canUndo := h.canUndo
  canRedo := h.canRedo

/-- A zipper laid out in one list, coded. -/
def ofZipper (depth : Nat) (encode : σ → α) (z : Zipper σ) : History α where
  entries := z.entries.map encode
  cursor := z.past.length
  depth := max depth 1

theorem ofZipper_empty : ofZipper depth encode {} = ofDepth depth := rfl

/-- What a new entry is put behind: the current entry and the past. -/
theorem take_entries (hz : z.Proper depth) :
    z.entries.take (z.past.length + 1) = (z.present?.toList ++ z.past).reverse := by
  obtain rfl | ⟨past, s, future, rfl⟩ := hz.eq_empty_or
  · rfl
  · simp [Zipper.entries, List.take_append, List.take_of_length_le]

theorem push_ofZipper (hz : z.Proper depth) (s : σ) :
    (ofZipper depth encode z).push (encode s) = ofZipper depth encode (z.push depth s) := by
  -- what was undone is dropped before the entry is put at the end
  have hkept : (ofZipper depth encode z).entries.take ((ofZipper depth encode z).cursor + 1) ++
      [encode s] =
      ((z.present?.toList ++ z.past).reverse ++ [s]).map encode := by
    simp only [ofZipper, ← List.map_take, take_entries hz, List.map_append, List.map_cons,
      List.map_nil]
  have hlength : (((z.present?.toList ++ z.past).reverse ++ [s]).map encode).length =
      (z.present?.toList ++ z.past).length + 1 := by
    rw [List.length_map, List.length_append, List.length_reverse, List.length_singleton]
  -- the surplus goes from the far end of what is past
  have hsurplus : (z.present?.toList ++ z.past).length + 1 - max depth 1 =
      (z.present?.toList ++ z.past).length - (max depth 1 - 1) := by omega
  have hdrop : ((z.present?.toList ++ z.past).reverse ++ [s]).drop
      ((z.present?.toList ++ z.past).length + 1 - max depth 1) = (z.push depth s).entries := by
    rw [List.drop_append_of_le_length (by rw [List.length_reverse]; omega), hsurplus,
      Zipper.entries, Zipper.push, List.reverse_take]
    rfl
  have hcursor : (z.present?.toList ++ z.past).length + 1 - 1 -
      ((z.present?.toList ++ z.past).length + 1 - max depth 1) = (z.push depth s).past.length := by
    rw [Zipper.push, List.length_take]
    omega
  simp only [push, hkept, hlength]
  rw [ofZipper, ofZipper, ← List.map_drop, hdrop, hcursor]

theorem current?_ofZipper (hz : z.Proper depth) :
    (ofZipper depth encode z).current? = z.present?.map encode := by
  obtain rfl | ⟨past, s, future, rfl⟩ := hz.eq_empty_or
  · rfl
  · simp [current?, ofZipper, Zipper.entries]

theorem undo?_ofZipper (hz : z.Proper depth) :
    (ofZipper depth encode z).undo? =
      z.undo?.map fun back => (ofZipper depth encode back.1, encode back.2) := by
  obtain rfl | ⟨past, s, future, rfl⟩ := hz.eq_empty_or
  · rfl
  · cases past with
    | nil => rfl
    | cons b past => simp [undo?, canUndo, current?, ofZipper, Zipper.entries, Zipper.undo?]

theorem redo?_ofZipper (hz : z.Proper depth) :
    (ofZipper depth encode z).redo? =
      z.redo?.map fun forth => (ofZipper depth encode forth.1, encode forth.2) := by
  obtain rfl | ⟨past, s, future, rfl⟩ := hz.eq_empty_or
  · rfl
  · cases future with
    | nil => simp [redo?, canRedo, ofZipper, Zipper.entries, Zipper.redo?]
    | cons b future => simp [redo?, canRedo, current?, ofZipper, Zipper.entries, Zipper.redo?]

theorem step_ofZipper (hz : z.Proper depth) (hcode : ∀ s ∈ z.entries, decode (encode s) = some s)
    (m : Move σ) :
    step encode decode (ofZipper depth encode z) m =
      (ofZipper depth encode (z.step depth m).1, (z.step depth m).2) := by
  cases m with
  | push s => simp only [step, push_ofZipper hz, Zipper.step]
  | undo =>
    simp only [step, back, undo?_ofZipper hz, Zipper.step]
    cases hu : z.undo? with
    | none => rfl
    | some back =>
      obtain ⟨hentries, hpresent⟩ := Zipper.undo?_eq_some hz hu
      have hread := hcode _ (hentries ▸ Zipper.mem_entries_of_present hpresent)
      simp [hread]
  | redo =>
    simp only [step, forth, redo?_ofZipper hz, Zipper.step]
    cases hr : z.redo? with
    | none => rfl
    | some forth =>
      obtain ⟨hentries, hpresent⟩ := Zipper.redo?_eq_some hz hr
      have hread := hcode _ (hentries ▸ Zipper.mem_entries_of_present hpresent)
      simp [hread]

theorem view_ofZipper (hz : z.Proper depth) (hcode : ∀ s ∈ z.entries, decode (encode s) = some s) :
    (ofZipper depth encode z).view decode = z.view := by
  have hcurrent : (ofZipper depth encode z).current?.map decode = z.present?.map some := by
    rw [current?_ofZipper hz]
    cases hp : z.present? with
    | none => rfl
    | some s => simp [hcode s (Zipper.mem_entries_of_present hp)]
  have hsize : (ofZipper depth encode z).size = z.view.size := by
    rw [size, ofZipper, List.length_map, z.length_entries]
    rfl
  have hundo : (ofZipper depth encode z).canUndo = z.view.canUndo := by
    cases hp : z.past <;> simp [canUndo, ofZipper, Zipper.view, hp]
  have hredo : (ofZipper depth encode z).canRedo = z.view.canRedo := by
    obtain rfl | ⟨past, s, future, rfl⟩ := hz.eq_empty_or
    · rfl
    · cases future <;> simp [canRedo, ofZipper, Zipper.view, Zipper.entries]
  rw [view, hcurrent, hsize, hundo, hredo]
  rfl

/-- The cursor stands on an entry once something was recorded. -/
theorem proper_ofZipper (hz : z.Proper depth) :
    ofZipper depth encode z = ofDepth depth ∨ (ofZipper depth encode z).Proper := by
  obtain rfl | ⟨past, s, future, rfl⟩ := hz.eq_empty_or
  · exact .inl rfl
  · refine .inr ⟨?_, Nat.le_max_right depth 1⟩
    simp only [ofZipper, List.length_map, Zipper.length_entries, Option.toList_some,
      List.length_singleton]
    omega

/-- A run of moves from a zipper laid out is the run of the zipper, laid out. -/
theorem replies_ofZipper (hz : z.Proper depth)
    (hcode : ∀ s ∈ z.entries, decode (encode s) = some s)
    (moves : List (Move σ)) (lossless : ∀ s, .push s ∈ moves → decode (encode s) = some s) :
    replies (step encode decode) (ofZipper depth encode z) moves =
      (ofZipper depth encode (replies (Zipper.step depth) z moves).1,
        (replies (Zipper.step depth) z moves).2) := by
  induction moves generalizing z with
  | nil => rfl
  | cons m moves ih =>
    have hcode' :=
      Zipper.forall_entries_step hz hcode fun s hs => lossless s (hs ▸ List.mem_cons_self)
    have hrest :=
      ih (Zipper.proper_step hz m) hcode' fun s hs => lossless s (List.mem_cons_of_mem m hs)
    simp only [replies, step_ofZipper hz hcode, hrest]

/-- A history of any depth is a bounded zipper (`Zipper.step`): with entries coded without loss,
both give the same replies to every run of moves and show the same afterwards. The cursor always
stands on an entry, unless nothing was recorded yet, and no more entries are kept than the depth
allows. -/
theorem replies_eq_zipper (depth : Nat) (encode : σ → α) (decode : α → Option σ)
    (moves : List (Move σ))
    (lossless : ∀ s, .push s ∈ moves → decode (encode s) = some s) :
    let coded := replies (step encode decode) (ofDepth depth) moves
    let zipper := replies (Zipper.step depth) {} moves
    coded.2 = zipper.2 ∧ coded.1.view decode = zipper.1.view ∧
      (coded.1 = ofDepth depth ∨ coded.1.Proper) ∧ coded.1.size ≤ max depth 1 := by
  have hnil : ∀ s ∈ ({} : Zipper σ).entries, decode (encode s) = some s := fun s hs =>
    absurd hs List.not_mem_nil
  have hempty : ({} : Zipper σ).Proper depth := Zipper.proper_empty
  have hproper := Zipper.proper_replies hempty moves
  have hcode := Zipper.forall_entries_replies hempty hnil moves lossless
  have hrun := replies_ofZipper hempty hnil moves lossless
  rw [ofZipper_empty] at hrun
  intro coded zipper
  have hlaid : coded.1 = ofZipper depth encode zipper.1 := congrArg Prod.fst hrun
  refine ⟨congrArg Prod.snd hrun, ?_, ?_, ?_⟩
  · exact hlaid ▸ view_ofZipper hproper hcode
  · exact hlaid ▸ proper_ofZipper hproper
  · rw [hlaid, size, ofZipper, List.length_map]
    exact hproper.size_le

/-- A graph keeps its snapshots as texts. Of three recorded at depth two the oldest is gone, so
that the second step back finds none. -/
theorem replies_snapshots :
    let blank : GraphSnapshot := ⟨[]⟩
    let single : GraphSnapshot := ⟨[.bare "a" "Display"]⟩
    (replies (step GraphSnapshot.write GraphSnapshot.read?) (ofDepth 2)
        [.push single, .push blank, .push single, .undo, .undo, .redo, .redo]).2 =
      [none, none, none, some (some blank), none, some (some single), none] := by
  intro blank single
  have hblank : GraphSnapshot.read? blank.write = some blank :=
    GraphSnapshot.read?_write ⟨trivial, by decide, by decide⟩
  have hsingle : GraphSnapshot.read? single.write = some single :=
    GraphSnapshot.read?_write ⟨⟨⟨nofun, trivial⟩, trivial⟩, by decide, by decide⟩
  refine (replies_eq_zipper 2 GraphSnapshot.write GraphSnapshot.read? _ ?_).1
  intro s hs
  simp only [List.mem_cons, Move.push.injEq, reduceCtorEq, List.not_mem_nil, or_false] at hs
  obtain rfl | rfl | rfl := hs
  · exact hsingle
  · exact hblank
  · exact hsingle

end History

end Patchbay
