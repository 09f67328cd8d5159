import Patchbay.History

/-!
# The cursor of a history

The cursor of a history stands on an entry (`History.Proper`) once something was recorded. A step
back and a step forth undo each other exactly, at both ends of the list too, where no step is
taken.
-/

namespace Patchbay.History

variable {α : Type} {h h' : History α} {a : α}

/-- The cursor stands on an entry, and at least one entry is kept. -/
structure Proper (h : History α) : Prop where
  cursor_lt : h.cursor < h.entries.length
  depth_pos : 1 ≤ h.depth

/-- Recording an entry puts the cursor on it, even when older entries go. -/
theorem proper_push (hd : 1 ≤ h.depth) (a : α) : (h.push a).Proper := by
  refine ⟨?_, hd⟩
  rw [push]
  simp only [List.length_drop, List.length_append, List.length_singleton]
  omega

theorem proper_ofDepth_push (depth : Nat) (a : α) : ((ofDepth depth).push a).Proper :=
  proper_push (h := ofDepth depth) (Nat.le_max_right depth 1) a

theorem undo?_eq_some (hu : h.undo? = some (h', a)) :
    0 < h.cursor ∧ h' = { h with cursor := h.cursor - 1 } ∧ h'.current? = some a := by
  rw [undo?] at hu
  split at hu
  · rename_i hcan
    obtain ⟨b, hb, heq⟩ := Option.map_eq_some_iff.mp hu
    cases heq
    exact ⟨by simpa [canUndo] using hcan, rfl, hb⟩
  · cases hu

theorem redo?_eq_some (hr : h.redo? = some (h', a)) :
    h.cursor + 1 < h.entries.length ∧ h' = { h with cursor := h.cursor + 1 } ∧
      h'.current? = some a := by
  rw [redo?] at hr
  split at hr
  · rename_i hcan
    obtain ⟨b, hb, heq⟩ := Option.map_eq_some_iff.mp hr
    cases heq
    exact ⟨by simpa [canRedo] using hcan, rfl, hb⟩
  · cases hr

theorem proper_undo (hp : h.Proper) (hu : h.undo? = some (h', a)) : h'.Proper := by
  obtain ⟨-, rfl, -⟩ := undo?_eq_some hu
  refine ⟨?_, hp.depth_pos⟩
  have hlt := hp.cursor_lt
  simp only
  omega

theorem proper_redo (hp : h.Proper) (hr : h.redo? = some (h', a)) : h'.Proper := by
  obtain ⟨hlt, rfl, -⟩ := redo?_eq_some hr
  exact ⟨hlt, hp.depth_pos⟩

/-- A step forth after a step back. -/
theorem forth_of_undo (hp : h.Proper) (hu : h.undo? = some (h', a)) : h'.forth = h := by
  obtain ⟨hpos, rfl, -⟩ := undo?_eq_some hu
  have hlt := hp.cursor_lt
  have hcursor : h.cursor - 1 + 1 = h.cursor := by omega
  simp [forth, redo?, canRedo, current?, hcursor, hlt]

/-- A step back after a step forth. -/
theorem back_of_redo (hp : h.Proper) (hr : h.redo? = some (h', a)) : h'.back = h := by
  obtain ⟨-, rfl, -⟩ := redo?_eq_some hr
  simp [back, undo?, canUndo, current?, hp.cursor_lt]

/-! ### Recording an entry -/

theorem length_take_cursor (hp : h.Proper) :
    (h.entries.take (h.cursor + 1)).length = h.cursor + 1 := by
  have hlt := hp.cursor_lt
  rw [List.length_take]
  omega

theorem cursor_push (hp : h.Proper) (a : α) :
    (h.push a).cursor = h.cursor + 1 - (h.cursor + 2 - h.depth) := by
  simp only [push, List.length_append, List.length_singleton, length_take_cursor hp]
  rfl

theorem current?_ofDepth_push (depth : Nat) (a : α) :
    ((ofDepth depth).push a).current? = some a := by
  have hdepth : 1 - max depth 1 = 0 := by omega
  simp [ofDepth, push, current?, hdepth]

theorem current?_push (hp : h.Proper) (a : α) : (h.push a).current? = some a := by
  have hd := hp.depth_pos
  have hlen := length_take_cursor hp
  rw [current?, cursor_push hp, push]
  simp only [List.length_append, List.length_singleton, hlen, List.getElem?_drop]
  rw [List.getElem?_append_right (by omega)]
  have hindex : h.cursor + 1 + 1 - h.depth + (h.cursor + 1 - (h.cursor + 2 - h.depth)) -
      (h.entries.take (h.cursor + 1)).length = 0 := by omega
  rw [hindex]
  rfl

/-- After an entry was recorded, a step back comes to the one before, and a step forth from there
to the new one, if two entries are kept. -/
theorem undo?_push (hp : h.Proper) (hd : 2 ≤ h.depth) (hc : h.current? = some a) (b : α) :
    ∃ h', (h.push b).undo? = some (h', a) ∧ h'.redo? = some (h.push b, b) := by
  have hcursor := cursor_push hp b
  have hpos : 0 < (h.push b).cursor := by omega
  have hback : (h.push b).entries[(h.push b).cursor - 1]? = some a := by
    have hlen := length_take_cursor hp
    rw [hcursor, push]
    simp only [List.length_append, List.length_singleton, hlen, List.getElem?_drop]
    -- the entry before the new one stands where the cursor was
    have hindex : h.cursor + 1 + 1 - h.depth + (h.cursor + 1 - (h.cursor + 2 - h.depth) - 1) =
        h.cursor := by
      omega
    rw [hindex, List.getElem?_append_left (by omega), List.getElem?_take_of_lt (by omega)]
    exact hc
  have hundo : (h.push b).undo? = some ({ h.push b with cursor := (h.push b).cursor - 1 }, a) := by
    simp [undo?, canUndo, current?, hpos, hback]
  refine ⟨_, hundo, ?_⟩
  have hforth : (h.push b).cursor - 1 + 1 = (h.push b).cursor := by omega
  obtain ⟨hlt, hentry⟩ := List.getElem?_eq_some_iff.mp (current?_push hp b)
  simp [redo?, canRedo, current?, hforth, hlt, hentry]

end Patchbay.History
