/-!
# Edit history

A history is a list of recorded entries with a cursor on the current one. Recording an entry
discards what was undone, and the oldest entries go when the list grows past its depth.
-/

namespace Patchbay

/-- A bounded list of entries, of which one is current. -/
structure History (α : Type) where
  entries : List α := []
  /-- The place of the current entry. -/
  cursor : Nat := 0
  /-- How many entries are kept. -/
  depth : Nat

namespace History

variable {α : Type}

/-- An empty history; it keeps at least one entry. -/
def ofDepth (depth : Nat) : History α := { depth := max depth 1 }

/-- The depth of a history where none is given. -/
def usualDepth : Nat := 100

/-- Records a new current entry. -/
def push (h : History α) (a : α) : History α :=
  let kept := h.entries.take (h.cursor + 1) ++ [a]
  let surplus := kept.length - h.depth
  { h with entries := kept.drop surplus, cursor := kept.length - 1 - surplus }

/-- Whether there is an earlier entry. -/
def canUndo (h : History α) : Bool := 0 < h.cursor

/-- Whether there is a later entry. -/
def canRedo (h : History α) : Bool := h.cursor + 1 < h.entries.length

/-- The current entry. -/
def current? (h : History α) : Option α := h.entries[h.cursor]?

/-- Steps back to the earlier entry. -/
def undo? (h : History α) : Option (History α × α) :=
  if h.canUndo then
    let back := { h with cursor := h.cursor - 1 }
    back.current?.map (back, ·)
  else none

/-- Steps forward to the later entry. -/
def redo? (h : History α) : Option (History α × α) :=
  if h.canRedo then
    let forth := { h with cursor := h.cursor + 1 }
    forth.current?.map (forth, ·)
  else none

/-- One step back, whatever the entry there holds. -/
def back (h : History α) : History α := (h.undo?.map (·.1)).getD h

/-- One step forward, whatever the entry there holds. -/
def forth (h : History α) : History α := (h.redo?.map (·.1)).getD h

/-- The number of entries. -/
def size (h : History α) : Nat := h.entries.length

/-- Whether nothing was recorded. -/
def isEmpty (h : History α) : Bool := h.entries.isEmpty

end History

end Patchbay
