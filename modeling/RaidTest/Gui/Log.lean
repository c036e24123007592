import RaidTest.Base.Ring
import Mathlib.Data.Nat.Notation
import Mathlib.Data.List.Basic
import Mathlib.Data.List.DropRight

/-!
# The lines in the log window (`gui_log`, `ShowEventLogContent`, the export of `event.log`)

500 lines of 255 characters are kept. While there is room a line goes behind the last one;
after that it takes the place of the oldest, which `log_tail` names. The window skips empty
lines, the export does not.
-/

namespace RaidTest.Gui
open RaidTest.Base

def maxLogLines : ℕ := 500

def maxLogLineLen : ℕ := 256

/-- `log_lines`, `log_count` and `log_tail`. -/
structure LogLines where
  lines : ℕ → List Char
  count : ℕ
  tail : ℕ

def LogLines.start : LogLines := ⟨fun _ => [], 0, 0⟩

/-- `gui_log`. -/
def guiLog (g : LogLines) (msg : List Char) : LogLines :=
  let idx := if g.count < maxLogLines then g.count else g.tail
  { lines := fun i => if i = idx then msg.take (maxLogLineLen - 1) else g.lines i
    count := if g.count < maxLogLines then g.count + 1 else g.count
    tail := if g.count < maxLogLines then g.tail else (g.tail + 1) % maxLogLines }

/-- Where the oldest line is. -/
def LogLines.first (g : LogLines) : ℕ := if g.count < maxLogLines then 0 else g.tail

/-- The lines written to `event.log`. -/
def exportLog (g : LogLines) : List (List Char) :=
  (List.range g.count).map fun i => g.lines ((g.first + i) % maxLogLines)

/-- The lines `ShowEventLogContent` shows. -/
def shownLog (g : LogLines) : List (List Char) :=
  (List.range' g.first g.count).filterMap fun i =>
    if g.lines (i % maxLogLines) = [] then none else some (g.lines (i % maxLogLines))

/-- The record after the messages. -/
def logged (msgs : List (List Char)) : LogLines := msgs.foldl guiLog .start

/-- The record holds the last lines of the history in a ring. -/
structure Holds (g : LogLines) (history : List (List Char)) : Prop where
  count : g.count = min history.length maxLogLines
  tail : g.tail = (history.length - maxLogLines) % maxLogLines
  queued : Queued maxLogLines g.lines history (history.length - maxLogLines)

theorem holds_start : Holds .start [] := ⟨rfl, rfl, Queued.empty _⟩

/-- The cell the next line goes to. -/
theorem Holds.next {g : LogLines} {history : List (List Char)} (h : Holds g history) :
    (if g.count < maxLogLines then g.count else g.tail) = history.length % maxLogLines := by
  have hpos : 0 < maxLogLines := by decide
  rw [h.count, h.tail]
  split
  next hlt => rw [Nat.min_eq_left (by omega), Nat.mod_eq_of_lt (by omega)]
  next hge =>
    have he : history.length = history.length - maxLogLines + maxLogLines := by omega
    conv_rhs => rw [he, Nat.add_mod_right]

theorem guiLog_holds {g : LogLines} {history : List (List Char)} (h : Holds g history) (msg : List Char) :
    Holds (guiLog g msg) (history ++ [msg.take (maxLogLineLen - 1)]) := by
  have hpos : 0 < maxLogLines := by decide
  have hnext := h.next
  have hcount := h.count
  have hlen : (history ++ [msg.take (maxLogLineLen - 1)]).length = history.length + 1 := by
    rw [List.length_append, List.length_singleton]
  -- a full ring gives up its oldest line first
  have hroom : Queued maxLogLines g.lines history (history.length + 1 - maxLogLines) := by
    by_cases hlt : history.length < maxLogLines
    · have hq := h.queued
      rw [show history.length - maxLogLines = history.length + 1 - maxLogLines by omega] at hq
      exact hq
    · have hq := h.queued.pop (by omega)
      rw [show history.length - maxLogLines + 1 = history.length + 1 - maxLogLines by omega] at hq
      exact hq
  have hstored := (hroom.store (by omega) (msg.take (maxLogLineLen - 1))).publish (by omega)
  simp only [if_true] at hstored
  refine ⟨?_, ?_, ?_⟩
  · rw [hlen]
    simp only [guiLog, hcount]
    split <;> omega
  · rw [hlen]
    simp only [guiLog, hcount, h.tail]
    split
    · rw [show history.length + 1 - maxLogLines = 0 by omega, show history.length - maxLogLines = 0 by omega]
    · rw [Nat.mod_add_mod, show history.length - maxLogLines + 1 = history.length + 1 - maxLogLines by omega]
  · rw [hlen]
    simp only [guiLog, hnext]
    exact hstored

theorem logged_holds (msgs : List (List Char)) :
    Holds (logged msgs) (msgs.map (List.take (maxLogLineLen - 1))) := by
  induction msgs using List.reverseRecOn with
  | nil => exact holds_start
  | append_singleton msgs msg ih =>
    rw [logged, List.foldl_append, List.map_append, List.map_singleton]
    exact guiLog_holds ih msg

/-- Reading from the first line on gives the kept end of the history. -/
theorem Holds.read {g : LogLines} {history : List (List Char)} (h : Holds g history) :
    (List.range' g.first g.count).map (fun i => g.lines (i % maxLogLines)) =
      history.drop (history.length - maxLogLines) := by
  have hpos : 0 < maxLogLines := by decide
  apply List.ext_getElem?
  intro k
  rw [List.getElem?_map, List.getElem?_drop]
  by_cases hk : k < min history.length maxLogLines
  · have hcell : (g.first + k) % maxLogLines = (history.length - maxLogLines + k) % maxLogLines := by
      rw [LogLines.first, h.count, h.tail]
      split
      next hlt => rw [show history.length - maxLogLines = 0 by omega]
      next => rw [Nat.mod_add_mod]
    rw [List.getElem?_range' (by rw [h.count]; exact hk), h.queued.held _ (Nat.le_add_right _ _) (by omega),
      Option.map_some, Nat.one_mul, hcell]
  · rw [List.getElem?_eq_none (by rw [List.length_range', h.count]; omega), Option.map_none,
      List.getElem?_eq_none (by omega)]

/-- The last 500 messages, each cut to 255 characters. -/
def lastMessages (msgs : List (List Char)) : List (List Char) := (msgs.map (List.take 255)).drop (msgs.length - 500)

/-- However many messages were logged, the export is the last 500 of them in order, and the
window shows those of them that are not empty. -/
theorem log_keeps_last (msgs : List (List Char)) :
    exportLog (logged msgs) = lastMessages msgs ∧ shownLog (logged msgs) = (lastMessages msgs).filter (· ≠ []) := by
  have h := logged_holds msgs
  have hread := h.read
  rw [List.length_map] at hread
  refine ⟨?_, ?_⟩
  · refine Eq.trans ?_ hread
    rw [exportLog, List.range'_eq_map_range, List.map_map]
    rfl
  · have hfilter : ∀ l : List (List Char),
        l.filter (· ≠ []) = l.filterMap fun x => if x = [] then none else some x := by
      intro l
      induction l with
      | nil => rfl
      | cons x l ih =>
        rw [List.filter_cons, List.filterMap_cons, ih]
        by_cases hx : x = [] <;> simp [hx]
    rw [shownLog, hfilter]
    have hm := congrArg (List.filterMap fun x => if x = [] then none else some x) hread
    rw [List.filterMap_map] at hm
    exact hm

example : exportLog (logged ["one".toList, [], "two".toList]) = ["one".toList, [], "two".toList] := by decide

end RaidTest.Gui
