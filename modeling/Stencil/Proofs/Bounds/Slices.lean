import Stencil.Fallible
import Stencil.Proofs.Scan.Exact

/-! Checked access. A text can be cut at a byte offset only where one of its characters ends, and a
list only between its ends; otherwise there is no result. -/

namespace Stencil

/-- The part of a list from `start` up to `stop`. -/
def slice? {α : Type} (as : List α) (start stop : Nat) : Option (List α) :=
  if start ≤ stop ∧ stop ≤ as.length then some ((as.take stop).drop start) else none

section

variable {α : Type} {as part rest : List α} {a : α} {pos : Nat}

theorem slice?_of_prefix (hpos : pos ≤ as.length) (h : part <+: as.drop pos) :
    slice? as pos (pos + part.length) = some part := by
  have hlength := h.length_le
  rw [List.length_drop] at hlength
  rw [slice?, if_pos ⟨by omega, by omega⟩, List.drop_take, Nat.add_sub_cancel_left,
    ← List.prefix_iff_eq_take.1 h]

theorem lt_of_drop (h : as.drop pos = a :: rest) : pos < as.length := by
  have hlength := congrArg List.length h
  rw [List.length_drop, List.length_cons] at hlength
  omega

theorem getElem?_of_drop (h : as.drop pos = a :: rest) : as[pos]? = some a := by
  rw [← List.head?_drop, h, List.head?_cons]

theorem drop_succ (h : as.drop pos = a :: rest) : as.drop (pos + 1) = rest := by
  rw [← List.drop_drop, h, List.drop_one, List.tail_cons]

end

namespace Text

/-- What stands from a byte offset on. -/
def from? : List Char → Nat → Option (List Char)
  | cs, 0 => some cs
  | [], _ + 1 => none
  | c :: cs, n + 1 => if c.utf8Size ≤ n + 1 then from? cs (n + 1 - c.utf8Size) else none

/-- What stands before a byte offset. -/
def upTo? : List Char → Nat → Option (List Char)
  | _, 0 => some []
  | [], _ + 1 => none
  | c :: cs, n + 1 =>
    if c.utf8Size ≤ n + 1 then (upTo? cs (n + 1 - c.utf8Size)).map (c :: ·) else none

/-- What stands between two byte offsets. -/
def cut? (cs : List Char) (start stop : Nat) : Option (List Char) :=
  if start ≤ stop then (from? cs start).bind (upTo? · (stop - start)) else none

/-- The number of bytes before the first place where `pat` stands. -/
def findBytes? (pat cs : List Char) : Option Nat :=
  (find? pat cs).map fun n => bytes (cs.take n)

theorem from?_bytes (before rest : List Char) : from? (before ++ rest) (bytes before) = some rest := by
  induction before with
  | nil => cases rest <;> rfl
  | cons c before ih =>
    obtain ⟨n, hn⟩ : ∃ n, bytes (c :: before) = n + 1 :=
      Nat.exists_eq_add_one.2 (bytes_pos (List.cons_ne_nil c before))
    have hsum := bytes_cons c before
    have hrest : n + 1 - c.utf8Size = bytes before := by omega
    rw [hn, List.cons_append, from?, if_pos (by omega), hrest, ih]

theorem upTo?_bytes (text rest : List Char) : upTo? (text ++ rest) (bytes text) = some text := by
  induction text with
  | nil => cases rest <;> rfl
  | cons c text ih =>
    obtain ⟨n, hn⟩ : ∃ n, bytes (c :: text) = n + 1 :=
      Nat.exists_eq_add_one.2 (bytes_pos (List.cons_ne_nil c text))
    have hsum := bytes_cons c text
    have hrest : n + 1 - c.utf8Size = bytes text := by omega
    rw [hn, List.cons_append, upTo?, if_pos (by omega), hrest, ih, Option.map_some]

/-- A stretch of a text is cut out between the offsets of its ends. -/
theorem cut?_bytes (before text rest : List Char) :
    cut? (before ++ text ++ rest) (bytes before) (bytes before + bytes text) = some text := by
  have hlength : bytes before + bytes text - bytes before = bytes text := by omega
  rw [cut?, if_pos (by omega), hlength, List.append_assoc, from?_bytes, Option.bind_some,
    upTo?_bytes]

end Text

/-- A cut inside a character gives nothing. -/
example : Text.cut? "é!".toList 0 1 = none ∧ Text.cut? "é!".toList 2 3 = some ['!'] := by decide

end Stencil
